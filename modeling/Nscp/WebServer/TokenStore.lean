import Nscp.Library.Eviction
import Nscp.Library.Runs

/-!
# The session tokens of the web server

A table from the hash of a token to the user it was issued to and the time of issue.  Entries come
in by a login or by restoring a saved session; they leave when they are found expired, when the
table is full, or by revocation.
-/

namespace Nscp.WebServer

open Eviction List Option Table

abbrev Text := List Char

/-- Times are seconds since the epoch. -/
abbrev Time := ℤ

def tokenExpirationHours : Time := 8

def hoursToSeconds (h : Time) : Time := h * 60 * 60

def hasTokenExpired (createdTime now : Time) : Bool :=
  createdTime > now ∨ now > createdTime + hoursToSeconds tokenExpirationHours

structure TokenEntry where
  user : Text
  created : Time
  fingerprint : Text

open TokenEntry

/-- The entries in the order in which the table visits them. -/
abbrev TokenMap := Table Text TokenEntry

structure PersistedSession where
  hash : Text
  user : Text
  created : Time
  fingerprint : Text

/-- Where an insertion leaves the entries in the order of visits: a hash table gives no promise
but to keep them. -/
structure Layout where
  arrange : TokenMap → TokenMap
  perm : ∀ t, (arrange t).entries.Perm t.entries

namespace TokenStore

def kMaxTokens : ℕ := 4096

/-- Drops what has expired, then the oldest entries until there is room for one. -/
def sweepExpired (t : TokenMap) (now : Time) : TokenMap :=
  dropOldest created kMaxTokens
    (filter (fun _ entry => !hasTokenExpired entry.created now) t)

/-- Restoring a session sweeps only at the cap. -/
def sweepFull (t : TokenMap) (now : Time) : TokenMap :=
  if t.entries.length ≥ kMaxTokens then sweepExpired t now else t

section Operations

variable (keyFor : Text ↪ Text)

section

variable (t : TokenMap)

def isValid (token : Text) (now : Time) : Bool × TokenMap :=
  match t.lookup (keyFor token) with
  | none => (false, t)
  | some entry =>
    if hasTokenExpired entry.created now then (false, t.erase (keyFor token)) else (true, t)

/-- The user of a live token. -/
def validate (token : Text) (now : Time) : Option Text × TokenMap :=
  match t.lookup (keyFor token) with
  | none => (none, t)
  | some entry =>
    if hasTokenExpired entry.created now then (none, t.erase (keyFor token))
    else (some entry.user, t)

/-- `token` is what the generator drew, empty when it failed. -/
def generateFor (user fingerprint token : Text) (now : Time) (layout : Layout) :
    Text × TokenMap :=
  if token.isEmpty then (token, t)
  else if (keyFor token).isEmpty then ([], t)
  else (token, layout.arrange ((sweepExpired t now).insert (keyFor token) ⟨user, now, fingerprint⟩))

def restore (session : PersistedSession) (now : Time) (layout : Layout) :
    Bool × TokenMap :=
  if session.hash.isEmpty ∨ session.user.isEmpty then (false, t)
  else if hasTokenExpired session.created now then (false, t)
  else if (t.lookup session.hash).isSome then (false, t)
  else if (sweepFull t now).entries.length ≥ kMaxTokens then (false, sweepFull t now)
  else (true, layout.arrange ((sweepFull t now).insert session.hash
    ⟨session.user, session.created, session.fingerprint⟩))

def revoke (token : Text) : TokenMap :=
  t.erase (keyFor token)

def revokeTokensForUser (user : Text) : TokenMap :=
  filter (fun _ entry => entry.user ≠ user) t

end

end Operations

end TokenStore

/-! ## Runs -/

inductive TokenOp
  | generateFor (user fingerprint token : Text) (now : Time) (layout : Layout)
  | restore (session : PersistedSession) (now : Time) (layout : Layout)
  | validate (token : Text) (now : Time)
  | isValid (token : Text) (now : Time)
  | revoke (token : Text)
  | revokeTokensForUser (user : Text)
  | sweep (now : Time)

namespace TokenStore

variable (keyFor : Text ↪ Text) (layout : Layout)

def step (t : TokenMap) : TokenOp → TokenMap
  | .generateFor user fingerprint token now layout =>
    (generateFor keyFor t user fingerprint token now layout).2
  | .restore session now layout => (restore t session now layout).2
  | .validate token now => (validate keyFor t token now).2
  | .isValid token now => (isValid keyFor t token now).2
  | .revoke token => revoke keyFor t token
  | .revokeTokensForUser user => revokeTokensForUser t user
  | .sweep now => sweepExpired t now

def run (ops : List TokenOp) : TokenMap :=
  ops.foldl (step keyFor) ∅

/-- The operation handed the token out for the user, or took a saved session of it back. -/
def Issues (t : TokenMap) (op : TokenOp) (token user : Text) (created : Time) : Prop :=
  match op with
  | .generateFor user' fingerprint token' now layout =>
    user' = user ∧ now = created ∧ token ≠ [] ∧
      (generateFor keyFor t user' fingerprint token' now layout).1 = token
  | .restore session now layout =>
    session.hash = keyFor token ∧ session.user = user ∧ session.created = created ∧
      (restore t session now layout).1 = true
  | _ => False

/-- The operation revokes what is stored under the key, or everything of the user. -/
def Revokes (op : TokenOp) (key user : Text) : Prop :=
  match op with
  | .revoke token => keyFor token = key
  | .revokeTokensForUser user' => user' = user
  | _ => False

/-- The clock an operation reads. -/
def clock : TokenOp → Option Time
  | .generateFor _ _ _ now _ | .restore _ now _ | .validate _ now | .isValid _ now
  | .sweep now => some now
  | .revoke _ | .revokeTokensForUser _ => none

/-! ## What an operation can do to an entry -/

theorem lookup_arrange (t : TokenMap) (key : Text) : (layout.arrange t).lookup key = t.lookup key :=
  AList.perm_lookup (layout.perm t)

theorem length_arrange (t : TokenMap) : (layout.arrange t).entries.length = t.entries.length :=
  (layout.perm t).length_eq

section Sweep

variable {t : TokenMap} {now : Time} {key : Text} {entry : TokenEntry}

theorem length_sweepExpired_lt (t : TokenMap) (now : Time) :
    (sweepExpired t now).entries.length < kMaxTokens :=
  length_dropOldest_lt created (by decide) _

theorem lookup_of_lookup_sweepExpired (h : (sweepExpired t now).lookup key = some entry) :
    t.lookup key = some entry := by
  have hfilter := (evicted_dropOldest created kMaxTokens _).kept h
  rw [lookup_filter] at hfilter
  exact (filter_eq_some_iff.mp hfilter).1

/-- At the time `now` the table held its cap of unexpired entries; all of them but as many as make
room for one stay, and none that stays is older than the entry. -/
structure CapDropped (t r : TokenMap) (now : Time) (entry : TokenEntry) : Prop where
  full : kMaxTokens ≤ t.entries.countP fun e => !hasTokenExpired e.2.created now
  stay : kMaxTokens ≤ (t.entries.countP fun e =>
    !hasTokenExpired e.2.created now && (r.lookup e.1).isSome) + 1
  oldest : ∀ key entry', t.lookup key = some entry' → r.lookup key = some entry' →
    entry.created ≤ entry'.created

/-- The swept table is a part of the unexpired entries, so its length counts those that stay. -/
theorem length_sweepExpired_le (t : TokenMap) (now : Time) :
    (sweepExpired t now).entries.length ≤ t.entries.countP fun e =>
      !hasTokenExpired e.2.created now && ((sweepExpired t now).lookup e.1).isSome := by
  rw [countP_eq_length_filter]
  refine (subperm_of_subset (sweepExpired t now).nodupKeys.nodup fun e he => ?_).length_le
  have hswept := mem_entries_lookup.mp he
  have hfresh := (evicted_dropOldest created kMaxTokens _).kept hswept
  rw [lookup_filter] at hfresh
  obtain ⟨hold, hunexpired⟩ := filter_eq_some_iff.mp hfresh
  rw [mem_filter, hswept, isSome_some, Bool.and_true]
  exact ⟨mem_entries_lookup.mpr hold, hunexpired⟩

theorem lost_sweepExpired (h : t.lookup key = some entry)
    (hlost : (sweepExpired t now).lookup key = none) :
    hasTokenExpired entry.created now = true ∨ CapDropped t (sweepExpired t now) now entry := by
  by_cases hexp : hasTokenExpired entry.created now = true
  · exact .inl hexp
  · have hfresh : (filter (fun _ entry => !hasTokenExpired entry.created now) t).lookup key =
        some entry := by
      rw [lookup_filter, h]
      exact filter_some_pos (by rw [Bool.not_eq_true] at hexp; rw [hexp]; rfl)
    obtain ⟨hfull, hle⟩ :=
      (evicted_dropOldest created kMaxTokens _).lowest hfresh hlost
    refine .inr ⟨?_, ?_, fun key' entry' _ hkept => hle key' entry' hkept⟩
    · rw [countP_eq_length_filter]
      exact hfull
    · exact (le_length_dropOldest created _ (hfull.trans (Nat.le_succ _))).trans
        (Nat.succ_le_succ (length_sweepExpired_le t now))

theorem lookup_of_lookup_sweepFull (h : (sweepFull t now).lookup key = some entry) :
    t.lookup key = some entry := by
  rw [sweepFull] at h
  split_ifs at h
  · exact lookup_of_lookup_sweepExpired h
  · exact h

theorem lost_sweepFull (h : t.lookup key = some entry)
    (hlost : (sweepFull t now).lookup key = none) :
    hasTokenExpired entry.created now = true ∨ CapDropped t (sweepFull t now) now entry := by
  rw [sweepFull] at hlost ⊢
  split_ifs at hlost ⊢
  · exact lost_sweepExpired h hlost
  · exact nomatch h.symm.trans hlost

end Sweep

variable {keyFor} {t : TokenMap} {op : TokenOp} {entry new : TokenEntry} {r : TokenMap} {now : Time}
  {token key a : Text}

theorem validate_table (keyFor : Text ↪ Text) (t : TokenMap) (token : Text) (now : Time) :
    (validate keyFor t token now).2 = t ∨
      (∃ entry, t.lookup (keyFor token) = some entry ∧ hasTokenExpired entry.created now = true) ∧
        (validate keyFor t token now).2 = t.erase (keyFor token) := by
  rw [validate]
  split
  · exact .inl rfl
  · next entry hentry =>
      split_ifs with hexp
      · exact .inr ⟨⟨entry, hentry, hexp⟩, rfl⟩
      · exact .inl rfl

theorem isValid_table (token : Text) (now : Time) :
    (isValid keyFor t token now).2 = (validate keyFor t token now).2 := by
  rw [isValid, validate]
  split
  · rfl
  · split_ifs <;> rfl

theorem lookup_of_lookup_erase (h : (t.erase a).lookup key = some entry) :
    key ≠ a ∧ t.lookup key = some entry := by
  rw [lookup_erase_eq_if] at h
  split_ifs at h with hkey
  exact ⟨hkey, h⟩

theorem lookup_of_lookup_validate (h : (validate keyFor t token now).2.lookup key = some entry) :
    t.lookup key = some entry := by
  rcases validate_table keyFor t token now with hsame | ⟨-, herase⟩
  · rwa [hsame] at h
  · rw [herase] at h
    exact (lookup_of_lookup_erase h).2

/-- Where an entry comes from: it was there and was not revoked, or the operation issued it. -/
theorem lookup_step (h : (step keyFor t op).lookup (keyFor token) = some entry) :
    (t.lookup (keyFor token) = some entry ∧ ¬ Revokes keyFor op (keyFor token) entry.user) ∨
      Issues keyFor t op token entry.user entry.created := by
  cases op with
  | generateFor user fingerprint token' now layout =>
    rw [step, generateFor] at h
    split_ifs at h with hempty hkey
    · exact .inl ⟨h, id⟩
    · exact .inl ⟨h, id⟩
    · rw [lookup_arrange, lookup_insert_eq_if] at h
      split_ifs at h with hsame
      · obtain rfl := keyFor.injective hsame
        cases h
        refine .inr ⟨rfl, rfl, fun hnil => hempty (hnil ▸ rfl), ?_⟩
        rw [generateFor, if_neg hempty, if_neg hkey]
      · exact .inl ⟨lookup_of_lookup_sweepExpired h, id⟩
  | restore session now layout =>
    rw [step, restore] at h
    split_ifs at h with hempty hexp hthere hfull
    · exact .inl ⟨h, id⟩
    · exact .inl ⟨h, id⟩
    · exact .inl ⟨h, id⟩
    · exact .inl ⟨lookup_of_lookup_sweepFull h, id⟩
    · rw [lookup_arrange, lookup_insert_eq_if] at h
      split_ifs at h with hsame
      · cases h
        refine .inr ⟨hsame.symm, rfl, rfl, ?_⟩
        rw [restore, if_neg hempty, if_neg hexp, if_neg hthere, if_neg hfull]
      · exact .inl ⟨lookup_of_lookup_sweepFull h, id⟩
  | validate token' now => exact .inl ⟨lookup_of_lookup_validate h, id⟩
  | isValid token' now =>
    rw [step, isValid_table] at h
    exact .inl ⟨lookup_of_lookup_validate h, id⟩
  | revoke token' =>
    obtain ⟨hne, h⟩ := lookup_of_lookup_erase h
    exact .inl ⟨h, fun hsame => hne (Eq.symm hsame)⟩
  | revokeTokensForUser user =>
    rw [step, revokeTokensForUser, lookup_filter] at h
    obtain ⟨h, huser⟩ := filter_eq_some_iff.mp h
    exact .inl ⟨h, fun hsame => of_decide_eq_true huser (Eq.symm hsame)⟩
  | sweep now => exact .inl ⟨lookup_of_lookup_sweepExpired h, id⟩

theorem CapDropped.insert (h : CapDropped t r now entry) (layout : Layout)
    (hnew : t.lookup key = some new → entry.created ≤ new.created) :
    CapDropped t (layout.arrange (r.insert key new)) now entry := by
  refine ⟨h.full, h.stay.trans (Nat.succ_le_succ (countP_mono_left fun e _ hkept => ?_)),
    fun key' entry' hold hkept => ?_⟩
  · rw [Bool.and_eq_true] at hkept ⊢
    rw [lookup_arrange, lookup_insert_eq_if]
    split_ifs
    · exact ⟨hkept.1, rfl⟩
    · exact hkept
  · rw [lookup_arrange, lookup_insert_eq_if] at hkept
    split_ifs at hkept with hkey
    · cases hkept
      exact hnew (hkey ▸ hold)
    · exact h.oldest key' entry' hold hkept

theorem lookup_insert_none {layout : Layout}
    (h : (layout.arrange (r.insert a new)).lookup key = none) : r.lookup key = none := by
  rw [lookup_arrange, lookup_insert_eq_if] at h
  split_ifs at h
  exact h

theorem lost_validate (h : t.lookup key = some entry)
    (hlost : (validate keyFor t token now).2.lookup key = none) :
    hasTokenExpired entry.created now = true := by
  rcases validate_table keyFor t token now with hsame | ⟨⟨entry', hentry', hexp⟩, herase⟩
  · rw [hsame, h] at hlost
    cases hlost
  · rw [herase, lookup_erase_eq_if] at hlost
    split_ifs at hlost with hkey
    · obtain rfl := some.inj (h.symm.trans (hkey ▸ hentry'))
      exact hexp
    · rw [h] at hlost
      cases hlost

/-- Why an entry is gone: it was revoked, it had expired, or it was among the oldest at the cap.
-/
theorem lost_step (h : t.lookup key = some entry) (hlost : (step keyFor t op).lookup key = none) :
    Revokes keyFor op key entry.user ∨ ∃ now, clock op = some now ∧
      (hasTokenExpired entry.created now = true ∨
        CapDropped t (step keyFor t op) now entry) := by
  have hstay : t.lookup key = none → False := fun hnone => nomatch h.symm.trans hnone
  cases op with
  | generateFor user fingerprint token now layout =>
    rw [step, generateFor] at hlost ⊢
    split_ifs at hlost ⊢
    · exact (hstay hlost).elim
    · exact (hstay hlost).elim
    · refine .inr ⟨now, rfl, ?_⟩
      by_cases hexp : hasTokenExpired entry.created now = true
      · exact .inl hexp
      · have hdrop := (lost_sweepExpired h (lookup_insert_none hlost)).resolve_left hexp
        rw [hasTokenExpired, decide_eq_true_iff, not_or] at hexp
        exact .inr (hdrop.insert layout fun _ => not_lt.mp hexp.1)
  | restore session now layout =>
    rw [step, restore] at hlost ⊢
    split_ifs at hlost ⊢ with hempty hexp hthere hfull
    · exact (hstay hlost).elim
    · exact (hstay hlost).elim
    · exact (hstay hlost).elim
    · exact .inr ⟨now, rfl, lost_sweepFull h hlost⟩
    · refine .inr ⟨now, rfl, (lost_sweepFull h (lookup_insert_none hlost)).imp_right
        fun hdrop => hdrop.insert layout fun hold => ?_⟩
      exact absurd (isSome_of_eq_some hold) hthere
  | validate token now => exact .inr ⟨now, rfl, .inl (lost_validate h hlost)⟩
  | isValid token now =>
    rw [step, isValid_table] at hlost
    exact .inr ⟨now, rfl, .inl (lost_validate h hlost)⟩
  | revoke token =>
    rw [step, revoke, lookup_erase_eq_if] at hlost
    split_ifs at hlost with hkey
    · exact .inl hkey.symm
    · exact (hstay hlost).elim
  | revokeTokensForUser user =>
    rw [step, revokeTokensForUser, lookup_filter, h] at hlost
    refine .inl ?_
    by_contra huser
    have hother : entry.user ≠ user := fun hsame => huser (Eq.symm hsame)
    rw [filter_some, decide_eq_true hother, if_pos rfl] at hlost
    cases hlost
  | sweep now => exact .inr ⟨now, rfl, lost_sweepExpired h hlost⟩

theorem length_arrange_insert_le (h : r.entries.length < kMaxTokens) (key : Text)
    (new : TokenEntry) : (layout.arrange (r.insert key new)).entries.length ≤ kMaxTokens := by
  rw [length_arrange]
  exact (length_insert_le r key new).trans h

/-- Each way of issuing makes room for one entry first. -/
theorem length_step_le (op : TokenOp) (h : t.entries.length ≤ kMaxTokens) :
    (step keyFor t op).entries.length ≤ kMaxTokens := by
  have hvalidate : ∀ token now, (validate keyFor t token now).2.entries.length ≤ kMaxTokens := by
    intro token now
    rcases validate_table keyFor t token now with hsame | ⟨-, herase⟩
    · rw [hsame]
      exact h
    · rw [herase]
      exact (length_erase_le t _).trans h
  cases op with
  | generateFor user fingerprint token now layout =>
    rw [step, generateFor]
    split_ifs
    · exact h
    · exact h
    · exact length_arrange_insert_le layout (length_sweepExpired_lt t now) _ _
  | restore session now layout =>
    have hswept : (sweepFull t now).entries.length < kMaxTokens := by
      rw [sweepFull]
      split_ifs with hfull
      · exact length_sweepExpired_lt t now
      · exact not_le.mp hfull
    rw [step, restore]
    split_ifs
    · exact h
    · exact h
    · exact h
    · exact hswept.le
    · exact length_arrange_insert_le layout hswept _ _
  | validate token now => exact hvalidate token now
  | isValid token now =>
    rw [step, isValid_table]
    exact hvalidate token now
  | revoke token => exact (length_erase_le t _).trans h
  | revokeTokensForUser user => exact (length_filter_le _ t.entries).trans h
  | sweep now => exact (length_sweepExpired_lt t now).le

/-! ## Whole runs -/

variable (keyFor)

theorem exists_issue {ops : List TokenOp}
    (h : (run keyFor ops).lookup (keyFor token) = some entry) :
    ∃ before op after, ops = before ++ op :: after ∧
      Issues keyFor (run keyFor before) op token entry.user entry.created ∧
        ∀ op' ∈ after, ¬ Revokes keyFor op' (keyFor token) entry.user := by
  induction ops using reverseRecOn with
  | nil => exact nomatch h
  | append_singleton ops op ih =>
    rw [run, foldl_append] at h
    rcases lookup_step h with ⟨hold, hrevoke⟩ | hissue
    · obtain ⟨before, op', after, rfl, hissue, hafter⟩ := ih hold
      refine ⟨before, op', after ++ [op], ?_, hissue, ?_⟩
      · rw [append_assoc, cons_append]
      · exact forall_mem_append.mpr ⟨hafter, forall_mem_singleton.mpr hrevoke⟩
    · exact ⟨ops, op, [], rfl, hissue, fun op' hop' => absurd hop' not_mem_nil⟩

theorem validate_eq_some {user : Text} (h : (validate keyFor t token now).1 = some user) :
    ∃ entry, t.lookup (keyFor token) = some entry ∧ entry.user = user ∧ entry.created ≤ now ∧
      now ≤ entry.created + hoursToSeconds tokenExpirationHours := by
  rw [validate] at h
  split at h
  · cases h
  · next entry hentry =>
      split_ifs at h with hexp
      rw [hasTokenExpired, decide_eq_true_iff, not_or, not_lt, not_lt] at hexp
      exact ⟨entry, hentry, some.inj h, hexp⟩

/-- A token validates only within its time, for the user it was issued to or restored for, and
with no revocation since; the table keeps its cap, and an entry that leaves it is revoked, has
expired, or is among the oldest of a full table, which loses no more than it must. -/
theorem sessions_safe (ops : List TokenOp) :
    (∀ token now user, (validate keyFor (run keyFor ops) token now).1 = some user →
      ∃ before op after created, ops = before ++ op :: after ∧
        Issues keyFor (run keyFor before) op token user created ∧
        created ≤ now ∧ now ≤ created + 8 * 60 * 60 ∧
        ∀ op' ∈ after, ¬ Revokes keyFor op' (keyFor token) user) ∧
      (run keyFor ops).entries.length ≤ 4096 ∧
      ∀ op key entry, (run keyFor ops).lookup key = some entry →
        (step keyFor (run keyFor ops) op).lookup key = none →
        Revokes keyFor op key entry.user ∨ ∃ now, clock op = some now ∧
          (hasTokenExpired entry.created now = true ∨
            CapDropped (run keyFor ops) (step keyFor (run keyFor ops) op) now entry) := by
  refine ⟨?_, ?_, fun op key entry h hlost => lost_step h hlost⟩
  · intro token now user hvalid
    obtain ⟨entry, hentry, rfl, hstart, hend⟩ := validate_eq_some keyFor hvalid
    obtain ⟨before, op, after, hops, hissue, hafter⟩ := exists_issue keyFor hentry
    exact ⟨before, op, after, entry.created, hops, hissue, hstart, hend, hafter⟩
  · exact Runs.foldl_invariant (I := fun t : TokenMap => t.entries.length ≤ kMaxTokens)
      (fun t op h => length_step_le op h) (Nat.zero_le _) ops

/-! ## A run that evicts -/

def loginOf (length : ℕ) : TokenOp :=
  .generateFor ['u'] [] (replicate length 'x') 0 ⟨id, fun _ => .refl _⟩

def logins (n : ℕ) : List TokenOp := (range n).map fun i => loginOf (i + 1)

theorem step_loginOf (t : TokenMap) (n : ℕ) : step (.refl Text) t (loginOf (n + 1)) =
    (sweepExpired t 0).insert (replicate (n + 1) 'x') ⟨['u'], 0, []⟩ := rfl

theorem run_logins {n : ℕ} (hn : n ≤ kMaxTokens) :
    (run (.refl Text) (logins n)).entries.length = n ∧
      ∀ e ∈ (run (.refl Text) (logins n)).entries, e.1.length ≤ n ∧ e.2.created = 0 := by
  induction n with
  | zero => exact ⟨rfl, forall_mem_nil _⟩
  | succ n ih =>
    obtain ⟨hlength, hentries⟩ := ih (Nat.le_of_succ_le hn)
    have hrun : run (.refl Text) (logins (n + 1)) =
        step (.refl Text) (run (.refl Text) (logins n)) (loginOf (n + 1)) := by
      rw [logins, range_succ, map_append, run, foldl_append]
      rfl
    rw [hrun]
    generalize run (.refl Text) (logins n) = t at hlength hentries
    have hswept : sweepExpired t 0 = t := by
      have hfilter : filter (fun _ entry => !hasTokenExpired entry.created 0) t = t :=
        AList.ext (filter_eq_self.mpr fun e he => by simp [(hentries e he).2]; rfl)
      rw [sweepExpired, hfilter, dropOldest, if_pos (hlength ▸ hn)]
    have hnew : (replicate (n + 1) 'x' : Text) ∉ t := fun hmem => by
      obtain ⟨e, he, hkey⟩ := mem_map.mp hmem
      have hshort := (hentries e he).1
      rw [hkey, length_replicate] at hshort
      exact absurd hshort (Nat.not_succ_le_self n)
    have hstep : (step (.refl Text) t (loginOf (n + 1))).entries =
        ⟨replicate (n + 1) 'x', ['u'], 0, []⟩ :: t.entries := by
      rw [step_loginOf, hswept, AList.entries_insert_of_notMem hnew]
    rw [hstep, length_cons, hlength]
    refine ⟨rfl, forall_mem_cons.mpr ⟨⟨length_replicate.le, rfl⟩, fun e he => ?_⟩⟩
    exact (hentries e he).imp_left Nat.le_succ_of_le

/-- The login into a table of 4096 live sessions evicts one of them. -/
theorem sessions_safe_evicts : ∃ key entry,
    (run (.refl Text) (logins 4096)).lookup key = some entry ∧
      CapDropped (run (.refl Text) (logins 4096))
        (step (.refl Text) (run (.refl Text) (logins 4096)) (loginOf 4097)) 0 entry := by
  obtain ⟨hlength, hentries⟩ := run_logins (n := 4096) le_rfl
  have hlost := (sessions_safe (.refl Text) (logins 4096)).2.2 (loginOf 4097)
  generalize run (.refl Text) (logins 4096) = t at *
  -- more keys than the swept table has room for, so one of them goes
  obtain ⟨e, he, hgone⟩ : ∃ e ∈ t.entries, (sweepExpired t 0).lookup e.1 = none := by
    by_contra! hall
    have hsub : t.keys ⊆ (sweepExpired t 0).keys := fun key hkey => by
      obtain ⟨e, he, rfl⟩ := mem_map.mp hkey
      exact AList.lookup_isSome.mp (ne_none_iff_isSome.mp (hall e he))
    have hle := (subperm_of_subset t.keys_nodup hsub).length_le
    rw [← length_entries, ← length_entries, hlength] at hle
    exact absurd (length_sweepExpired_lt t 0) (not_lt.mpr hle)
  obtain ⟨hshort, hcreated⟩ := hentries e he
  have hother : e.1 ≠ replicate 4097 'x' := fun hkey => by
    rw [hkey, length_replicate] at hshort
    exact absurd hshort (by decide)
  have hnone : (step (.refl Text) t (loginOf 4097)).lookup e.1 = none := by
    rw [step_loginOf, AList.lookup_insert_ne hother, hgone]
  have hold := mem_entries_lookup.mp he
  obtain hrevokes | ⟨now, hnow, hexp | hdrop⟩ := hlost e.1 e.2 hold hnone
  · exact hrevokes.elim
  · obtain rfl := some.inj hnow
    rw [hcreated] at hexp
    exact absurd hexp (by decide)
  · obtain rfl := some.inj hnow
    exact ⟨e.1, e.2, hold, hdrop⟩

end TokenStore

end Nscp.WebServer
