import Nscp.Onboarding.Pacing

/-!
# The unconfirmed verdict

A document that the server acknowledges without saying what it holds, and never reports
holding, is refused after three acknowledgements.  The pacer counts them in one counter that
every refusal resets, whichever document it is about, and keeps one refusal at a time.
-/

namespace Nscp.Onboarding

open Prod Nat Pacer List

variable {p : Pacer} {hash : String} {now : ℕ} {answer : Option String}

/-! ## What the verdict is to be -/

/-- The acknowledgements of a document with no other document uploaded in between and no
confirmation. -/
def Event.tally (hash : String) (n : ℕ) : Event → ℕ
  | .serverHolds held _ => if held = hash then 0 else n
  | .upload u =>
    if u.hash = hash then
      match u.outcome with
      | .acknowledged answer => if answer = some hash then 0 else n + 1
      | _ => n
    else 0
  | _ => n

def tally (hash : String) (es : List Event) : ℕ :=
  es.foldl (Event.tally hash) 0

/-- A report of the document, or an acknowledgement of it with a readable header. -/
def Event.reports (hash : String) : Event → Bool
  | .serverHolds held _ => held = hash
  | .upload u =>
    match u.outcome with
    | .acknowledged answer => u.hash = hash && answer.isSome
    | _ => false
  | _ => false

/-- The server acknowledges the document without a readable header and never reports it. -/
def Unreported (hash : String) (es : List Event) : Prop :=
  ∀ e ∈ es, e.reports hash = false

instance (hash : String) (es : List Event) : Decidable (Unreported hash es) :=
  inferInstanceAs (Decidable (∀ e ∈ es, _))

/-- No report differs from the first one. -/
def Unchanged (es : List Event) : Prop :=
  ∀ held now held' now', Event.serverHolds held now ∈ es → Event.serverHolds held' now' ∈ es →
    held = held'

namespace Paced

/-- The third acknowledgement and no other yields the verdict, and after it the document is
not offered until a day has passed or a report differs from the first one. -/
structure VerdictExact (hash : String) (es : List Event) : Prop where
  third : ∀ pre u post, es = pre ++ .upload u :: post → u.hash = hash →
    u.outcome = .acknowledged none →
    ((run {} pre).pacer.verdict hash u.now none = true ↔ tally hash (pre ++ [.upload u]) = 3)
  withheld : ∀ pre u mid post now, es = pre ++ .upload u :: mid ++ post → u.hash = hash →
    u.outcome = .acknowledged none → (run {} pre).pacer.verdict hash u.now none = true →
    (run {} (pre ++ .upload u :: mid)).clock ≤ now → now < u.now + seconds (24 * 3600) →
    Unchanged mid → (run {} (pre ++ .upload u :: mid)).pacer.shouldUpload hash now = false

/-! ## What the pacer counts -/

/-- The number of an acknowledgement since the counter was last reset. -/
def ackNumber (p : Pacer) (hash : String) (n : ℕ) : ℕ :=
  if hash = p.refusedHash then 1 else n + 1

def keep (hash : String) (n : ℕ) (s : Paced) : Event → ℕ
  | .refused _ _ => 0
  | .serverHolds held _ => if s.pacer.Clears held then 0 else n
  | .upload u =>
    match u.outcome with
    | .acknowledged _ =>
      if u.hash = hash ∧ ackNumber s.pacer hash n ≠ 3 then ackNumber s.pacer hash n else 0
    | .rejected => n
    | .refused => 0
  | _ => n

def kept (hash : String) (es : List Event) : ℕ :=
  (Runs.trail next {} es).foldl (fun n x => keep hash n x.2 x.1) 0

def recorded (s : Paced) : Event → Option String
  | .refused hash _ => some hash
  | .upload u =>
    match u.outcome with
    | .acknowledged answer =>
      if s.pacer.verdict u.hash u.now answer then some u.hash else none
    | .rejected => none
    | .refused => some u.hash
  | _ => none

def lastRefused (hash : String) (s : Paced) (es : List Event) : String :=
  (Runs.trail next s es).foldl (fun d x => (x.2.recorded x.1).getD d) hash

end Paced

namespace Pacer

/-- The rules of `shouldUpload` other than the refusal. -/
def withheld (p : Pacer) (current : String) (now : ℕ) : Bool :=
  p.skipThisTurn || p.server = none || current = "" || some current = p.server ||
    now < p.holdUntil || (current = p.rejectedHash && now < p.retryAt) ||
    (current = p.acked && now < p.resendAt)

variable (p : Pacer)

theorem shouldUpload_eq_false_iff (current : String) (now : ℕ) :
    p.shouldUpload current now = false ↔
      (current = p.refusedHash ∧ now < p.refusedUntil) ∨ p.withheld current now = true := by
  simp only [shouldUpload, withheld]
  split_ifs <;> simp_all

theorem unconfirmed_countAck (hash : String) (now : ℕ) : (p.countAck hash now).unconfirmed =
      if hash = p.acked ∧ p.confirmed = false then p.unconfirmed + 1 else 1 := by
  simp only [countAck]
  by_cases hacked : hash = p.acked
  · cases hconfirmed : p.confirmed with
    | true =>
      have hlost : ¬ (hash = p.acked ∧ true = false) := fun h => Bool.noConfusion h.2
      rw [if_pos hacked, if_pos rfl, if_neg hlost]
    | false =>
      rw [if_pos hacked, if_neg Bool.false_ne_true, if_pos ⟨hacked, rfl⟩]
  · rw [if_neg hacked, if_neg (fun h => hacked h.1)]

theorem unconfirmed_counted (hne : hash ≠ "") (now : ℕ) : (p.counted hash now).unconfirmed =
      if hash = p.refusedHash then 1
      else if hash = p.acked ∧ p.confirmed = false then p.unconfirmed + 1 else 1 := by
  rw [counted, unconfirmed_countAck]
  by_cases hreleased : hash = p.refusedHash
  · have hcond : p.clearRejections.refusedHash ≠ "" ∧ hash = p.clearRejections.refusedHash :=
      ⟨fun he => hne (hreleased.trans he), hreleased⟩
    rw [if_pos hreleased, release, if_pos hcond, if_neg (fun h => hne h.1)]
  · have hcond : ¬ (p.clearRejections.refusedHash ≠ "" ∧ hash = p.clearRejections.refusedHash) :=
      fun h => hreleased h.2
    rw [if_neg hreleased, release, if_neg hcond]
    rfl

section

variable (hash : String) (now : ℕ)

theorem unconfirmed_serverHolds : (p.serverHolds hash now).unconfirmed = if p.Clears hash then 0
      else if p.acked ≠ "" ∧ hash = p.acked then 0 else p.unconfirmed := by
  have hreported : (p.reported hash now).unconfirmed =
      if p.acked ≠ "" ∧ hash = p.acked then 0 else p.unconfirmed := by
    simp only [reported, confirm]
    split_ifs <;> rfl
  rw [serverHolds_eq, compared, ← hreported]
  by_cases hclears : p.Clears hash
  · rw [if_pos ((clears_reported p hash now).mpr hclears), if_pos hclears]
    rfl
  · rw [if_neg (fun h => hclears ((clears_reported p hash now).mp h)), if_neg hclears]

theorem unconfirmed_acknowledged (answer : Option String) :
    (p.acknowledged hash now answer).1.unconfirmed =
      if p.verdict hash now answer then 0 else (p.answered hash now answer).1.unconfirmed := by
  rw [acknowledged_fst]
  split_ifs
  · simp only [refuseMismatch]
    split_ifs <;> rfl
  · rfl

theorem unconfirmed_acknowledged_le (answer : Option String) :
    (p.acknowledged hash now answer).1.unconfirmed ≤ 2 := by
  rw [unconfirmed_acknowledged]
  split_ifs with hverdict
  · exact zero_le 2
  · refine le_of_lt_succ (not_le.mp fun hle => hverdict ?_)
    change (_ || decide (3 ≤ (p.answered hash now answer).1.unconfirmed)) = true
    rw [decide_eq_true hle, Bool.or_true]

theorem verdict_none_iff :
    p.verdict hash now none = true ↔ 3 ≤ (p.counted hash now).unconfirmed := by
  change (false || decide (3 ≤ (p.counted hash now).unconfirmed)) = true ↔ _
  rw [Bool.false_or, decide_eq_true_iff]

end

end Pacer

/-! ## The counter means the acknowledgements since the last refusal -/

namespace Paced

variable {s : Paced} {e : Event} {u : Upload} {n : ℕ}

theorem eq_none_of_reports {asked : ℕ}
    (h : (Event.upload ⟨hash, asked, now, .acknowledged answer⟩).reports hash = false) :
    answer = none := by
  cases answer with
  | none => rfl
  | some digest => simp [Event.reports] at h

/-- The counter belongs to the document acknowledged last. -/
structure Kept (hash : String) (n : ℕ) (p : Pacer) : Prop where
  sent : p.acked = hash → p.confirmed = false ∧ p.unconfirmed = n
  unsent : p.acked ≠ hash → n = 0
  small : p.unconfirmed ≤ 2

section

variable (h : Kept hash n p)
include h

theorem Kept.le_two : n ≤ 2 := by
  by_cases hacked : p.acked = hash
  · exact (h.sent hacked).2 ▸ h.small
  · exact (h.unsent hacked).le.trans (zero_le 2)

theorem Kept.unconfirmed_counted (hne : hash ≠ "") (now : ℕ) :
    (p.counted hash now).unconfirmed = ackNumber p hash n := by
  rw [Pacer.unconfirmed_counted p hne, ackNumber]
  split_ifs with hreleased hsent
  · rfl
  · rw [(h.sent hsent.1.symm).2]
  · rw [h.unsent fun hacked => hsent ⟨hacked.symm, (h.sent hacked).1⟩]

theorem Kept.ackNumber_le : ackNumber p hash n ≤ 3 := by
  rw [ackNumber]
  split_ifs
  · decide
  · exact succ_le_succ h.le_two

theorem Kept.verdict_iff (hne : hash ≠ "") (now : ℕ) :
    p.verdict hash now none = true ↔ ackNumber p hash n = 3 := by
  rw [verdict_none_iff, h.unconfirmed_counted hne]
  exact ⟨fun hle => le_antisymm h.ackNumber_le hle, fun he => he.ge⟩

theorem Kept.acknowledged (hne : hash ≠ "") (now : ℕ) :
    Kept hash (if ackNumber p hash n ≠ 3 then ackNumber p hash n else 0)
      (p.acknowledged hash now none).1 := by
  have hsending := sending_acknowledged_eq p hash now none
  rw [if_neg (fun h => (by cases h))] at hsending
  refine ⟨fun _ => ⟨(of_sending hsending).2.1, ?_⟩, fun hacked => ?_,
    unconfirmed_acknowledged_le _ _ _ _⟩
  · rw [unconfirmed_acknowledged]
    by_cases hthird : ackNumber p hash n = 3
    · rw [if_pos ((h.verdict_iff hne now).mpr hthird), if_neg (not_not.mpr hthird)]
    · rw [if_neg (fun hv => hthird ((h.verdict_iff hne now).mp hv)), if_pos hthird]
      exact h.unconfirmed_counted hne now
  · exact absurd (acked_acknowledged p hash now none) hacked

end

/-- The counter follows the acknowledgements of the document until a refusal or another document
resets it. -/
theorem Kept.next (h : Kept hash n s.pacer) (hne : hash ≠ "") (hu : e.reports hash = false) :
    Kept hash (keep hash n s e) (s.next e).pacer := by
  cases e with
  | refused other now =>
    exact ⟨fun hacked => ⟨(h.sent hacked).1, rfl⟩, fun _ => rfl, zero_le 2⟩
  | serverHolds held now =>
    have hsending := sending_serverHolds s.pacer held now
    have hacked := acked_serverHolds s.pacer held now
    have hother : held ≠ hash := of_decide_eq_false hu
    have hcount := unconfirmed_serverHolds s.pacer held now
    refine ⟨fun hsent => ?_, fun hunsent => ?_, ?_⟩
    · replace hsent := hacked.symm.trans hsent
      have hsame : ¬ (s.pacer.acked ≠ "" ∧ held = s.pacer.acked) :=
        fun hs => hother (hs.2.trans hsent)
      rw [if_neg hsame] at hsending hcount
      refine ⟨(of_sending hsending).2.1.trans (h.sent hsent).1, hcount.trans ?_⟩
      rw [(h.sent hsent).2, keep]
    · have hzero := h.unsent fun hs => hunsent (hacked.trans hs)
      rw [keep, hzero, ite_self]
    · refine hcount.trans_le ?_
      split_ifs
      · exact zero_le 2
      · exact zero_le 2
      · exact h.small
  | upload u =>
    obtain ⟨other, asked, now, outcome⟩ := u
    cases outcome with
    | acknowledged answer =>
      by_cases hother : other = hash
      · subst hother
        obtain rfl := eq_none_of_reports hu
        simp only [keep, true_and]
        exact h.acknowledged hne now
      · have hacked := acked_acknowledged s.pacer other now answer
        simp only [keep, hother, false_and, if_false]
        exact ⟨fun hs => absurd (hacked.symm.trans hs) hother, fun _ => rfl,
          unconfirmed_acknowledged_le _ _ _ _⟩
    | rejected => exact ⟨h.sent, h.unsent, h.small⟩
    | refused =>
      exact ⟨fun hacked => ⟨(h.sent hacked).1, rfl⟩, fun _ => rfl, zero_le 2⟩
  | _ => exact ⟨h.sent, h.unsent, h.small⟩

theorem kept_append (hash : String) (es : List Event) (e : Event) :
    kept hash (es ++ [e]) = keep hash (kept hash es) (run {} es) e := by
  rw [kept, Runs.trail_append, foldl_append]
  rfl

variable {es : List Event}

theorem kept_run (hne : hash ≠ "") (hu : Unreported hash es) :
    Kept hash (kept hash es) (run {} es).pacer := by
  induction es using List.reverseRecOn with
  | nil => exact ⟨fun h => absurd h.symm hne, fun _ => rfl, zero_le 2⟩
  | append_singleton es e ih =>
    obtain ⟨hes, he⟩ := forall_mem_append.mp hu
    rw [kept_append, run_concat]
    exact (ih hes).next hne (he e (mem_singleton.mpr rfl))

/-! ## The refusal of the document since its verdict -/

/-- The document refused last is the one that is not offered; where it is `hash`, the server
has reported nothing but what it reported first. -/
structure Barred (hash : String) (t : ℕ) (mid : List Event) (d : String) (p : Pacer) :
    Prop where
  same : d = hash → p.refusedHash = hash ∧ t + seconds (24 * 3600) ≤ p.refusedUntil ∧
    ∀ base, p.refusedServer = some base → ∃ now, Event.serverHolds base now ∈ mid
  other : d ≠ hash → p.refusedHash ≠ hash

variable {t : ℕ} {mid : List Event} {d : String}

theorem Barred.of_recorded {other : String} {base : Option String}
    (h : p.refusal = (other, now + seconds (24 * 3600), base)) (ht : t ≤ now)
    (hbase : other = hash → base = none) : Barred hash t mid other p := by
  obtain ⟨hhash, huntil, hserver⟩ := of_refusal h
  refine ⟨fun hd => ⟨hhash.trans hd, ?_, fun b hb => ?_⟩, fun hd => hhash ▸ hd⟩
  · rw [huntil]
    exact Nat.add_le_add_right ht _
  · exact absurd ((hserver.trans (hbase hd)).symm.trans hb) (Option.some_ne_none b).symm

theorem Barred.congr {q : Pacer} (h : Barred hash t mid d p) (hq : q.refusal = p.refusal)
    (e : Event) : Barred hash t (mid ++ [e]) d q := by
  obtain ⟨hhash, huntil, hserver⟩ := of_refusal hq
  refine ⟨fun hd => ?_, fun hd => hhash ▸ h.other hd⟩
  obtain ⟨hsame, hday, hbase⟩ := h.same hd
  refine ⟨hhash.trans hsame, huntil ▸ hday, fun base hb => ?_⟩
  obtain ⟨now, hmem⟩ := hbase base (hserver.symm.trans hb)
  exact ⟨now, mem_append_left [e] hmem⟩

theorem Barred.serverHolds (h : Barred hash t mid d p) (hne : hash ≠ "") (held : String)
    (hunchanged : Unchanged (mid ++ [.serverHolds held now])) :
    Barred hash t (mid ++ [.serverHolds held now]) d (p.serverHolds held now) := by
  have hmem : Event.serverHolds held now ∈ mid ++ [.serverHolds held now] :=
    mem_append_right mid (mem_singleton.mpr rfl)
  have hrefusal := refusal_serverHolds p held now
  refine ⟨fun hd => ?_, fun hd he => ?_⟩
  · obtain ⟨hsame, hday, hbase⟩ := h.same hd
    have hkept : ¬ p.Clears held := by
      rintro ⟨-, hsome, hchanged, -⟩
      obtain ⟨base, hb⟩ := Option.ne_none_iff_exists'.mp hsome
      obtain ⟨now', hmem'⟩ := hbase base hb
      refine hchanged (hb.trans (congrArg some ?_))
      exact hunchanged base now' held now (mem_append_left _ hmem') hmem
    rw [if_neg hkept, if_neg (fun h => hne (hsame.symm.trans h))] at hrefusal
    obtain ⟨hhash, huntil, hfirst⟩ := of_refusal hrefusal
    refine ⟨hhash.trans hsame, hday.trans_eq huntil.symm, fun base hb => ?_⟩
    replace hfirst := hfirst.symm.trans hb
    cases hserver : p.refusedServer with
    | none =>
      rw [hserver] at hfirst
      exact ⟨now, Option.some.inj hfirst ▸ hmem⟩
    | some first =>
      rw [hserver] at hfirst
      obtain ⟨now', hmem'⟩ := hbase first hserver
      exact ⟨now', Option.some.inj hfirst ▸ mem_append_left _ hmem'⟩
  · split_ifs at hrefusal
    · exact hne (he.symm.trans (congrArg fst hrefusal))
    all_goals exact h.other hd ((congrArg fst hrefusal).symm.trans he)

/-- Within the day nothing lifts the refusal but a report that differs from the first one. -/
theorem Barred.next (h : Barred hash t mid d s.pacer) (hne : hash ≠ "") (ht : t ≤ s.clock)
    (hok : s.allowed e = true) (hday : (s.next e).clock < t + seconds (24 * 3600))
    (hu : e.reports hash = false) (hunchanged : Unchanged (mid ++ [e])) :
    Barred hash t (mid ++ [e]) ((s.recorded e).getD d) (s.next e).pacer := by
  have hclock := ht.trans (clock_le_next hok)
  cases e with
  | refused other now => exact Barred.of_recorded rfl hclock fun _ => rfl
  | serverHolds held now => exact h.serverHolds hne held hunchanged
  | upload u =>
    have hdue := (upload_allowed hok).2.2
    have hasked := (upload_allowed hok).2.1
    obtain ⟨other, asked, now, outcome⟩ := u
    cases outcome with
    | acknowledged answer =>
      have hrefusal := refusal_acknowledged s.pacer other now answer
      simp only [recorded]
      split_ifs at hrefusal ⊢ with hverdict
      · refine Barred.of_recorded hrefusal hclock fun hother => ?_
        subst hother
        exact eq_none_of_reports hu
      · rw [refusal_release] at hrefusal
        split_ifs at hrefusal with hreleased
        · -- The document itself is not released before the day has passed.
          refine ⟨fun hd => ?_, fun _ he => hne (he.symm.trans (congrArg fst hrefusal))⟩
          have huntil := (h.same hd).2.1.trans (hdue.notRefused hreleased.2)
          exact absurd (huntil.trans hasked) (not_le.mpr hday)
        · exact h.congr hrefusal _
    | rejected =>
      apply h.congr
      rfl
    | refused => exact Barred.of_recorded rfl hclock fun _ => rfl
  | _ =>
    apply h.congr
    rfl

theorem lastRefused_append (hash : String) (s : Paced) (es : List Event) (e : Event) :
    lastRefused hash s (es ++ [e]) = ((s.run es).recorded e).getD (lastRefused hash s es) := by
  rw [lastRefused, Runs.trail_append, foldl_append]
  rfl

theorem clock_le_run (h : s.Legal es) : s.clock ≤ (s.run es).clock :=
  Runs.Guarded.invariant (I := fun x => s.clock ≤ x.clock) (p := fun _ => True)
    (fun _ _ _ hok hle => hle.trans (clock_le_next hok)) h (fun _ _ => trivial) le_rfl

theorem barred_run (h : s.Legal mid) (hne : hash ≠ "") (ht : t ≤ s.clock)
    (hday : (s.run mid).clock < t + seconds (24 * 3600)) (hu : Unreported hash mid)
    (hunchanged : Unchanged mid) (hs : Barred hash t [] hash s.pacer) :
    Barred hash t mid (lastRefused hash s mid) (s.run mid).pacer := by
  induction mid using List.reverseRecOn with
  | nil => exact hs
  | append_singleton mid e ih =>
    obtain ⟨hmid, hok, -⟩ := legal_append.mp h
    obtain ⟨humid, hue⟩ := forall_mem_append.mp hu
    rw [run_concat] at hday ⊢
    rw [lastRefused_append]
    have hunchanged' : Unchanged mid := fun held now held' now' hm hm' =>
      hunchanged held now held' now' (mem_append_left _ hm) (mem_append_left _ hm')
    have hbarred := ih hmid ((clock_le_next hok).trans_lt hday) humid hunchanged'
    exact hbarred.next hne (ht.trans (clock_le_run hmid)) hok hday
      (hue e (mem_singleton.mpr rfl)) hunchanged

/-! ## When the verdict is exact -/

/-- At each acknowledgement of the document the counter stands where the acknowledgements of
the document would have it; and since the verdict no other document was refused, or another
rule withholds the document. -/
structure Undisturbed (hash : String) (es : List Event) : Prop where
  third : ∀ pre u post, es = pre ++ .upload u :: post → u.hash = hash →
    u.outcome = .acknowledged none →
    (ackNumber (run {} pre).pacer hash (kept hash pre) = 3 ↔ tally hash (pre ++ [.upload u]) = 3)
  withheld : ∀ pre u mid post now, es = pre ++ .upload u :: mid ++ post → u.hash = hash →
    u.outcome = .acknowledged none → ackNumber (run {} pre).pacer hash (kept hash pre) = 3 →
    (run {} (pre ++ .upload u :: mid)).clock ≤ now → now < u.now + seconds (24 * 3600) →
    Unchanged mid → lastRefused hash ((run {} pre).next (.upload u)) mid = hash ∨
      (run {} (pre ++ .upload u :: mid)).pacer.withheld hash now = true

variable {pre post : List Event}

theorem verdict_run_iff (h : Legal {} es) (hu : Unreported hash es)
    (hes : es = pre ++ .upload u :: post) (hhash : u.hash = hash) :
    (run {} pre).pacer.verdict hash u.now none = true ↔
      ackNumber (run {} pre).pacer hash (kept hash pre) = 3 := by
  subst hes hhash
  have hne := (upload_allowed (legal_append.mp h).2.1).2.2.document
  exact (kept_run hne (forall_mem_append.mp hu).1).verdict_iff hne u.now

/-- Within a day of the verdict the document is offered once another one was refused and no
other rule withholds it. -/
theorem shouldUpload_run_iff (h : Legal {} es) (hu : Unreported hash es)
    (hes : es = pre ++ .upload u :: mid ++ post) (hhash : u.hash = hash)
    (houtcome : u.outcome = .acknowledged none)
    (hverdict : (run {} pre).pacer.verdict hash u.now none = true)
    (hclock : (run {} (pre ++ .upload u :: mid)).clock ≤ now)
    (hday : now < u.now + seconds (24 * 3600)) (hunchanged : Unchanged mid) :
    (run {} (pre ++ .upload u :: mid)).pacer.shouldUpload hash now = false ↔
      lastRefused hash ((run {} pre).next (.upload u)) mid = hash ∨
        (run {} (pre ++ .upload u :: mid)).pacer.withheld hash now = true := by
  subst hes hhash
  obtain ⟨hpre, hok, hmid⟩ := legal_append.mp (legal_append.mp h).1
  have humid : Unreported u.hash mid := fun e he => hu e (by simp [he])
  have hne := (upload_allowed hok).2.2.document
  have hrun : run {} (pre ++ .upload u :: mid) = ((run {} pre).next (.upload u)).run mid := by
    rw [run, foldl_append]
    rfl
  have hstart : Barred u.hash u.now [] u.hash ((run {} pre).next (.upload u)).pacer := by
    have hrefusal : ((run {} pre).pacer.acknowledged u.hash u.now none).1.refusal =
        (u.hash, u.now + seconds (24 * 3600), none) := by
      rw [refusal_acknowledged, if_pos hverdict]
    rw [next_acknowledged houtcome]
    exact Barred.of_recorded hrefusal le_rfl fun _ => rfl
  rw [hrun] at hclock ⊢
  have hbarred := barred_run hmid hne le_rfl (hclock.trans_lt hday) humid hunchanged hstart
  rw [shouldUpload_eq_false_iff]
  refine or_congr_left ⟨fun hrefused => ?_, fun hlast => ?_⟩
  · by_contra hlast
    exact hbarred.other hlast hrefused.1.symm
  · obtain ⟨hrefused, huntil, -⟩ := hbarred.same hlast
    exact ⟨hrefused.symm, hday.trans_le huntil⟩

/-- The verdict is exact in the runs whose refusals leave the counter of the document and its
own refusal alone, and in no others. -/
theorem verdictExact_iff (hash : String) (es : List Event) (h : Legal {} es)
    (hu : Unreported hash es) : VerdictExact hash es ↔ Undisturbed hash es := by
  constructor
  · intro hexact
    refine ⟨fun pre u post hes hhash houtcome => ?_, ?_⟩
    · rw [← verdict_run_iff h hu hes hhash]
      exact hexact.third pre u post hes hhash houtcome
    · intro pre u mid post now hes hhash houtcome hthird hclock hday hunchanged
      have hverdict := (verdict_run_iff h hu (hes.trans (append_assoc _ _ _)) hhash).mpr hthird
      rw [← shouldUpload_run_iff h hu hes hhash houtcome hverdict hclock hday hunchanged]
      exact hexact.withheld pre u mid post now hes hhash houtcome hverdict hclock hday hunchanged
  · intro hcalm
    refine ⟨fun pre u post hes hhash houtcome => ?_, ?_⟩
    · rw [verdict_run_iff h hu hes hhash]
      exact hcalm.third pre u post hes hhash houtcome
    · intro pre u mid post now hes hhash houtcome hverdict hclock hday hunchanged
      have hthird := (verdict_run_iff h hu (hes.trans (append_assoc _ _ _)) hhash).mp hverdict
      rw [shouldUpload_run_iff h hu hes hhash houtcome hverdict hclock hday hunchanged]
      exact hcalm.withheld pre u mid post now hes hhash houtcome hthird hclock hday hunchanged

def thrice : List Event :=
  [.serverHolds "old" 0, .upload ⟨"doc", 1, 1, .acknowledged none⟩, .serverHolds "old" 2,
    .upload ⟨"doc", seconds 61, seconds 61, .acknowledged none⟩, .serverHolds "old" (seconds 62),
    .upload ⟨"doc", seconds 181, seconds 181, .acknowledged none⟩]

theorem undisturbed_thrice : Undisturbed "doc" thrice := by
  have hsplit : ∀ pre u post, thrice = pre ++ .upload u :: post →
      pre = thrice.take pre.length ∧ thrice[pre.length]? = some (.upload u) := by
    intro pre u post h
    constructor
    · rw [h, take_left']
      rfl
    · rw [h, getElem?_append_right le_rfl, Nat.sub_self]
      rfl
  have hthird : ∀ i < 6, ∀ u, thrice[i]? = some (.upload u) →
      (ackNumber (run {} (thrice.take i)).pacer "doc" (kept "doc" (thrice.take i)) = 3 ↔
          tally "doc" (thrice.take i ++ [.upload u]) = 3) ∧
        (ackNumber (run {} (thrice.take i)).pacer "doc" (kept "doc" (thrice.take i)) = 3 →
          i = 5 ∧ lastRefused "doc" ((run {} (thrice.take i)).next (.upload u)) [] = "doc") := by
    intro i hi u hu
    interval_cases i
    all_goals first | (cases hu; done) | (cases hu; decide)
  have hlength : ∀ pre u post, thrice = pre ++ .upload u :: post → pre.length < 6 := by
    intro pre u post h
    have hlen : 6 = (pre ++ .upload u :: post).length := congrArg length h
    rw [length_append, length_cons] at hlen
    omega
  constructor
  · intro pre u post hes _ _
    obtain ⟨hpre, hu⟩ := hsplit pre u post hes
    rw [hpre]
    exact (hthird _ (hlength pre u post hes) u hu).1
  · intro pre u mid post now hes _ _ hverdict _ _ _
    rw [append_assoc, cons_append] at hes
    obtain ⟨hpre, hu⟩ := hsplit pre u (mid ++ post) hes
    rw [hpre] at hverdict
    obtain ⟨hi, hrefused⟩ := (hthird _ (hlength pre u _ hes) u hu).2 hverdict
    have hnil : mid ++ post = [] := by
      have hlen : 6 = (pre ++ .upload u :: (mid ++ post)).length := congrArg length hes
      rw [length_append, length_cons, hi] at hlen
      exact length_eq_zero_iff.mp (by omega)
    rw [(append_eq_nil_iff.mp hnil).1, hpre]
    exact .inl hrefused

theorem verdictExact_iff_thrice :
    Legal {} thrice ∧ Unreported "doc" thrice ∧ VerdictExact "doc" thrice :=
  ⟨by decide, by decide,
    (verdictExact_iff "doc" thrice (by decide) (by decide)).mpr undisturbed_thrice⟩

/-- Another document is refused as too large, and the server's answers change while the
document is being counted, which releases the other one. -/
def otherReleased : List Event :=
  [.serverHolds "old" 0, .upload ⟨"large", 1, 1, .refused⟩, .serverHolds "old" 2,
    .upload ⟨"doc", 3, 3, .acknowledged none⟩, .serverHolds "old" 4,
    .upload ⟨"doc", seconds 61, seconds 61, .acknowledged none⟩, .serverHolds "older" (seconds 62)]

theorem third_acknowledgement_otherReleased :
    Legal {} (otherReleased ++ [.upload ⟨"doc", seconds 181, seconds 181, .acknowledged none⟩]) ∧
      Unreported "doc" (otherReleased ++
        [.upload ⟨"doc", seconds 181, seconds 181, .acknowledged none⟩]) ∧
      tally "doc" (otherReleased ++
        [.upload ⟨"doc", seconds 181, seconds 181, .acknowledged none⟩]) = 3 ∧
      (run {} otherReleased).pacer.verdict "doc" (seconds 181) none = false := by
  decide

end Paced

end Nscp.Onboarding
