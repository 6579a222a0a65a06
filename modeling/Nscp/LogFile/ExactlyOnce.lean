import Nscp.LogFile.CheckLogFile

/-!
# Every record exactly once

A bookmark of a file that only grows stands at the end of one of its records, and its fingerprint
is that of the file.  So a read from it hands out the records that follow; over a run they are the
records of the file, each once, exactly when every read finds the bookmark where the last record
that was handed out ended.
-/

namespace Nscp.LogFile

open OrderedMap State Option Prod List Delimited

/-! ## Positions of a growing file -/

structure Fits (hash : List Char → ℕ) (delim content : List Char) (pos : Position) : Prop where
  boundary : ∃ rs, rs <+: records delim 0 content ∧ endOf delim 0 rs = pos.offset
  len_le : pos.fingerprintLen ≤ content.length
  len_max : pos.fingerprintLen ≤ maxFingerprintLen
  fingerprint : pos.fingerprint = hash (content.take pos.fingerprintLen)

section Hash

variable {hash : List Char → ℕ} {delim content growth measured key content' : List Char}
  {prev : Position}

variable {pos next : Position}

theorem Fits.mono (hd : delim ≠ []) (h : Fits hash delim content pos) (hc : content <+: content') :
    Fits hash delim content' pos := by
  obtain ⟨rs, hrs, hend⟩ := h.boundary
  refine ⟨⟨rs, hrs.trans (records_mono hd 0 hc), hend⟩, h.len_le.trans hc.length_le, h.len_max, ?_⟩
  obtain ⟨rest, rfl⟩ := hc
  rw [h.fingerprint, take_append_of_le_length h.len_le]

theorem Fits.offset_le (hd : delim ≠ []) (h : Fits hash delim content pos) :
    pos.offset ≤ content.length := by
  obtain ⟨rs, ⟨ts, hts⟩, hend⟩ := h.boundary
  obtain ⟨-, hle, -⟩ := records_resume hd hts.symm
  omega

theorem Fits.headFingerprint (h : Fits hash delim content prev) :
    prev.fingerprintLen ≤ (readHead prev content).length ∧
      headFingerprint hash prev content = prev.fingerprint := by
  have hlen : prev.fingerprintLen ≤ (readHead prev content).length := by
    have hle := h.len_le
    have hmax := h.len_max
    rw [readHead, length_take]
    omega
  refine ⟨hlen, ?_⟩
  have hmin : min prev.fingerprintLen
      (min (max content.length prev.fingerprintLen) maxFingerprintLen) = prev.fingerprintLen := by
    have hle := h.len_le
    have hmax := h.len_max
    omega
  rw [LogFile.headFingerprint, if_pos hlen, h.fingerprint, readHead, take_take, hmin]

theorem resumeDecision_offset (hd : delim ≠ [])
    (h : prev.valid = true → Fits hash delim content prev) :
    (resumeDecision hash prev content).offset = prev.resumeOffset ∧
      ((resumeDecision hash prev content).skip = true → content.length = prev.resumeOffset) := by
  rw [resumeDecision, computeResume, Position.resumeOffset]
  cases hvalid : prev.valid with
  | false =>
    simp only [Bool.not_false, Bool.false_eq_true, if_false, if_true]
    split_ifs with hzero
    · exact ⟨rfl, fun _ => hzero⟩
    · exact ⟨rfl, (nomatch ·)⟩
  | true =>
    have hfits := h hvalid
    obtain ⟨hlen, hfingerprint⟩ := hfits.headFingerprint
    have hle := hfits.offset_le hd
    have hrotated : rotated prev content.length (headFingerprint hash prev content)
        (decide (prev.fingerprintLen ≤ (readHead prev content).length)) = false := by
      rw [rotated, hfingerprint, decide_eq_true hlen]
      simp only [Bool.not_true, ne_eq, not_true_eq_false, decide_false, Bool.or_false,
        Bool.and_false, decide_eq_false_iff_not]
      omega
    rw [hrotated]
    simp only [Bool.not_true, Bool.false_eq_true, if_false, if_true]
    split_ifs with hzero hsize
    · refine ⟨?_, fun _ => ?_⟩
      · dsimp only
        omega
      · omega
    · exact ⟨rfl, fun _ => hsize⟩
    · exact ⟨rfl, (nomatch ·)⟩

/-! ## One read -/

/-- A read hands out records that follow the position it found: all of them if it reaches the end,
and at least one if it does not. -/
structure Read.Proper (delim : List Char) (r : Read) : Prop where
  split : ∃ rs ts, Delimited.records delim 0 r.content = rs ++ ts ∧
    endOf delim 0 rs = r.found.resumeOffset ∧ r.records <+: ts ∧
    (r.exhausted = true → r.records = ts)
  progress : r.exhausted = false → r.records ≠ []

theorem readRecords_spec (hd : delim ≠ []) {maxBytes offset : ℕ} {rs : List (ℕ × List Char)}
    {exhausted : Bool} (h : readRecords delim maxBytes offset content = some (rs, exhausted)) :
    rs <+: records delim offset (content.drop offset) ∧
      (exhausted = true → rs = records delim offset (content.drop offset)) ∧
      (exhausted = false → rs ≠ []) := by
  rw [readRecords] at h
  split_ifs at h with hlimit hkeep
  · cases h
    rw [completeRecordEnd] at hkeep ⊢
    cases hlast : rfind delim ((content.drop offset).take (sizeLimit maxBytes)) with
    | none =>
      rw [hlast] at hkeep
      exact absurd rfl hkeep
    | some last =>
      have hend := endOf_records_le hd (n := offset) hlast
      dsimp only
      rw [records_take hd hend]
      refine ⟨records_mono hd offset (List.take_prefix _ _), (nomatch ·), fun _ hnil => ?_⟩
      rw [(rfind_eq_none_iff hd offset _).mpr hnil] at hlast
      cases hlast
  · cases h
    exact ⟨prefix_rfl, fun _ => rfl, (nomatch ·)⟩

theorem fits_nextPosition {offset : ℕ}
    (hb : ∃ rs, rs <+: records delim 0 content ∧ endOf delim 0 rs = offset)
    (hm : measured <+: content) :
    Fits hash delim content (nextPosition hash prev measured offset) := by
  have hlen : (readHead prev measured).length ≤ measured.length := by
    rw [readHead, length_take]
    exact Nat.min_le_right _ _
  refine ⟨hb, hlen.trans hm.length_le, ?_, ?_⟩
  · rw [nextPosition, readHead, length_take]
    dsimp only
    omega
  · obtain ⟨rest, rfl⟩ := hm
    rw [nextPosition]
    dsimp only
    rw [take_append_of_le_length hlen, readHead, length_take, take_eq_take_iff.mpr]
    omega

/-- One read hands out what follows a position of the file, and leaves a position of the grown
file. -/
theorem readFile_spec (hd : delim ≠ []) {maxBytes : ℕ} {r : Read}
    (hfits : prev.valid = true → Fits hash delim content prev)
    (h : readFile hash delim maxBytes key prev content growth = some (r, next)) :
    r.Proper delim ∧ content <+: r.content ∧
      r.content <+: content ++ growth ∧ Fits hash delim (content ++ growth) next := by
  obtain ⟨hoffset, hskip⟩ := resumeDecision_offset hd hfits
  have hb : ∃ rs, rs <+: records delim 0 content ∧ endOf delim 0 rs = prev.resumeOffset := by
    cases hvalid : prev.valid with
    | true =>
      rw [Position.resumeOffset, if_pos hvalid]
      exact (hfits hvalid).boundary
    | false =>
      rw [Position.resumeOffset, hvalid]
      exact ⟨[], nil_prefix, rfl⟩
  rw [readFile, hoffset] at h
  split_ifs at h with hs
  · cases h
    obtain ⟨rs, ⟨ts, hts⟩, hend⟩ := hb
    refine ⟨⟨⟨rs, ts, hts.symm, hend, nil_prefix, fun _ => ?_⟩, (nomatch ·)⟩,
      prefix_rfl, prefix_append _ _, ?_⟩
    · -- the file ends where its position stands, so nothing follows
      obtain ⟨-, -, hrest⟩ := records_resume hd hts.symm
      rw [hrest, hend, Nat.sub_zero, ← hskip hs, drop_length]
      rfl
    · exact (fits_nextPosition ⟨rs, ⟨ts, hts⟩, hend⟩ prefix_rfl).mono hd
        (prefix_append _ _)
  · split at h
    · cases h
    · next rs exhausted hread =>
        cases h
        obtain ⟨hfirst, hall, hsome⟩ := readRecords_spec hd hread
        obtain ⟨front, hfront, hend⟩ := hb
        obtain ⟨ts, hts⟩ := hfront.trans (records_prefix_append hd 0 content growth)
        obtain ⟨-, -, hrest⟩ := records_resume hd hts.symm
        rw [hend, Nat.sub_zero] at hrest
        refine ⟨⟨⟨front, ts, hts.symm, hend, hrest ▸ hfirst, fun hex => ?_⟩, hsome⟩,
          prefix_append _ _, prefix_rfl, ?_⟩
        · exact (hall hex).trans hrest.symm
        · apply fits_nextPosition _ (prefix_append _ _)
          refine ⟨front ++ rs, ?_, ?_⟩
          · rw [← hts]
            exact (prefix_append_right_inj front).mpr (hrest ▸ hfirst)
          · rw [endOf_append, hend]

end Hash

/-! ## Reads one after another -/

/-- After each read, what has been handed out are the first records of the file, and all of them if
the read reached the end. -/
def ExactlyOnce (delim : List Char) (reads : List Read) : Prop :=
  ∀ before r after, reads = before ++ r :: after →
    offered (before ++ [r]) <+: records delim 0 r.content ∧
      (r.exhausted = true → offered (before ++ [r]) = records delim 0 r.content)

/-- Each read finds the bookmark where the last record that was handed out ended. -/
def Resumes (delim : List Char) (reads : List Read) : Prop :=
  ∀ before r after, reads = before ++ r :: after →
    r.found.resumeOffset = endOf delim 0 (offered before)

theorem offered_append_singleton (reads : List Read) (r : Read) :
    offered (reads ++ [r]) = offered reads ++ r.records := by
  rw [offered, flatMap_append, flatMap_singleton, offered]

section Reads

variable {delim : List Char} {r : Read} {old : List (ℕ × List Char)}

theorem Read.Proper.resumeOffset_eq (hd : delim ≠ []) (h : r.Proper delim)
    (hfirst : old ++ r.records <+: Delimited.records delim 0 r.content)
    (hall : r.exhausted = true → old ++ r.records = Delimited.records delim 0 r.content) :
    r.found.resumeOffset = endOf delim 0 old := by
  obtain ⟨rs, ts, hsplit, hend, hnext, hrest⟩ := h.split
  rw [← hend]
  cases hrecords : r.records with
  | nil =>
    -- nothing is left, so both lists are all of the records
    have hex : r.exhausted = true := by
      by_contra hex
      exact h.progress (Bool.not_eq_true _ ▸ hex) hrecords
    have hold := hall hex
    rw [hsplit, ← hrest hex, hrecords, append_nil, append_nil] at hold
    rw [hold]
  | cons x xs =>
    rw [hrecords] at hnext hfirst
    -- the first record handed out follows both lists, and starts where each of them ends
    obtain ⟨us, hus⟩ := hnext
    obtain ⟨-, -, hresume⟩ := records_resume hd hsplit
    have hfound := fst_of_records_eq_cons hd (hresume.symm.trans hus.symm)
    obtain ⟨vs, hvs⟩ := hfirst
    rw [append_assoc] at hvs
    obtain ⟨-, -, hold⟩ := records_resume hd hvs.symm
    have hstart := fst_of_records_eq_cons hd hold.symm
    exact hfound.symm.trans hstart

theorem Read.Proper.prefix_of_resumeOffset_eq (hd : delim ≠ []) (h : r.Proper delim)
    (hold : old <+: Delimited.records delim 0 r.content)
    (hresume : r.found.resumeOffset = endOf delim 0 old) :
    old ++ r.records <+: Delimited.records delim 0 r.content ∧
      (r.exhausted = true → old ++ r.records = Delimited.records delim 0 r.content) := by
  obtain ⟨rs, ts, hsplit, hend, hnext, hrest⟩ := h.split
  have hrs : rs <+: Delimited.records delim 0 r.content := ⟨ts, hsplit.symm⟩
  obtain rfl := eq_of_endOf_eq hd hrs hold (hend.trans hresume)
  rw [hsplit]
  refine ⟨(prefix_append_right_inj rs).mpr hnext, fun hex => ?_⟩
  rw [hrest hex]

theorem exactlyOnce_iff_resumes (hd : delim ≠ []) {reads : List Read}
    (hproper : ∀ r ∈ reads, r.Proper delim)
    (hgrows : reads.Pairwise fun r r' => r.content <+: r'.content) :
    ExactlyOnce delim reads ↔ Resumes delim reads := by
  constructor
  · intro h before r after hreads
    have hr := hproper r (hreads ▸ mem_append_right before mem_cons_self)
    obtain ⟨hfirst, hall⟩ := h before r after hreads
    rw [offered_append_singleton] at hfirst hall
    exact hr.resumeOffset_eq hd hfirst hall
  · intro h before
    induction before using List.reverseRecOn with
    | nil =>
      intro r after hreads
      have hr := hproper r (hreads ▸ mem_append_right [] mem_cons_self)
      rw [offered_append_singleton]
      exact hr.prefix_of_resumeOffset_eq hd nil_prefix (h [] r after hreads)
    | append_singleton before last ih =>
      intro r after hreads
      have hr := hproper r (hreads ▸ mem_append_right _ mem_cons_self)
      have hlast : reads = before ++ last :: r :: after := by
        rw [hreads, append_assoc, singleton_append]
      have hcontent : last.content <+: r.content := by
        rw [hlast] at hgrows
        have htail := (pairwise_append.mp hgrows).2.1
        exact rel_of_pairwise_cons htail mem_cons_self
      have hold := (ih last (r :: after) hlast).1.trans (records_mono hd 0 hcontent)
      rw [offered_append_singleton]
      exact hr.prefix_of_resumeOffset_eq hd hold (h _ r after hreads)

end Reads

/-! ## The reads of a run -/

/-- The reads of a bookmark between two states of its file. -/
structure Spans (delim key : List Char) (content content' : List Char) (reads : List Read) :
    Prop where
  grows : content <+: content'
  proper : ∀ r ∈ readsOf key reads, r.Proper delim ∧ content <+: r.content ∧ r.content <+: content'
  ordered : (readsOf key reads).Pairwise fun r r' => r.content <+: r'.content

section Spans

variable {delim key content content' content'' : List Char} {reads reads' : List Read}

theorem Spans.nil (h : content <+: content') : Spans delim key content content' [] :=
  ⟨h, fun _ hr => (nomatch hr), List.Pairwise.nil⟩

theorem Spans.append (h : Spans delim key content content' reads)
    (h' : Spans delim key content' content'' reads') :
    Spans delim key content content'' (reads ++ reads') := by
  have hsplit : readsOf key (reads ++ reads') = readsOf key reads ++ readsOf key reads' :=
    filter_append reads reads'
  refine ⟨h.grows.trans h'.grows, ?_, ?_⟩
  · intro r hr
    rw [hsplit] at hr
    rcases mem_append.mp hr with hr | hr
    · obtain ⟨hproper, hlow, hhigh⟩ := h.proper r hr
      exact ⟨hproper, hlow, hhigh.trans h'.grows⟩
    · obtain ⟨hproper, hlow, hhigh⟩ := h'.proper r hr
      exact ⟨hproper, h.grows.trans hlow, hhigh⟩
  · rw [hsplit, pairwise_append]
    refine ⟨h.ordered, h'.ordered, fun r hr r' hr' => ?_⟩
    exact (h.proper r hr).2.2.trans (h'.proper r' hr').2.1

end Spans

open Spans

/-- The bookmark is used for one file and with one delimiter. -/
def Check.Tracks (key path delim : List Char) (c : Check) : Prop :=
  ∀ f ∈ c.files, f.key = key → f.path = path ∧ c.lineSplit = delim

def Action.Tracks (key path delim : List Char) : Action → Prop
  | .check c => c.Tracks key path delim
  | _ => True

/-- Every position under the key, live or stored, is one of the file. -/
structure Tracked (hash : List Char → ℕ) (delim key path : List Char) (s : State) : Prop where
  live : ∀ v, s.live.value key = some v → (parse v).valid = true →
    Fits hash delim (s.files path) (parse v)
  persisted : ∀ v, (key, v) ∈ s.persisted → (parse v).valid = true →
    Fits hash delim (s.files path) (parse v)

section Runs

variable {hash : List Char → ℕ} {delim key path : List Char} {s : State}

theorem State.files_append (s : State) (p bytes path : List Char) :
    s.files path <+: (s.append p bytes).files path := by
  by_cases hp : path = p
  · subst hp
    simp only [append, Function.update_self]
    exact prefix_append _ _
  · simp only [append, Function.update_of_ne hp]
    exact prefix_rfl

theorem Tracked.append (hd : delim ≠ []) (h : Tracked hash delim key path s)
    (p bytes : List Char) : Tracked hash delim key path (s.append p bytes) := by
  have hgrows := s.files_append p bytes path
  exact ⟨fun v hv hvalid => (h.live v hv hvalid).mono hd hgrows,
    fun v hv hvalid => (h.persisted v hv hvalid).mono hd hgrows⟩

section

variable (h : Tracked hash delim key path s)
include h

theorem Tracked.touch (k : List Char) : Tracked hash delim key path (s.touch k) := by
  refine ⟨fun v hv => h.live v ?_, h.persisted⟩
  rw [State.touch] at hv
  exact (s.live.value_touch k key).symm.trans hv

theorem Tracked.put {k v : List Char}
    (hv : k = key → (parse v).valid = true → Fits hash delim (s.files path) (parse v)) :
    Tracked hash delim key path (s.put k v) := by
  refine ⟨fun w hw hvalid => ?_, h.persisted⟩
  rcases Store.value_put hw with ⟨hk, rfl⟩ | hold
  · exact hv hk.symm hvalid
  · exact h.live w hold hvalid

theorem Tracked.position (hvalid : (s.position key).valid = true) :
    Fits hash delim (s.files path) (s.position key) := by
  rw [State.position] at hvalid ⊢
  cases hv : s.live.value key with
  | none =>
    rw [hv] at hvalid
    exact absurd hvalid (by decide)
  | some v =>
    rw [hv] at hvalid
    exact h.live v hv hvalid

end

variable {maxBytes : ℕ} {content growth : List Char} {r : Read} {split : List Char}
  {prev next : Position}

theorem readFile_key (h : readFile hash delim maxBytes key prev content growth = some (r, next)) :
    r.key = key ∧ next.valid = true := by
  rw [readFile] at h
  split_ifs at h
  · cases h
    exact ⟨rfl, rfl⟩
  · split at h <;> cases h
    exact ⟨rfl, rfl⟩

theorem spans_readFile (hd : delim ≠ []) (h : Tracked hash delim key path s) {f : FileArg}
    (hf : f.key = key → f.path = path ∧ split = delim)
    (hread : readFile hash split maxBytes f.key (s.position f.key) (s.files f.path) f.growth =
      some (r, next)) :
    Spans delim key (s.files path) (((s.touch f.key).append f.path f.growth).files path) [r] ∧
      (f.key = key →
        Fits hash delim (((s.touch f.key).append f.path f.growth).files path) next) := by
  have hgrows := (s.touch f.key).files_append f.path f.growth path
  by_cases hkey : f.key = key
  · obtain ⟨hpath, rfl⟩ := hf hkey
    have hfits : (s.position f.key).valid = true →
        Fits hash split (s.files f.path) (s.position f.key) := by
      rw [hkey, hpath]
      exact h.position
    obtain ⟨hproper, hlow, hhigh, hnext⟩ := readFile_spec hd hfits hread
    have hfile : ((s.touch f.key).append f.path f.growth).files path =
        s.files f.path ++ f.growth := by
      rw [hpath]
      simp [State.append, State.touch]
    rw [hfile, ← hpath]
    refine ⟨⟨prefix_append _ _, ?_, ?_⟩, fun _ => hnext⟩
    · intro r' hr'
      obtain rfl := mem_singleton.mp (mem_of_mem_filter hr')
      exact ⟨hproper, hlow, hhigh⟩
    · exact List.Pairwise.sublist filter_sublist (pairwise_singleton _ r)
  · have hnone : readsOf key [r] = [] := by
      rw [readsOf, filter_cons_of_neg, filter_nil]
      rw [(readFile_key hread).1, decide_eq_true_eq]
      exact hkey
    refine ⟨⟨hgrows, ?_, ?_⟩, fun h => absurd h hkey⟩
    · rw [hnone]
      exact fun _ hr => nomatch hr
    · rw [hnone]
      exact List.Pairwise.nil

variable {fs : List FileArg} {a : Action}

/-- By induction over the files of a check; those under another key do not touch the bookmark.
-/
theorem checkFiles_spec (hd : delim ≠ [])
    (hfs : ∀ f ∈ fs, f.key = key → f.path = path ∧ split = delim)
    (h : Tracked hash delim key path s) {s' : State} {reads : List Read}
    {pending : Option (List (List Char × Position))}
    (hrun : checkFiles hash split maxBytes fs s = (s', reads, pending)) :
    Spans delim key (s.files path) (s'.files path) reads ∧ Tracked hash delim key path s' ∧
      ∀ ps, pending = some ps → ∀ p ∈ ps, p.2.valid = true ∧
        (p.1 = key → Fits hash delim (s'.files path) p.2) := by
  induction fs generalizing s reads pending with
  | nil =>
    cases hrun
    refine ⟨nil prefix_rfl, h, fun ps hps p hp => ?_⟩
    cases hps
    cases hp
  | cons f fs ih =>
    obtain ⟨hf, hfs⟩ := forall_mem_cons.mp hfs
    rw [checkFiles] at hrun
    split_ifs at hrun
    · cases hrun
      exact ⟨nil prefix_rfl, h, fun _ hps => (nomatch hps)⟩
    · cases hrun
      exact ⟨nil prefix_rfl, h.touch f.key, fun _ hps => (nomatch hps)⟩
    · have htracked := (h.touch f.key).append hd f.path f.growth
      split at hrun
      · cases hrun
        exact ⟨nil ((s.touch f.key).files_append f.path f.growth path), htracked,
          fun _ hps => (nomatch hps)⟩
      · next read next hread =>
          obtain ⟨hspans, hnext⟩ := spans_readFile hd h hf hread
          cases hrec : checkFiles hash split maxBytes fs
              ((s.touch f.key).append f.path f.growth) with
          | mk s'' rest =>
            obtain ⟨reads', pending'⟩ := rest
            rw [hrec] at hrun
            cases hrun
            obtain ⟨hspans', htracked', hpending⟩ := ih hfs htracked hrec
            refine ⟨hspans.append hspans', htracked', fun ps hps p hp => ?_⟩
            obtain ⟨ps', hps', rfl⟩ := map_eq_some_iff.mp hps
            rcases mem_cons.mp hp with rfl | hp
            · exact ⟨(readFile_key hread).2, fun hk => (hnext hk).mono hd hspans'.grows⟩
            · exact hpending ps' hps' p hp

section

variable (h : Tracked hash delim key path s)
include h

theorem Tracked.storePending {pending : List (List Char × Position)}
    (hp : ∀ p ∈ pending, p.2.valid = true ∧ (p.1 = key → Fits hash delim (s.files path) p.2)) :
    Tracked hash delim key path (storePending s pending) ∧
      (LogFile.storePending s pending).files = s.files := by
  induction pending generalizing s with
  | nil => exact ⟨h, rfl⟩
  | cons p pending ih =>
    obtain ⟨⟨hvalid, hfits⟩, hrest⟩ := forall_mem_cons.mp hp
    have hput : Tracked hash delim key path (s.put p.1 (format p.2)) := by
      apply h.put
      intro hk _
      rw [parse_format p.2 hvalid]
      exact hfits hk
    exact ih hput hrest

theorem tracked_unloadModule : Tracked hash delim key path (unloadModule s) := by
  refine ⟨fun v hv => (nomatch hv), fun v hv hvalid => ?_⟩
  have hblank : ∀ (keys : List (List Char)) (m : List (List Char × List Char)),
      (key, v) ∈ keys.foldl (fun m key => insert key [] m) m → (key, v) ∈ m := by
    intro keys
    induction keys with
    | nil => exact fun m hm => hm
    | cons k keys ih =>
      intro m hm
      rcases mem_insert (ih _ hm) with heq | hold
      · obtain ⟨-, rfl⟩ := mk.inj heq
        exact absurd hvalid (by decide)
      · exact hold
  have hlive : ∀ (entries : List (Sigma fun _ : List Char => Entry))
      (m : List (List Char × List Char)),
      (key, v) ∈ entries.foldl (fun m e => insert e.1 e.2.value m) m →
        (∃ e ∈ entries, e.1 = key ∧ e.2.value = v) ∨ (key, v) ∈ m := by
    intro entries
    induction entries with
    | nil => exact fun m hm => .inr hm
    | cons e entries ih =>
      intro m hm
      rcases ih _ hm with ⟨e', he', heq⟩ | hold
      · exact .inl ⟨e', mem_cons_of_mem e he', heq⟩
      · rcases mem_insert hold with heq | hold
        · obtain ⟨hk, hval⟩ := mk.inj heq
          exact .inl ⟨e, mem_cons_self, hk.symm, hval.symm⟩
        · exact .inr hold
  rcases hlive _ _ (hblank _ _ hv) with ⟨e, he, rfl, rfl⟩ | hold
  · apply h.live _ _ hvalid
    exact map_eq_some_iff.mpr ⟨e.2, Table.mem_entries_lookup.mp he, rfl⟩
  · exact h.persisted v hold hvalid

theorem tracked_loadModule :
    Tracked hash delim key path (loadModule s) ∧ (loadModule s).files = s.files := by
  have hload : ∀ (entries : List (List Char × List Char)) (s : State),
      (∀ e ∈ entries, e.1 = key → (parse e.2).valid = true →
        Fits hash delim (s.files path) (parse e.2)) → Tracked hash delim key path s →
      Tracked hash delim key path (entries.foldl (fun s e =>
        { s.put e.1 e.2 with persistedKeys := e.1 :: s.persistedKeys }) s) ∧
      (entries.foldl (fun (s : State) e =>
        { s.put e.1 e.2 with persistedKeys := e.1 :: s.persistedKeys }) s).files = s.files := by
    intro entries
    induction entries with
    | nil => exact fun s _ hs => ⟨hs, rfl⟩
    | cons e entries ih =>
      intro s he hs
      obtain ⟨hfirst, hrest⟩ := forall_mem_cons.mp he
      have hput := hs.put hfirst
      exact ih _ hrest ⟨hput.live, hput.persisted⟩
  apply hload _ s _ h
  rintro ⟨k, v⟩ he rfl hvalid
  exact h.persisted v (mem_of_mem_filter he) hvalid

end

theorem step_spec (hd : delim ≠ []) (h : Tracked hash delim key path s)
    (ha : a.Tracks key path delim) :
    Spans delim key (s.files path) ((step hash s a).1.files path) (step hash s a).2 ∧
      Tracked hash delim key path (step hash s a).1 := by
  cases a with
  | append p bytes => exact ⟨nil (s.files_append p bytes path), h.append hd p bytes⟩
  | unload => exact ⟨nil prefix_rfl, tracked_unloadModule h⟩
  | load =>
    obtain ⟨htracked, hfiles⟩ := tracked_loadModule h
    refine ⟨nil ?_, htracked⟩
    rw [step, hfiles]
  | check c =>
    rw [step, check]
    split_ifs
    · exact ⟨nil prefix_rfl, h⟩
    · cases hrun : checkFiles hash c.lineSplit c.maxBytes c.files s with
      | mk s' rest =>
        obtain ⟨reads, pending⟩ := rest
        obtain ⟨hspans, htracked, hpending⟩ := checkFiles_spec hd ha h hrun
        cases pending with
        | none => exact ⟨hspans, htracked⟩
        | some ps =>
          obtain ⟨hstored, hfiles⟩ := htracked.storePending (hpending ps rfl)
          refine ⟨?_, hstored⟩
          dsimp only
          rw [hfiles]
          exact hspans

variable {actions : List Action}

theorem run_spec (hd : delim ≠ []) (h : Tracked hash delim key path s)
    (ha : ∀ a ∈ actions, a.Tracks key path delim) :
    Spans delim key (s.files path) ((run hash s actions).1.files path) (run hash s actions).2 := by
  induction actions generalizing s with
  | nil => exact nil prefix_rfl
  | cons a actions ih =>
    obtain ⟨hfirst, hrest⟩ := forall_mem_cons.mp ha
    obtain ⟨hspans, htracked⟩ := step_spec hd h hfirst
    exact hspans.append (ih htracked hrest)

theorem exists_of_mem_checkFiles (hr : r ∈ (checkFiles hash split maxBytes fs s).2.1) :
    ∃ f ∈ fs, f.key = r.key := by
  induction fs generalizing s with
  | nil => cases hr
  | cons f fs ih =>
    rw [checkFiles] at hr
    split_ifs at hr
    · cases hr
    · cases hr
    · split at hr
      · cases hr
      · next read next hread =>
          rcases mem_cons.mp hr with rfl | hr
          · exact ⟨f, mem_cons_self, (readFile_key hread).1.symm⟩
          · obtain ⟨f', hf', hkey⟩ := ih hr
            exact ⟨f', mem_cons_of_mem f hf', hkey⟩

theorem readsOf_step_of_nil (ha : a.Tracks key path []) : readsOf key (step hash s a).2 = [] := by
  cases a with
  | append | unload | load => rfl
  | check c =>
    rw [readsOf, filter_eq_nil_iff]
    intro r hr
    rw [decide_eq_true_eq]
    rintro rfl
    rw [step, check] at hr
    split_ifs at hr with hsplit
    · cases hr
    · have hmem : r ∈ (checkFiles hash c.lineSplit c.maxBytes c.files s).2.1 := by
        split at hr <;> simp_all only
      obtain ⟨f, hf, hkey⟩ := exists_of_mem_checkFiles hmem
      exact hsplit (ha f hf hkey).2

theorem readsOf_run_of_nil (ha : ∀ a ∈ actions, a.Tracks key path []) :
    readsOf key (run hash s actions).2 = [] := by
  induction actions generalizing s with
  | nil => rfl
  | cons a actions ih =>
    obtain ⟨hfirst, hrest⟩ := forall_mem_cons.mp ha
    rw [run, readsOf, filter_append]
    exact append_eq_nil_iff.mpr ⟨readsOf_step_of_nil hfirst, ih hrest⟩

theorem tracked_initial (hash : List Char → ℕ) (files : List Char → List Char) :
    Tracked hash delim key path { files } :=
  ⟨fun _ hv => (nomatch hv), fun _ hv => (nomatch hv)⟩

theorem exactlyOnce_run_iff (files : List Char → List Char)
    (ha : ∀ a ∈ actions, a.Tracks key path delim) :
    ExactlyOnce delim (readsOf key (run hash { files } actions).2) ↔
      Resumes delim (readsOf key (run hash { files } actions).2) := by
  by_cases hd : delim = []
  · subst hd
    rw [readsOf_run_of_nil ha]
    exact ⟨fun _ before r after h => absurd h (by simp), fun _ before r after h =>
      absurd h (by simp)⟩
  · have hspans := run_spec hd (tracked_initial hash files) ha
    exact exactlyOnce_iff_resumes hd (fun r hr => (hspans.proper r hr).1) hspans.ordered

end Runs

/-! ## Failures and replaced files -/

section Failures

variable {hash : List Char → ℕ}

theorem State.position_touch (s : State) (k key : List Char) :
    (s.touch k).position key = s.position key := by
  rw [position, touch, Store.value_touch, position]

theorem checkFiles_position (hash : List Char → ℕ) (delim : List Char) (maxBytes : ℕ)
    (fs : List FileArg) (s : State)
    (key : List Char) : (checkFiles hash delim maxBytes fs s).1.position key = s.position key := by
  induction fs generalizing s with
  | nil => rfl
  | cons f fs ih =>
    rw [checkFiles]
    split_ifs
    · rfl
    · exact s.position_touch f.key key
    · split
      · exact s.position_touch f.key key
      · exact (ih _).trans (s.position_touch f.key key)

theorem check_position_of_fails {c : Check} {s : State} (h : checkFails hash c s = true)
    (key : List Char) : (check hash c s).1.position key = s.position key := by
  rw [checkFails] at h
  rw [check]
  split_ifs with hsplit
  · rfl
  · have hfiles := checkFiles_position hash c.lineSplit c.maxBytes c.files s key
    cases hrun : checkFiles hash c.lineSplit c.maxBytes c.files s with
    | mk s' rest =>
      obtain ⟨reads, pending⟩ := rest
      rw [hrun] at h hfiles
      cases pending with
      | none => exact hfiles
      | some ps => simp [hsplit] at h

/-- The file is not the one the position was taken of: it is too short, or it starts differently. -/
def Replaced (hash : List Char → ℕ) (prev : Position) (content : List Char) : Prop :=
  content.length < prev.offset ∨
    ∃ head : List Char, prev.fingerprint = hash head ∧ prev.fingerprintLen = head.length ∧
      head.length ≤ maxFingerprintLen ∧ content.take head.length ≠ head

theorem resumeDecision_of_replaced (hash_inj : Function.Injective hash) {prev : Position}
    {content : List Char} (h : Replaced hash prev content) :
    (resumeDecision hash prev content).offset = 0 ∧
      ((resumeDecision hash prev content).skip = true → content = []) := by
  have hrotated : rotated prev content.length (headFingerprint hash prev content)
      (decide (prev.fingerprintLen ≤ (readHead prev content).length)) = true := by
    rw [rotated, Bool.or_eq_true, decide_eq_true_eq]
    rcases h with hshort | ⟨head, hfingerprint, hlen, hmax, hne⟩
    · exact .inl hshort
    · refine .inr ?_
      have hpos : 0 < head.length := by
        rw [length_pos_iff]
        rintro rfl
        exact hne rfl
      rw [headFingerprint, hfingerprint, hlen]
      by_cases hle : head.length ≤ (readHead prev content).length
      · have hmin : min head.length (min (max content.length head.length) maxFingerprintLen) =
            head.length := by
          omega
        have hdiffer : hash (content.take head.length) ≠ hash head := fun heq => hne (hash_inj heq)
        rw [if_pos hle, readHead, hlen, take_take, hmin]
        simp [hpos, hdiffer]
      · simp [hpos, hle]
  rw [resumeDecision, computeResume, hrotated, if_pos (rfl : true = true)]
  split_ifs with hzero
  · exact ⟨rfl, fun _ => eq_nil_of_length_eq_zero hzero⟩
  all_goals exact ⟨rfl, (nomatch ·)⟩

theorem readFile_of_replaced (hash_inj : Function.Injective hash) {delim : List Char}
    (hd : delim ≠ []) {maxBytes : ℕ} {key : List Char} {prev next : Position}
    {content growth : List Char} {r : Read} (hreplaced : Replaced hash prev content)
    (h : readFile hash delim maxBytes key prev content growth = some (r, next)) :
    r.offset = 0 ∧ r.records <+: records delim 0 r.content ∧
      (r.exhausted = true → r.records = records delim 0 r.content) := by
  obtain ⟨hoffset, hskip⟩ := resumeDecision_of_replaced hash_inj hreplaced
  rw [readFile, hoffset] at h
  split_ifs at h with hs
  · cases h
    refine ⟨rfl, nil_prefix, fun _ => ?_⟩
    rw [hskip hs]
    rfl
  · split at h
    · cases h
    · next rs exhausted hread =>
        cases h
        obtain ⟨hfirst, hall, -⟩ := readRecords_spec hd hread
        exact ⟨rfl, hfirst, hall⟩

end Failures

/-! ## The contract of bookmarks -/

/-- Over a run from an empty table every record is handed out once, in order and whole; a check that
fails moves no bookmark, and a file that was replaced is read from its start. -/
structure Contract (hash : List Char → ℕ) (files : List Char → List Char) (key delim : List Char)
    (actions : List Action) : Prop where
  exactlyOnce : ExactlyOnce delim (readsOf key (run hash { files } actions).2)
  unmoved : ∀ c s, checkFails hash c s = true → ∀ k, (check hash c s).1.position k = s.position k
  restarts : Function.Injective hash → delim ≠ [] →
    ∀ maxBytes k prev next content growth r, Replaced hash prev content →
      readFile hash delim maxBytes k prev content growth = some (r, next) →
        r.offset = 0 ∧ r.records <+: records delim 0 r.content ∧
          (r.exhausted = true → r.records = records delim 0 r.content)

def lineCheck : Action :=
  .check ⟨['\n'], 0, [⟨['m'], "log".toList, true, true, []⟩]⟩

end Nscp.LogFile
