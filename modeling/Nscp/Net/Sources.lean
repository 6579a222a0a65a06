import Nscp.Net.Networks

/-!
# Sources on their own

A rebuild goes through the sources one by one.  Each should leave what it leaves on its own, and a
malformed one a message.
-/

namespace Nscp.Net.AllowedHosts

open AllowedHosts.Lists List

variable {env : Sockets} {record mask : List Char} (env : Sockets)

/-- No name has to be looked up. -/
def Unnamed (record : List Char) : Prop :=
  record.takeWhile (· ≠ '/') = [] ∨ isWildcard (record.takeWhile (· ≠ '/')) = true ∨
    isNumeric (record.takeWhile (· ≠ '/')) = true

def origin (env : Sockets) (record : List Char) : Option (Address × List Char) :=
  if isWildcard (record.takeWhile (· ≠ '/')) then
    if record.dropWhile (· ≠ '/') = [] then
      (expandWildcardV4 (record.takeWhile (· ≠ '/'))).bind fun r =>
        (env.makeAddress r.1).toOption.map (·, r.2)
    else none
  else if record.takeWhile (· ≠ '/') = [] then none
  else (env.makeAddress (record.takeWhile (· ≠ '/'))).toOption.map (·, record.dropWhile (· ≠ '/'))

def plainMask : List Char → Bool
  | [] => true
  | c :: digits => c == '/' && !digits.isEmpty && digits.all Char.isDigit

/-- A bad address or wildcard, or any other text behind the slash. -/
def malformed (env : Sockets) (record : List Char) : Bool :=
  !(origin env record).any fun r => plainMask r.2

/-- What a source yields on its own. -/
def own (env : Sockets) (record : List Char) : Lists :=
  (readRecords env [record] ⟨[], [], []⟩).1

def Lists.append (l l' : Lists) : Lists :=
  ⟨l.entriesV4 ++ l'.entriesV4, l.entriesV6 ++ l'.entriesV6, l.errors ++ l'.errors⟩

/-- The source has an address, and if that can be read, nothing or a number below `2 ^ 64` follows
it. -/
def Stated (env : Sockets) (record : List Char) : Prop :=
  record.takeWhile (· ≠ '/') ≠ [] ∧ ∀ a mask, origin env record = some (a, mask) →
    plainMask mask = true ∧ (mask = [] ∨ Nat.ofDigitChars 10 mask.tail 0 < 2 ^ 64)

/-! ## One source -/

theorem addAddress_append (record : List Char) (a : Address) (mask : List Char) (l : Lists) :
    addAddress record a mask l = (addAddress record a mask ⟨[], [], []⟩).map l.append := by
  cases a <;> simp only [addAddress, Option.map_map] <;> congr 1 <;> funext m <;>
    simp [append]

/-- A source adds the record of its address; without one that can be read it leaves a message,
or nothing if it is empty. -/
theorem readRecord_eq (h : Unnamed record) : ∃ e, ∀ l, readRecord env record l =
    match origin env record with
    | some (a, mask) => addAddress record a mask l
    | none => some (if record.takeWhile (· ≠ '/') = [] then l else l.report e) := by
  unfold Unnamed at h
  unfold origin readRecord
  generalize record.takeWhile (· ≠ '/') = addr at h ⊢
  generalize record.dropWhile (· ≠ '/') = mask
  cases addr with
  | nil => exact ⟨[], fun l => rfl⟩
  | cons c addr =>
    have hne : c :: addr ≠ [] := cons_ne_nil _ _
    by_cases hwild : isWildcard (c :: addr) = true
    · simp only [hwild, if_true, if_neg hne, isEmpty_cons, Bool.false_eq_true, if_false]
      cases mask with
      | nil =>
        rcases expandWildcardV4 (c :: addr) with _ | r
        · exact ⟨_, fun l => rfl⟩
        cases haddress : env.makeAddress r.1 with
        | error message =>
          refine ⟨"Failed to parse address ".toList ++ record ++ ": ".toList ++ message,
            fun l => ?_⟩
          simp [addNumeric, haddress, Except.toOption]
        | ok a => exact ⟨[], fun l => by simp [addNumeric, haddress, Except.toOption]⟩
      | cons d mask => exact ⟨_, fun l => rfl⟩
    · have hnumeric := (h.resolve_left hne).resolve_left hwild
      simp only [hwild, hnumeric, if_true, if_neg hne, isEmpty_cons, Bool.false_eq_true,
        if_false, addNumeric]
      cases env.makeAddress (c :: addr) with
      | error message => exact ⟨_, fun l => rfl⟩
      | ok a => exact ⟨[], fun l => rfl⟩

theorem addAddress_errors {a : Address} {l l' : Lists} (h : addAddress record a mask l = some l') :
    extractMask mask a.width ≠ none ∧ l'.errors = l.errors := by
  cases a <;>
  · obtain ⟨bytes, hbytes, rfl⟩ := Option.map_eq_some_iff.mp h
    obtain ⟨n, hn, -⟩ := Option.map_eq_some_iff.mp hbytes
    exact ⟨fun hnone => Option.some_ne_none n (hn.symm.trans hnone), rfl⟩

/-- Of the plain masks those can be read that are below `2 ^ 64`. -/
theorem extractMask_of_plainMask (h : plainMask mask = true) (a : Address) :
    extractMask mask a.width ≠ none ↔ mask = [] ∨ Nat.ofDigitChars 10 mask.tail 0 < 2 ^ 64 := by
  have hwidth : a.width < 2 ^ 64 := by cases a <;> norm_num [Address.width]
  cases mask with
  | nil =>
    rw [Length.whole.extractMask hwidth, if_pos hwidth]
    simp
  | cons c digits =>
    simp only [plainMask, Bool.and_eq_true, beq_iff_eq, Bool.not_eq_true',
      isEmpty_eq_false_iff, all_eq_true] at h
    obtain ⟨⟨rfl, hne⟩, hdigits⟩ := h
    rw [(Length.given hne hdigits).extractMask hwidth]
    split <;> simp_all

/-- A source throws, or leaves what it leaves on its own; then the number of its messages is right
if and only if the source is stated well. -/
theorem readRecord_own (h : Unnamed record) :
    (∀ l, readRecord env record l = none) ∧ ¬ Stated env record ∨
    (∀ l, readRecord env record l = some (l.append (own env record))) ∧
      (own env record).errors.length ≤ (if malformed env record then 1 else 0) ∧
      ((own env record).errors.length = (if malformed env record then 1 else 0) ↔
        Stated env record) := by
  obtain ⟨e, hread⟩ := readRecord_eq env h
  have hown : ∀ l', readRecord env record ⟨[], [], []⟩ = some l' → own env record = l' := by
    intro l' h
    rw [own, readRecords, h]
    rfl
  unfold malformed Stated
  cases horigin : origin env record with
  | none =>
    rw [horigin] at hread
    rw [hown _ (hread _)]
    simp only [hread]
    generalize record.takeWhile (· ≠ '/') = addr
    cases addr <;> simp [append, report]
  | some r =>
    obtain ⟨a, mask⟩ := r
    have hne : record.takeWhile (· ≠ '/') ≠ [] := by
      intro hempty
      rw [origin, hempty] at horigin
      cases horigin
    simp only [horigin] at hread
    cases hmask : addAddress record a mask ⟨[], [], []⟩ with
    | none =>
      refine Or.inl ⟨fun l => ?_, fun hstated => ?_⟩
      · rw [hread, addAddress_append, hmask]
        rfl
      · obtain ⟨hplain, hsmall⟩ := hstated.2 a mask rfl
        obtain ⟨n, hn⟩ := Option.ne_none_iff_exists'.mp
          ((extractMask_of_plainMask hplain a).mpr hsmall)
        obtain ⟨l', hl', -⟩ := addAddress_of_extractMask hn record ⟨[], [], []⟩
        exact Option.some_ne_none l' (hl'.symm.trans hmask)
    | some l' =>
      obtain ⟨hextract, herrors⟩ := addAddress_errors hmask
      refine Or.inr ⟨fun l => ?_, ?_⟩
      · rw [hread, addAddress_append, hmask, hown l' ((hread _).trans hmask)]
        rfl
      · rw [hown l' ((hread _).trans hmask), herrors]
        cases hplain : plainMask mask with
        | false => simp [hplain]
        | true =>
          have hsmall := (extractMask_of_plainMask hplain a).mp hextract
          simp only [Option.any_some, hplain, Bool.not_true, Bool.false_eq_true, if_false]
          refine ⟨le_rfl, iff_of_true rfl ⟨hne, ?_⟩⟩
          rintro a' mask' heq
          cases heq
          exact ⟨hplain, hsmall⟩

/-! ## All sources -/

/-- By induction on the sources: the entries are those of each source, and there are at most as
many messages as there should be. -/
theorem readRecords_own {records : List (List Char)} (h : ∀ r ∈ records, Unnamed r) (l : Lists) :
    ((readRecords env records l).2 = true →
      (readRecords env records l).1 = (records.map (own env)).foldl append l ∧
        (readRecords env records l).1.errors.length ≤
          l.errors.length + records.countP (malformed env)) ∧
    (((readRecords env records l).2 = true ∧ (readRecords env records l).1.errors.length =
      l.errors.length + records.countP (malformed env)) ↔ ∀ r ∈ records, Stated env r) := by
  induction records generalizing l with
  | nil => simp [readRecords]
  | cons r records ih =>
    obtain ⟨hr, hrecords⟩ := forall_mem_cons.mp h
    rw [readRecords, forall_mem_cons, countP_cons]
    obtain ⟨hthrows, hnot⟩ | ⟨hread, hle, hiff⟩ := readRecord_own env hr
    · simp [hthrows, hnot]
    · obtain ⟨hall, hstated⟩ := ih hrecords (l.append (own env r))
      have hlength : (l.append (own env r)).errors.length =
          l.errors.length + (own env r).errors.length := length_append
      simp only [hread]
      rw [← hiff, ← hstated]
      refine ⟨fun hreturned => ⟨(hall hreturned).1, ?_⟩, ?_⟩
      · have hle' := (hall hreturned).2
        omega
      · constructor
        · rintro ⟨hreturned, hcount⟩
          have hle' := (hall hreturned).2
          exact ⟨by omega, hreturned, by omega⟩
        · rintro ⟨hcount, hreturned, hcount'⟩
          exact ⟨hreturned, by omega⟩

theorem foldl_append (ls : List Lists) (l : Lists) :
    (ls.foldl append l).entriesV4 = l.entriesV4 ++ ls.flatMap entriesV4 ∧
      (ls.foldl append l).entriesV6 = l.entriesV6 ++ ls.flatMap entriesV6 := by
  induction ls generalizing l with
  | nil => simp
  | cons l' ls ih => simp [ih, append]

/-- A rebuild of sources without names returns, leaves the entries of each source one after the
other and a message for each malformed source if and only if no source has an empty address and
behind every address that can be read there is nothing or a number below `2 ^ 64`. -/
theorem refresh_independent_iff (env : Sockets) (m : Manager) (errors : List (List Char))
    (h : ∀ r ∈ m.sources, Unnamed r) :
    ((refresh env m errors).2.2 = true ∧
      (refresh env m errors).1.entriesV4 = m.sources.flatMap (fun r => (own env r).entriesV4) ∧
      (refresh env m errors).1.entriesV6 = m.sources.flatMap (fun r => (own env r).entriesV6) ∧
      (refresh env m errors).2.1.length = errors.length + m.sources.countP (malformed env)) ↔
    ∀ r ∈ m.sources, Stated env r := by
  obtain ⟨hall, hstated⟩ := readRecords_own env h ⟨[], [], errors⟩
  obtain ⟨h4, h6⟩ := foldl_append (m.sources.map (own env)) ⟨[], [], errors⟩
  rw [← hstated]
  simp only [refresh]
  refine ⟨fun h => ⟨h.1, h.2.2.2⟩, fun h => ⟨h.1, ?_, ?_, h.2⟩⟩
  · rw [(hall h.1).1, h4, flatMap_map]
    rfl
  · rw [(hall h.1).1, h6, flatMap_map]
    rfl

/-- A network and a wildcard that is not one. -/
theorem refresh_independent_wildcard :
    let m := setSource {} "10.0.0.0/8, 192.*.1.1".toList
    (refresh dottedQuads m []).2.2 = true ∧
      (refresh dottedQuads m []).2.1.length = m.sources.countP (malformed dottedQuads) := by
  have hunnamed : ∀ r ∈ (setSource {} "10.0.0.0/8, 192.*.1.1".toList).sources, Unnamed r := by
    unfold Unnamed
    decide +kernel
  have hsources : (setSource {} "10.0.0.0/8, 192.*.1.1".toList).sources =
      ["10.0.0.0/8".toList, "192.*.1.1".toList] := by decide +kernel
  have hstated := (refresh_independent_iff dottedQuads _ [] hunnamed).mpr (by
    rw [hsources, forall_mem_cons, forall_mem_singleton]
    refine ⟨⟨by decide, fun a mask h => ?_⟩, ⟨by decide, fun a mask h => ?_⟩⟩
    · obtain ⟨-, rfl⟩ := Prod.mk.inj (Option.some.inj h)
      decide
    · cases h)
  exact ⟨hstated.1, hstated.2.2.2.trans (Nat.zero_add _)⟩

/-- The second source stops the rebuild, and the third is not there. -/
theorem refresh_stopped :
    let m := setSource {} "10.0.0.1, 10.0.0.2/18446744073709551616, 10.0.0.3".toList
    (∀ r ∈ m.sources, Unnamed r) ∧ (refresh dottedQuads m []).2.2 = false ∧
      (refresh dottedQuads m []).1.entriesV4.length = 1 ∧
      (own dottedQuads "10.0.0.3".toList).entriesV4.length = 1 := by
  unfold Unnamed
  decide +kernel

end Nscp.Net.AllowedHosts
