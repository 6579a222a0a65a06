import Nscp.Library.Text

/-!
# JSON documents and merge patches

The values of the JSON library that the fleet sync uses.  The members of an object stand in
the order in which they were inserted, and their names are unique; erasing a member moves the
last one into its place.
-/

namespace Nscp.Onboarding

open Option List

abbrev Text := List Char

inductive Json
  | null
  | bool (b : Bool)
  | int (n : ℤ)
  | double (bits : UInt64)
  | string (s : Text)
  | array (elements : List Json)
  | object (members : List (Text × Json))

abbrev Members := List (Text × Json)

namespace Members

def names (ms : Members) : List Text :=
  ms.map Prod.fst

def ifContains (ms : Members) (name : Text) : Option Json :=
  match ms with
  | [] => none
  | (n, v) :: ms => if n = name then some v else ifContains ms name

def erase (ms : Members) (name : Text) : Members :=
  match ms with
  | [] => []
  | (n, v) :: ms =>
    if n = name then
      match ms.getLast? with
      | none => []
      | some last => last :: ms.dropLast
    else (n, v) :: erase ms name

/-- A member that is there keeps its place; a new one goes to the end. -/
def assign (ms : Members) (name : Text) (value : Json) : Members :=
  match ms with
  | [] => [(name, value)]
  | (n, v) :: ms => if n = name then (n, value) :: ms else (n, v) :: assign ms name value

end Members

open Members

namespace Json

def isNull : Json → Bool
  | null => true
  | _ => false

/-- The members of an object, and none for any other value. -/
def members : Json → Members
  | object ms => ms
  | _ => []

mutual

/-- A patch that is no object replaces the target; a null member deletes. -/
def mergePatch (target : Json) : Json → Json
  | object ms => object (mergeMembers target.members ms)
  | null => null
  | bool b => bool b
  | int n => int n
  | double bits => double bits
  | string s => string s
  | array xs => array xs

def mergeMembers (result : Members) : Members → Members
  | [] => result
  | (name, value) :: ms =>
    mergeMembers
      (if value.isNull then result.erase name
      else result.assign name (mergePatch ((result.ifContains name).getD null) value)) ms

end

mutual

/-- The names of each object are unique. -/
def Unique : Json → Prop
  | object ms => (names ms).Nodup ∧ UniqueMembers ms
  | _ => True

def UniqueMembers : Members → Prop
  | [] => True
  | (_, value) :: ms => Unique value ∧ UniqueMembers ms

end

end Json

/-! ## The members of an object -/

namespace Members

variable {ms : Members} {name other : Text} {v : Json}

theorem mem_names {m : Text × Json} (h : m ∈ ms) : m.1 ∈ ms.names :=
  mem_map_of_mem h

theorem ifContains_eq_none_iff : ms.ifContains name = none ↔ name ∉ ms.names := by
  induction ms with
  | nil => exact iff_of_true rfl not_mem_nil
  | cons m ms ih =>
    obtain ⟨n, w⟩ := m
    rw [ifContains, names, map_cons, mem_cons, not_or]
    by_cases h : n = name
    · rw [if_pos h]
      exact iff_of_false (some_ne_none w) fun hn => hn.1 h.symm
    · rw [if_neg h, ih, names]
      exact ⟨fun hn => ⟨fun he => h he.symm, hn⟩, fun hn => hn.2⟩

theorem mem_of_ifContains (h : ms.ifContains name = some v) : (name, v) ∈ ms := by
  induction ms with
  | nil => cases h
  | cons m ms ih =>
    obtain ⟨n, w⟩ := m
    rw [ifContains] at h
    split_ifs at h with hn
    · cases h
      exact hn ▸ mem_cons_self
    · exact mem_cons_of_mem _ (ih h)

theorem ifContains_of_mem (hms : ms.names.Nodup) (h : (name, v) ∈ ms) :
    ms.ifContains name = some v := by
  induction ms with
  | nil => cases h
  | cons m ms ih =>
    obtain ⟨n, w⟩ := m
    obtain ⟨hn, hrest⟩ := nodup_cons.mp hms
    rw [ifContains]
    rcases mem_cons.mp h with heq | h
    · cases heq
      rw [if_pos rfl]
    · rw [if_neg, ih hrest h]
      rintro rfl
      have hmem : n ∈ names ms := mem_names h
      exact hn hmem

theorem erase_eq_self (h : name ∉ ms.names) : ms.erase name = ms := by
  induction ms with
  | nil => rfl
  | cons m ms ih =>
    obtain ⟨n, w⟩ := m
    rw [names, map_cons, mem_cons, not_or] at h
    rw [erase, if_neg (Ne.symm h.1), ih h.2]

theorem erase_perm (hms : ms.names.Nodup) (name : Text) :
    (ms.erase name).Perm (ms.filter fun m => m.1 ≠ name) := by
  induction ms with
  | nil => exact List.Perm.nil
  | cons m ms ih =>
    obtain ⟨n, w⟩ := m
    obtain ⟨hn, hrest⟩ := nodup_cons.mp hms
    rw [erase]
    split_ifs with h
    · subst h
      have hkeep : ms.filter (fun m => m.1 ≠ n) = ms := by
        refine filter_eq_self.mpr fun m hm => decide_eq_true fun he => ?_
        have hmem : m.1 ∈ names ms := mem_names hm
        exact hn (he ▸ hmem)
      rw [filter_cons_of_neg (by simp), hkeep]
      cases hlast : ms.getLast? with
      | none => rw [getLast?_eq_none_iff.mp hlast]
      | some last =>
        have hsplit := dropLast_append_getLast? last hlast
        calc last :: ms.dropLast
          List.Perm _ (ms.dropLast ++ [last]) := (perm_append_singleton _ _).symm
          List.Perm _ ms := by rw [hsplit]
    · rw [filter_cons_of_pos (by simpa using h)]
      exact (ih hrest).cons _

theorem names_erase (hms : ms.names.Nodup) (name : Text) : (ms.erase name).names.Nodup := by
  have hperm := (erase_perm hms name).map Prod.fst
  refine hperm.nodup_iff.mpr ?_
  exact hms.sublist (filter_sublist.map Prod.fst)

theorem ifContains_erase (hms : ms.names.Nodup) (name other : Text) :
    (ms.erase name).ifContains other = if other = name then none else ms.ifContains other := by
  have hperm := erase_perm hms name
  have hnodup := names_erase hms name
  split_ifs with h
  · rw [ifContains_eq_none_iff]
    intro hmem
    obtain ⟨m, hm, rfl⟩ := mem_map.mp hmem
    have hne := (mem_filter.mp (hperm.mem_iff.mp hm)).2
    exact of_decide_eq_true hne h
  · cases hv : ms.ifContains other with
    | some v =>
      refine ifContains_of_mem hnodup (hperm.mem_iff.mpr ?_)
      exact mem_filter.mpr ⟨mem_of_ifContains hv, decide_eq_true h⟩
    | none =>
      rw [ifContains_eq_none_iff] at hv ⊢
      intro hmem
      obtain ⟨m, hm, rfl⟩ := mem_map.mp hmem
      exact hv (mem_names (mem_filter.mp (hperm.mem_iff.mp hm)).1)

theorem ifContains_assign (ms : Members) (name other : Text) (v : Json) :
    (ms.assign name v).ifContains other = if other = name then some v else ms.ifContains other := by
  induction ms with
  | nil =>
    simp only [assign, ifContains]
    by_cases h : other = name
    · rw [if_pos h.symm, if_pos h]
    · rw [if_neg (Ne.symm h), if_neg h]
  | cons m ms ih =>
    obtain ⟨n, w⟩ := m
    rw [assign]
    by_cases h : n = name
    · subst h
      rw [if_pos rfl, ifContains, ifContains]
      by_cases ho : other = n
      · rw [if_pos ho.symm, if_pos ho]
      · rw [if_neg (Ne.symm ho), if_neg ho, if_neg (Ne.symm ho)]
    · rw [if_neg h, ifContains, ifContains, ih]
      split_ifs with hn ho
      · exact absurd (hn.trans ho) h
      · rfl
      · rfl
      · rfl

theorem assign_eq_self (h : ms.ifContains name = some v) : ms.assign name v = ms := by
  induction ms with
  | nil => cases h
  | cons m ms ih =>
    obtain ⟨n, w⟩ := m
    rw [ifContains] at h
    rw [assign]
    split_ifs at h ⊢
    · cases h
      rfl
    · rw [ih h]

theorem names_assign (ms : Members) (name : Text) (v : Json) :
    (ms.assign name v).names = if name ∈ ms.names then ms.names else ms.names ++ [name] := by
  induction ms with
  | nil => rfl
  | cons m ms ih =>
    obtain ⟨n, w⟩ := m
    rw [assign]
    by_cases h : n = name
    · rw [if_pos h, if_pos]
      · rfl
      · exact h ▸ mem_cons_self
    · have hmem : name ∈ names ((n, w) :: ms) ↔ name ∈ names ms := by
        rw [names, map_cons, mem_cons]
        exact or_iff_right (Ne.symm h)
      rw [if_neg h, names, map_cons, ← names, ih]
      simp only [hmem]
      split_ifs <;> rfl

theorem nodup_names_assign (hms : ms.names.Nodup) (name : Text) (v : Json) :
    (ms.assign name v).names.Nodup := by
  rw [names_assign]
  split_ifs with h
  · exact hms
  · exact nodup_append.mpr ⟨hms, nodup_singleton _,
      fun a ha b hb he => h (mem_singleton.mp hb ▸ he ▸ ha)⟩

end Members

/-! ## Merging -/

namespace Json

variable {r ms : Members} {name : Text} {v p : Json} {t : Json}

theorem uniqueMembers_iff : UniqueMembers ms ↔ ∀ m ∈ ms, Unique m.2 := by
  induction ms with
  | nil => exact iff_of_true trivial (forall_mem_nil _)
  | cons m ms ih =>
    rw [forall_mem_cons, ← ih]
    exact Iff.rfl

def patchMember (result : Members) (name : Text) (value : Json) : Members :=
  if value.isNull then result.erase name
  else result.assign name (mergePatch ((result.ifContains name).getD null) value)

theorem mergeMembers_cons (r : Members) (name : Text) (v : Json) (ms : Members) :
    mergeMembers r ((name, v) :: ms) = mergeMembers (patchMember r name v) ms := by
  rw [mergeMembers, patchMember]

section

variable (hr : r.names.Nodup)
include hr

theorem nodup_patchMember (name : Text) (v : Json) : (patchMember r name v).names.Nodup := by
  rw [patchMember]
  split_ifs
  · exact names_erase hr name
  · exact nodup_names_assign hr name _

theorem nodup_mergeMembers (ms : Members) : (mergeMembers r ms).names.Nodup := by
  induction ms generalizing r with
  | nil => rwa [mergeMembers]
  | cons m ms ih =>
    rw [mergeMembers_cons]
    exact ih (nodup_patchMember hr m.1 m.2)

theorem ifContains_patchMember (name other : Text) (v : Json) :
    (patchMember r name v).ifContains other = if other = name then
        if v.isNull then none else some (mergePatch ((r.ifContains name).getD null) v)
      else r.ifContains other := by
  rw [patchMember]
  cases v.isNull with
  | true =>
    rw [if_pos rfl, if_pos rfl]
    exact ifContains_erase hr name other
  | false =>
    rw [if_neg Bool.false_ne_true, if_neg Bool.false_ne_true]
    exact ifContains_assign r name other _

theorem ifContains_mergeMembers (hms : (names ms).Nodup) (other : Text) :
    (mergeMembers r ms).ifContains other = match ifContains ms other with
      | none => r.ifContains other
      | some v =>
        if v.isNull then none else some (mergePatch ((r.ifContains other).getD null) v) := by
  induction ms generalizing r with
  | nil => rw [mergeMembers, ifContains]
  | cons m ms ih =>
    obtain ⟨n, v⟩ := m
    obtain ⟨hn, hrest⟩ := nodup_cons.mp hms
    rw [mergeMembers_cons, ih (nodup_patchMember hr n v) hrest, ifContains]
    by_cases h : n = other
    · subst h
      have hnone : ifContains ms n = none := ifContains_eq_none_iff.mpr hn
      rw [hnone, if_pos rfl, ifContains_patchMember hr, if_pos rfl]
    · rw [if_neg h, ifContains_patchMember hr, if_neg (Ne.symm h)]

end

section Induction

variable {P : Json → Prop}

mutual

theorem objectInduction (object : ∀ ms, (∀ m ∈ ms, P m.2) → P (.object ms))
    (other : ∀ v, (∀ ms, v ≠ .object ms) → P v) : ∀ v, P v
  | .object ms => object ms (membersInduction object other ms)
  | .null => other _ fun _ h => (by cases h)
  | .bool _ => other _ fun _ h => (by cases h)
  | .int _ => other _ fun _ h => (by cases h)
  | .double _ => other _ fun _ h => (by cases h)
  | .string _ => other _ fun _ h => (by cases h)
  | .array _ => other _ fun _ h => (by cases h)

theorem membersInduction (object : ∀ ms, (∀ m ∈ ms, P m.2) → P (.object ms))
    (other : ∀ v, (∀ ms, v ≠ .object ms) → P v) : ∀ ms : Members, ∀ m ∈ ms, P m.2
  | [] => forall_mem_nil _
  | (_, v) :: ms => forall_mem_cons.mpr
      ⟨objectInduction object other v, membersInduction object other ms⟩

end

end Induction

theorem mergePatch_of_not_object (t : Json) (hv : ∀ ms, v ≠ .object ms) : mergePatch t v = v := by
  cases v with
  | object ms => exact absurd rfl (hv ms)
  | _ => rfl

theorem unique_members (ht : t.Unique) : t.members.names.Nodup ∧ UniqueMembers t.members := by
  cases t with
  | object ms => exact ht
  | _ => exact ⟨nodup_nil, trivial⟩

theorem unique_getD_ifContains (hr : UniqueMembers r) (name : Text) :
    ((r.ifContains name).getD null).Unique := by
  cases hv : r.ifContains name with
  | none => trivial
  | some v => exact uniqueMembers_iff.mp hr _ (mem_of_ifContains hv)

theorem unique_mergePatch (ht : t.Unique) (hp : p.Unique) : (mergePatch t p).Unique := by
  revert t hp
  refine objectInduction (P := fun p => ∀ {t : Json}, t.Unique → p.Unique → (mergePatch t p).Unique)
    (fun ms ih t ht hp => ?_) (fun v hv t _ hp => ?_) p
  · obtain ⟨hnodup, hmembers⟩ := unique_members ht
    refine ⟨nodup_mergeMembers hnodup ms, ?_⟩
    have hresult := nodup_mergeMembers hnodup ms
    refine uniqueMembers_iff.mpr fun m hm => ?_
    have hlookup := ifContains_of_mem hresult hm
    rw [ifContains_mergeMembers hnodup hp.1] at hlookup
    cases hpatch : ifContains ms m.1 with
    | none =>
      rw [hpatch] at hlookup
      exact uniqueMembers_iff.mp hmembers _ (mem_of_ifContains hlookup)
    | some v =>
      simp only [hpatch] at hlookup
      split_ifs at hlookup
      rw [← some.inj hlookup]
      have hmem := mem_of_ifContains hpatch
      exact ih _ hmem (unique_getD_ifContains hmembers m.1) (uniqueMembers_iff.mp hp.2 _ hmem)
  · rwa [mergePatch_of_not_object t hv]

theorem mergeMembers_eq_self
    (h : ∀ m ∈ ms, if m.2.isNull then r.ifContains m.1 = none
      else ∃ w, r.ifContains m.1 = some w ∧ mergePatch w m.2 = w) : mergeMembers r ms = r := by
  induction ms with
  | nil => rw [mergeMembers]
  | cons m ms ih =>
    obtain ⟨hfirst, hrest⟩ := forall_mem_cons.mp h
    have hsame : patchMember r m.1 m.2 = r := by
      rw [patchMember]
      split_ifs at hfirst ⊢
      · exact erase_eq_self (ifContains_eq_none_iff.mp hfirst)
      · obtain ⟨w, hw, hmerge⟩ := hfirst
        rw [hw, getD_some, hmerge]
        exact assign_eq_self hw
    rw [mergeMembers_cons, hsame]
    exact ih hrest

theorem mergePatch_mergePatch (ht : t.Unique) (hp : p.Unique) :
    mergePatch (mergePatch t p) p = mergePatch t p := by
  revert t hp
  refine objectInduction
    (P := fun p => ∀ {t : Json}, t.Unique → p.Unique →
      mergePatch (mergePatch t p) p = mergePatch t p)
    (fun ms ih t ht hp => ?_) (fun v hv t _ _ => ?_) p
  · obtain ⟨hnodup, hmembers⟩ := unique_members ht
    refine congrArg object (mergeMembers_eq_self fun m hm => ?_)
    have hpatch : ifContains ms m.1 = some m.2 := ifContains_of_mem hp.1 hm
    have hlookup := ifContains_mergeMembers hnodup hp.1 m.1
    simp only [hpatch] at hlookup
    change if m.2.isNull then (mergeMembers t.members ms).ifContains m.1 = none else
      ∃ w, (mergeMembers t.members ms).ifContains m.1 = some w ∧ mergePatch w m.2 = w
    split_ifs at hlookup ⊢
    · exact hlookup
    · refine ⟨_, hlookup, ?_⟩
      exact ih _ hm (unique_getD_ifContains hmembers m.1) (uniqueMembers_iff.mp hp.2 _ hm)
  · rw [mergePatch_of_not_object _ hv, mergePatch_of_not_object _ hv]

end Json

end Nscp.Onboarding
