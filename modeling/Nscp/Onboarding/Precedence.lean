import Nscp.Onboarding.Ini

/-!
# The host override over the bundles

The configurations of the bundles are merged in their order and the document of the host last.
Merging decides between members of one path of names; what is rendered is decided between all
members of one section and key, and the last of those wins.
-/

namespace Nscp.Onboarding

open Members Option Json OrderedMap List

/-- A value of the JSON library: the names of its objects are unique. -/
abbrev Document := {v : Json // v.Unique}

namespace Document

def empty : Document :=
  ⟨.object [], nodup_nil, trivial⟩

def mergePatch (target patch : Document) : Document :=
  ⟨target.1.mergePatch patch.1, unique_mergePatch target.2 patch.2⟩

/-- The bundles in apply order, the override last. -/
def merged (bundles : List Document) (hostOverride : Document) : Document :=
  (bundles.foldl mergePatch empty).mergePatch hostOverride

theorem mergePatch_mergePatch (target patch : Document) :
    (target.mergePatch patch).mergePatch patch = target.mergePatch patch :=
  Subtype.ext (Json.mergePatch_mergePatch target.2 patch.2)

end Document

open Document

/-! ## Members through a merge -/

section Leaves

variable {l : Leaf} {names : List Text} {r ms : Members}

theorem mem_leaves : l ∈ leaves names ms ↔ ∃ m ∈ ms, l ∈ leavesOf names m.1 m.2 := by
  induction ms with
  | nil =>
    rw [leaves]
    exact iff_of_false not_mem_nil fun ⟨_, hm, _⟩ => not_mem_nil hm
  | cons m ms ih =>
    rw [leaves, mem_append, ih]
    simp

theorem mem_leaves_mergeMembers (hr : r.names.Nodup) (hr' : Json.UniqueMembers r)
    (hms : (Members.names ms).Nodup)
    (hmember : ∀ m ∈ ms, ∀ t : Json, t.Unique → l ∈ leavesOf names m.1 m.2 →
      l ∈ leavesOf names m.1 (t.mergePatch m.2))
    (h : l ∈ leaves names ms) : l ∈ leaves names (mergeMembers r ms) := by
  obtain ⟨m, hm, hl⟩ := mem_leaves.mp h
  have hlookup := ifContains_mergeMembers hr hms m.1
  rw [ifContains_of_mem hms hm] at hlookup
  have hnull : m.2.isNull = false := by
    cases hvalue : m.2 with
    | null =>
      rw [hvalue, leavesOf] at hl
      cases hl
    | _ => rfl
  simp only [hnull, Bool.false_eq_true, if_false] at hlookup
  refine mem_leaves.mpr ⟨_, mem_of_ifContains hlookup, ?_⟩
  exact hmember m hm _ (unique_getD_ifContains hr' m.1) hl

theorem mem_leavesOf_mergePatch {t p : Json} (ht : t.Unique) (hp : p.Unique) {key : Text}
    (h : l ∈ leavesOf names key p) : l ∈ leavesOf names key (t.mergePatch p) := by
  revert t hp names key
  refine objectInduction
    (P := fun p => ∀ {names : List Text} {t : Json}, t.Unique → p.Unique → ∀ {key : Text},
      l ∈ leavesOf names key p → l ∈ leavesOf names key (t.mergePatch p))
    (fun ms ih names t ht hp key h => ?_) (fun v hv names t _ _ key h => ?_) p
  · rw [leavesOf] at h
    rw [Json.mergePatch, leavesOf]
    obtain ⟨hnames, hmembers⟩ := unique_members ht
    refine mem_leaves_mergeMembers hnames hmembers hp.1 (fun m hm t ht hl => ?_) h
    exact ih m hm ht (uniqueMembers_iff.mp hp.2 m hm) hl
  · rwa [mergePatch_of_not_object t hv]

theorem mem_leaves_merged (bundles : List Document) {hostOverride : Document}
    (h : l ∈ leaves [] hostOverride.1.members) :
    l ∈ leaves [] (merged bundles hostOverride).1.members := by
  obtain ⟨p, hp⟩ := hostOverride
  cases p with
  | object ms =>
    obtain ⟨hnames, hmembers⟩ := unique_members (bundles.foldl _ empty).2
    refine mem_leaves_mergeMembers hnames hmembers hp.1 (fun m hm t ht hl => ?_) h
    exact mem_leavesOf_mergePatch ht (uniqueMembers_iff.mp hp.2 m hm) hl
  | _ => cases h

/-! ## Where the members of a merge come from -/

theorem of_mem_leaves_mergeMembers (hr : r.names.Nodup) (hr' : Json.UniqueMembers r)
    (hms : (Members.names ms).Nodup)
    (hmember : ∀ m ∈ ms, ∀ t : Json, t.Unique → l ∈ leavesOf names m.1 (t.mergePatch m.2) →
      l ∈ leavesOf names m.1 t ∨ l ∈ leavesOf names m.1 m.2)
    (h : l ∈ leaves names (mergeMembers r ms)) : l ∈ leaves names r ∨ l ∈ leaves names ms := by
  obtain ⟨m, hm, hl⟩ := mem_leaves.mp h
  have hlookup := ifContains_of_mem (nodup_mergeMembers hr ms) hm
  rw [ifContains_mergeMembers hr hms] at hlookup
  cases hpatch : ifContains ms m.1 with
  | none =>
    rw [hpatch] at hlookup
    exact .inl (mem_leaves.mpr ⟨m, mem_of_ifContains hlookup, hl⟩)
  | some v =>
    simp only [hpatch] at hlookup
    split_ifs at hlookup
    have hv := mem_of_ifContains hpatch
    rw [← some.inj hlookup] at hl
    refine (hmember _ hv _ (unique_getD_ifContains hr' m.1) hl).imp (fun hold => ?_)
      fun hnew => mem_leaves.mpr ⟨_, hv, hnew⟩
    cases htarget : r.ifContains m.1 with
    | none =>
      rw [htarget, getD_none, leavesOf] at hold
      cases hold
    | some w =>
      rw [htarget] at hold
      exact mem_leaves.mpr ⟨_, mem_of_ifContains htarget, hold⟩

theorem of_mem_leavesOf_mergePatch {t p : Json} (ht : t.Unique) (hp : p.Unique) {key : Text}
    (h : l ∈ leavesOf names key (t.mergePatch p)) :
    l ∈ leavesOf names key t ∨ l ∈ leavesOf names key p := by
  revert t hp names key
  refine objectInduction
    (P := fun p => ∀ {names : List Text} {t : Json}, t.Unique → p.Unique → ∀ {key : Text},
      l ∈ leavesOf names key (t.mergePatch p) →
        l ∈ leavesOf names key t ∨ l ∈ leavesOf names key p)
    (fun ms ih names t ht hp key h => ?_) (fun v hv names t _ _ key h => ?_) p
  · rw [Json.mergePatch, leavesOf] at h
    obtain ⟨hnames, hmembers⟩ := unique_members ht
    rw [leavesOf.eq_1 names key ms]
    refine (of_mem_leaves_mergeMembers hnames hmembers hp.1 (fun m hm t ht hl => ?_) h).imp_left
      fun hold => ?_
    · exact ih m hm ht (uniqueMembers_iff.mp hp.2 m hm) hl
    · cases t with
      | object => rwa [leavesOf]
      | _ => cases hold
  · rw [mergePatch_of_not_object t hv] at h
    exact .inr h

theorem of_mem_leaves_mergePatch {t p : Document}
    (h : l ∈ leaves [] (t.mergePatch p).1.members) :
    l ∈ leaves [] t.1.members ∨ l ∈ leaves [] p.1.members := by
  obtain ⟨p, hp⟩ := p
  cases p with
  | object ms =>
    obtain ⟨hnames, hmembers⟩ := unique_members t.2
    refine of_mem_leaves_mergeMembers hnames hmembers hp.1 (fun m hm t ht hl => ?_) h
    exact of_mem_leavesOf_mergePatch ht (uniqueMembers_iff.mp hp.2 m hm) hl
  | _ => exact .inr h

theorem of_mem_leaves_merged {bundles : List Document} {hostOverride : Document}
    (h : l ∈ leaves [] (merged bundles hostOverride).1.members) :
    ∃ d ∈ hostOverride :: bundles, l ∈ leaves [] d.1.members := by
  have hbundles : ∀ bundles : List Document,
      l ∈ leaves [] (bundles.foldl Document.mergePatch empty).1.members →
        ∃ d ∈ bundles, l ∈ leaves [] d.1.members := fun bundles hl => by
    induction bundles using List.reverseRecOn with
    | nil => cases hl
    | append_singleton bundles d ih =>
      rw [foldl_append] at hl
      rcases of_mem_leaves_mergePatch hl with hold | hnew
      · obtain ⟨d', hd', hl⟩ := ih hold
        exact ⟨d', mem_append_left _ hd', hl⟩
      · exact ⟨d, by simp, hnew⟩
  rcases of_mem_leaves_mergePatch h with hold | hnew
  · obtain ⟨d, hd, hl⟩ := hbundles bundles hold
    exact ⟨d, mem_cons_of_mem _ hd, hl⟩
  · exact ⟨hostOverride, mem_cons_self, hnew⟩

/-! ## One member for one path of names -/

theorem eq_of_mem_leavesOf_of_not_object {v : Json} (hv : ∀ ms, v ≠ .object ms) {key : Text}
    (h : l ∈ leavesOf names key v) : l = ⟨names, key, v⟩ := by
  cases v with
  | object ms => exact absurd rfl (hv ms)
  | null => cases h
  | _ => exact mem_singleton.mp h

/-- A member stands below the names it is looked for under. -/
theorem prefix_of_mem_leavesOf {v : Json} {key : Text} (h : l ∈ leavesOf names key v) :
    names ++ [key] <+: l.names ++ [l.key] := by
  revert names key
  refine objectInduction
    (P := fun v => ∀ {names : List Text} {key : Text}, l ∈ leavesOf names key v →
      names ++ [key] <+: l.names ++ [l.key]) (fun ms ih names key h => ?_)
    (fun v hv names key h => ?_) v
  · rw [leavesOf] at h
    obtain ⟨m, hm, hl⟩ := mem_leaves.mp h
    exact (prefix_append _ _).trans (ih m hm hl)
  · rw [eq_of_mem_leavesOf_of_not_object hv h]

theorem eq_of_mem_leaves {l' : Leaf} (hms : (Members.names ms).Nodup)
    (hmember : ∀ m ∈ ms, l ∈ leavesOf names m.1 m.2 → l' ∈ leavesOf names m.1 m.2 → l = l')
    (hnames : l.names = l'.names) (hkey : l.key = l'.key) (h : l ∈ leaves names ms)
    (h' : l' ∈ leaves names ms) : l = l' := by
  obtain ⟨m, hm, hl⟩ := mem_leaves.mp h
  obtain ⟨m', hm', hl'⟩ := mem_leaves.mp h'
  have hprefix := prefix_of_mem_leavesOf hl
  rw [hnames, hkey] at hprefix
  have hname : names ++ [m.1] = names ++ [m'.1] :=
    (prefix_of_prefix_length_le hprefix (prefix_of_mem_leavesOf hl') (by simp)).eq_of_length
      (by simp)
  have hname : m.1 = m'.1 := by simpa using hname
  have hsame := ifContains_of_mem hms hm
  rw [hname, ifContains_of_mem hms hm'] at hsame
  have hm_eq : m = m' := Prod.ext hname (some.inj hsame).symm
  exact hmember m hm hl (hm_eq ▸ hl')

theorem eq_of_mem_leavesOf {v : Json} (hv : v.Unique) {key : Text} {l' : Leaf}
    (hnames : l.names = l'.names) (hkey : l.key = l'.key) (h : l ∈ leavesOf names key v)
    (h' : l' ∈ leavesOf names key v) : l = l' := by
  revert hv names key
  refine objectInduction
    (P := fun v => ∀ {names : List Text}, v.Unique → ∀ {key : Text}, l ∈ leavesOf names key v →
      l' ∈ leavesOf names key v → l = l')
    (fun ms ih names hms key h h' => ?_) (fun v hv names _ key h h' => ?_) v
  · rw [leavesOf] at h h'
    refine eq_of_mem_leaves hms.1 (fun m hm => ?_) hnames hkey h h'
    exact ih m hm (uniqueMembers_iff.mp hms.2 m hm)
  · rw [eq_of_mem_leavesOf_of_not_object hv h, eq_of_mem_leavesOf_of_not_object hv h']

end Leaves

/-! ## The setting that is rendered -/

def lastSet (xs : List Setting) (path key : Text) : Option Setting :=
  xs.reverse.find? fun x => x.path = path ∧ x.key = key

section LastSet

variable {x : Setting} {xs : List Setting} {path key : Text}

theorem lastSet_append (xs ys : List Setting) (path key : Text) :
    lastSet (xs ++ ys) path key = (lastSet ys path key).or (lastSet xs path key) := by
  rw [lastSet, reverse_append, find?_append, lastSet, lastSet]

theorem lastSet_concat (xs : List Setting) (x : Setting) (path key : Text) :
    lastSet (xs ++ [x]) path key =
      if x.path = path ∧ x.key = key then some x else lastSet xs path key := by
  rw [lastSet_append, lastSet, reverse_singleton, find?_singleton]
  by_cases h : x.path = path ∧ x.key = key
  · simp [h]
  · simp [h]

theorem same_of_lastSet (h : lastSet xs path key = some x) : x.path = path ∧ x.key = key := by
  simpa using find?_some h

theorem exists_lastSet (h : x ∈ xs) : ∃ y, lastSet xs x.path x.key = some y := by
  rw [← Option.isSome_iff_exists, lastSet, find?_isSome]
  exact ⟨x, mem_reverse.mpr h, by simp⟩

theorem mem_of_lastSet (h : lastSet xs path key = some x) : x ∈ xs :=
  mem_reverse.mp (mem_of_find?_eq_some h)

end LastSet

namespace IniSections

variable {sections : IniSections}

theorem find_store (sections : IniSections) (x : Setting) (path key : Text) :
    (sections.store x).find path key =
      if x.path = path ∧ x.key = key then some x.value else sections.find path key := by
  rw [find, store, lookup_insert]
  by_cases hpath : path = x.path
  · subst hpath
    rw [if_pos rfl, bind_some, lookup_insert, find]
    by_cases hkey : key = x.key
    · rw [if_pos hkey, if_pos ⟨rfl, hkey.symm⟩]
    · rw [if_neg hkey, if_neg fun h => hkey h.2.symm]
      cases OrderedMap.lookup x.path sections <;> rfl
  · rw [if_neg hpath, if_neg fun h => hpath h.1.symm, find]

def Ordered (sections : IniSections) : Prop :=
  OrderedMap.Ascending sections ∧ ∀ s ∈ sections, OrderedMap.Ascending s.2

theorem Ordered.store (h : sections.Ordered) (x : Setting) : (sections.store x).Ordered := by
  refine ⟨ascending_insert h.1 _ _, fun s hs => ?_⟩
  rcases mem_insert hs with rfl | hs
  · apply ascending_insert
    cases hlookup : OrderedMap.lookup x.path sections with
    | none => exact List.Pairwise.nil
    | some es => exact h.2 _ (mem_of_lookup hlookup)
  · exact h.2 s hs

theorem Ordered.mem_entries (h : sections.Ordered) {x : Setting} :
    x ∈ sections.entries ↔ sections.find x.path x.key = some x.value := by
  rw [entries, mem_flatMap, find]
  constructor
  · rintro ⟨s, hs, hx⟩
    obtain ⟨e, he, rfl⟩ := mem_map.mp hx
    rw [lookup_of_mem h.1 hs, bind_some]
    exact lookup_of_mem (h.2 s hs) he
  · intro hfind
    obtain ⟨es, hes, hvalue⟩ := bind_eq_some_iff.mp hfind
    refine ⟨_, mem_of_lookup hes, mem_map.mpr ?_⟩
    exact ⟨_, mem_of_lookup hvalue, rfl⟩

end IniSections

theorem mem_entries_sectionsOf {f : Format} {ms : Members} {x : Setting} :
    x ∈ (sectionsOf f ms).entries ↔ lastSet (settings f ms) x.path x.key = some x := by
  have hfold : ∀ xs : List Setting, (xs.foldl IniSections.store []).Ordered ∧
      (xs.foldl IniSections.store []).find x.path x.key =
        (lastSet xs x.path x.key).map Setting.value := by
    intro xs
    induction xs using List.reverseRecOn with
    | nil => exact ⟨⟨List.Pairwise.nil, forall_mem_nil _⟩, rfl⟩
    | append_singleton xs y ih =>
      rw [foldl_append, foldl_cons, foldl_nil]
      refine ⟨ih.1.store y, ?_⟩
      rw [IniSections.find_store, lastSet_concat, ih.2]
      split_ifs <;> rfl
  obtain ⟨hordered, hfind⟩ := hfold (settings f ms)
  rw [sectionsOf, hordered.mem_entries, hfind, map_eq_some_iff]
  constructor
  · rintro ⟨y, hy, hvalue⟩
    obtain ⟨hpath, hkey⟩ := same_of_lastSet hy
    have heq : y = x := Setting.ext hpath hkey hvalue
    exact heq ▸ hy
  · intro hx
    exact ⟨x, hx, rfl⟩

/-! ## Precedence -/

section Precedence

variable {f : Format}

/-- A member of a bundle or of the override that is written to the section and key of one of the
override's stands under the same names, or has the same value. -/
def Unaliased (f : Format) (bundles : List Document) (hostOverride : Document) : Prop :=
  ∀ l ∈ leaves [] hostOverride.1.members, ∀ d ∈ hostOverride :: bundles,
    ∀ l' ∈ leaves [] d.1.members, (l'.setting f).path = (l.setting f).path → l'.key = l.key →
      l'.names = l.names ∨ f.rendered l'.value = f.rendered l.value

def aliasedBundle : Document :=
  ⟨.object [("a/b".toList, .object [("x".toList, .string "0".toList)]),
      ("a".toList, .object [("b".toList, .object [("k".toList, .string "bundle".toList)])])],
    by simp [Json.Unique, Json.UniqueMembers, names]⟩

def aliasedOverride : Document :=
  ⟨.object [("a/b".toList, .object [("k".toList, .string "host".toList)])],
    by simp [Json.Unique, Json.UniqueMembers, names]⟩

def plainBundle : Document :=
  ⟨.object [("a".toList, .object [("k".toList, .string "bundle".toList)]),
      ("a/b".toList, .object [("k".toList, .string "bundle".toList)])],
    by simp [Json.Unique, Json.UniqueMembers, names]⟩

end Precedence

end Nscp.Onboarding
