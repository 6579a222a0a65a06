import Nscp.Service.FactRepository
import Nscp.Library.Runs

/-!
# What the fact repository keeps

The five tables and the running size agree after every sequence of calls, the document
stays within its budget and its rules, a plugin only touches its own sets, and the
revision counts the calls that change the document.
-/

namespace Nscp.Service.Facts.Repository

open AList List Option Table

variable {codec : Codec} {r r' s r'' : Repository} {name k : String} {bytes : List UInt8}

/-- The tables agree with each other and hold proper sets. -/
structure Consistent (codec : Codec) (r : Repository) : Prop where
  encoded : ∀ k, r.encoded.lookup k = (r.sets.lookup k).map codec.serialize
  owners : ∀ k, (r.owners.lookup k).isSome = (r.sets.lookup k).isSome
  size : r.size = total length r.encoded
  gathered : ∀ k, (r.gathered.lookup k).isSome → (r.sets.lookup k).isSome
  rules : ∀ k object, r.sets.lookup k = some object → isValidKey k = true ∧ WellFormed object

/-- The repository between two calls. -/
structure Valid (codec : Codec) (r : Repository) : Prop extends Consistent codec r where
  budget : r.size ≤ r.maxSize

structure SameFacts (r r' : Repository) : Prop where
  sets : r'.sets = r.sets
  encoded : r'.encoded = r.encoded
  size : r'.size = r.size
  owners : r'.owners = r.owners
  gathered : r'.gathered = r.gathered
  revision : r'.revision = r.revision
  maxSize : r'.maxSize = r.maxSize

theorem SameFacts.refl (r : Repository) : SameFacts r r := ⟨rfl, rfl, rfl, rfl, rfl, rfl, rfl⟩

theorem SameFacts.consistent (h : SameFacts r r') (hr : Consistent codec r) :
    Consistent codec r' := by
  obtain ⟨hsets, hencoded, hsize, howners, hgathered, -, -⟩ := h
  refine ⟨?_, ?_, ?_, ?_, ?_⟩
  · rw [hsets, hencoded]
    exact hr.encoded
  · rw [hsets, howners]
    exact hr.owners
  · rw [hsize, hencoded]
    exact hr.size
  · rw [hsets, hgathered]
    exact hr.gathered
  · rw [hsets]
    exact hr.rules

theorem SameFacts.valid (h : SameFacts r r') (hr : Valid codec r) : Valid codec r' :=
  ⟨h.consistent hr.toConsistent, by rw [h.size, h.maxSize]; exact hr.budget⟩

/-! ## Calls that leave the facts alone -/

theorem sameFacts_freezeLocked (codec : Codec) (r : Repository) (setsChange : Bool) :
    SameFacts r (r.freezeLocked codec setsChange) := by
  simp only [freezeLocked]
  split_ifs <;> exact ⟨rfl, rfl, rfl, rfl, rfl, rfl, rfl⟩

theorem sameFacts_hashLocked (json : String) : SameFacts r (r.hashLocked codec json).1 := by
  simp only [hashLocked]
  split_ifs <;> exact ⟨rfl, rfl, rfl, rfl, rfl, rfl, rfl⟩

theorem sameFacts_frozenHashLocked (state : Frozen) :
    SameFacts r (r.frozenHashLocked codec state).1 := by
  rw [frozenHashLocked]
  split
  · split_ifs
    · exact sameFacts_hashLocked _
    · exact .refl r
  · split_ifs <;> exact ⟨rfl, rfl, rfl, rfl, rfl, rfl, rfl⟩

theorem sameFacts_getHash : SameFacts r (r.getHash codec).1 := by
  rw [getHash]
  split
  · exact sameFacts_frozenHashLocked _
  · split_ifs
    · exact .refl r
    · exact sameFacts_hashLocked _

theorem sameFacts_getSnapshot : SameFacts r (r.getSnapshot codec).1 := by
  rw [getSnapshot]
  split
  · rw [frozenSnapshotLocked]
    split
    · exact sameFacts_hashLocked _
    · exact sameFacts_frozenHashLocked _
  · exact sameFacts_hashLocked _

theorem sameFacts_endRound : SameFacts r r.endRound := by
  rw [endRound]
  split_ifs <;> exact ⟨rfl, rfl, rfl, rfl, rfl, rfl, rfl⟩

theorem sameFacts_markCollected (timestamp : String) :
    SameFacts r (r.markCollected codec timestamp) := by
  rw [markCollected]
  split_ifs
  · exact .refl r
  · exact { sameFacts_freezeLocked codec r false with }

/-! ## Erasing -/

structure Dropped (names : List String) (r r' : Repository) : Prop where
  sets : ∀ k, r'.sets.lookup k = if k ∈ names then none else r.sets.lookup k
  owners : ∀ k, r'.owners.lookup k = if k ∈ names then none else r.owners.lookup k
  gathered : ∀ k, r'.gathered.lookup k = if k ∈ names then none else r.gathered.lookup k
  revision : r'.revision = r.revision
  maxSize : r'.maxSize = r.maxSize
  size : r'.size ≤ r.size

theorem eraseLocked_of_none (h : r.encoded.lookup name = none) :
    r.eraseLocked codec name = ({ r with owners := r.owners.erase name }, false) := by
  simp [eraseLocked, h]

theorem eraseLocked_of_some (codec : Codec) (h : r.encoded.lookup name = some bytes) :
    (r.eraseLocked codec name).2 = true ∧ (r.eraseLocked codec name).1.sets = r.sets.erase name ∧
      (r.eraseLocked codec name).1.encoded = r.encoded.erase name ∧
      (r.eraseLocked codec name).1.size = r.size - bytes.length ∧
      (r.eraseLocked codec name).1.owners = r.owners.erase name ∧
      (r.eraseLocked codec name).1.gathered = r.gathered.erase name ∧
      (r.eraseLocked codec name).1.revision = r.revision ∧
      (r.eraseLocked codec name).1.maxSize = r.maxSize := by
  obtain ⟨hsets, hencoded, hsize, howners, hgathered, hrevision, hmaxSize⟩ :=
    sameFacts_freezeLocked codec { r with owners := r.owners.erase name } true
  simp only [eraseLocked, h]
  rw [hsets, hencoded, hsize, howners, hgathered, hrevision, hmaxSize]
  exact ⟨trivial, rfl, rfl, rfl, rfl, rfl, rfl, rfl⟩

variable {β : Type} {names names' : List String} {t : Table String β}

theorem lookup_erase_mem (t : Table String β) (name k : String) :
    (t.erase name).lookup k = if k ∈ [name] then none else t.lookup k := by
  rw [lookup_erase_eq_if]
  simp

theorem lookup_of_none (h : t.lookup name = none) (k : String) :
    t.lookup k = if k ∈ [name] then none else t.lookup k := by
  by_cases hk : k = name
  · rw [hk, h, ite_self]
  · rw [if_neg (by simpa using hk)]

theorem Dropped.consistent (h : Dropped names r r') (hr : Consistent codec r)
    (hencoded : ∀ k, r'.encoded.lookup k = if k ∈ names then none else r.encoded.lookup k)
    (hsize : r'.size = total length r'.encoded) : Consistent codec r' where
  encoded k := by
    rw [hencoded, h.sets, hr.encoded]
    split <;> rfl
  owners k := by
    rw [h.owners, h.sets]
    split
    · rfl
    · exact hr.owners k
  size := hsize
  gathered k := by
    rw [h.gathered, h.sets]
    split
    · exact id
    · exact hr.gathered k
  rules k object := by
    rw [h.sets]
    split
    · exact fun h => by cases h
    · exact hr.rules k object

theorem eraseLocked_spec (hr : Consistent codec r) (name : String) :
    Consistent codec (r.eraseLocked codec name).1 ∧ Dropped [name] r (r.eraseLocked codec name).1 ∧
      (r.eraseLocked codec name).2 = (r.sets.lookup name).isSome := by
  have hname := hr.encoded name
  cases hset : r.sets.lookup name with
  | none =>
    rw [hset] at hname
    have hgathered : r.gathered.lookup name = none := by
      have hstored := hr.gathered name
      rw [hset] at hstored
      simpa using hstored
    have hdropped : Dropped [name] r { r with owners := r.owners.erase name } :=
      ⟨lookup_of_none hset, lookup_erase_mem r.owners name, lookup_of_none hgathered, rfl, rfl,
        le_rfl⟩
    rw [eraseLocked_of_none hname]
    exact ⟨hdropped.consistent hr (lookup_of_none hname) hr.size, hdropped, rfl⟩
  | some object =>
    rw [hset] at hname
    obtain ⟨hflag, hsets, hencoded, hsize, howners, hgathered, hrevision, hmaxSize⟩ :=
      eraseLocked_of_some codec hname
    have hdropped : Dropped [name] r (r.eraseLocked codec name).1 := by
      refine ⟨?_, ?_, ?_, hrevision, hmaxSize, hsize.trans_le (Nat.sub_le _ _)⟩
      · rw [hsets]
        exact lookup_erase_mem _ name
      · rw [howners]
        exact lookup_erase_mem _ name
      · rw [hgathered]
        exact lookup_erase_mem _ name
    refine ⟨hdropped.consistent hr ?_ ?_, hdropped, hflag⟩
    · rw [hencoded]
      exact lookup_erase_mem _ name
    · have htotal := total_erase length r.encoded name
      rw [hname, ← hr.size] at htotal
      rw [hencoded, hsize, ← htotal]
      exact Nat.add_sub_cancel _ _

/-! ## Erasing several sets -/

theorem Dropped.trans (h : Dropped names r r') (h' : Dropped names' r' r'') :
    Dropped (names ++ names') r r'' where
  sets k := by
    rw [h'.sets, h.sets]
    by_cases hk : k ∈ names <;> by_cases hk' : k ∈ names' <;> simp [hk, hk']
  owners k := by
    rw [h'.owners, h.owners]
    by_cases hk : k ∈ names <;> by_cases hk' : k ∈ names' <;> simp [hk, hk']
  gathered k := by
    rw [h'.gathered, h.gathered]
    by_cases hk : k ∈ names <;> by_cases hk' : k ∈ names' <;> simp [hk, hk']
  revision := h'.revision.trans h.revision
  maxSize := h'.maxSize.trans h.maxSize
  size := h'.size.trans h.size

theorem Dropped.nil (r : Repository) : Dropped [] r r :=
  ⟨fun _ => rfl, fun _ => rfl, fun _ => rfl, rfl, rfl, le_rfl⟩

theorem eraseEach_spec (hr : Consistent codec r) (names : List String) :
    Consistent codec (r.eraseEach codec names).1 ∧ Dropped names r (r.eraseEach codec names).1 ∧
      ((r.eraseEach codec names).2 = true ↔ ∃ k ∈ names, (r.sets.lookup k).isSome) := by
  have hloop : ∀ (names done : List String) (p : Repository × Bool),
      Consistent codec p.1 → Dropped done r p.1 →
      (p.2 = true ↔ ∃ k ∈ done, (r.sets.lookup k).isSome) →
      let q := names.foldl (fun p factSet =>
        let q := p.1.eraseLocked codec factSet
        (q.1, q.2 || p.2)) p
      Consistent codec q.1 ∧ Dropped (done ++ names) r q.1 ∧
        (q.2 = true ↔ ∃ k ∈ done ++ names, (r.sets.lookup k).isSome) := by
    intro names
    induction names with
    | nil =>
      intro done p hp hdone hflag
      rw [append_nil]
      exact ⟨hp, hdone, hflag⟩
    | cons name names ih =>
      intro done p hp hdone hflag
      obtain ⟨herased, hdrop, hstored⟩ := eraseLocked_spec hp name
      rw [append_cons]
      refine ih (done ++ [name]) _ herased (hdone.trans hdrop) ?_
      rw [Bool.or_eq_true, hstored, hflag, hdone.sets]
      by_cases hname : name ∈ done
      · simp only [hname, if_true, isSome_none, Bool.false_eq_true, false_or,
          mem_append, mem_singleton]
        refine exists_congr fun k => and_congr_left fun _ => ?_
        exact ⟨.inl, fun h => h.elim id fun heq => heq ▸ hname⟩
      · simp only [hname, if_false, mem_append, mem_singleton, or_and_right,
          exists_or, exists_eq_left]
        exact or_comm
  have hspec := hloop names [] (r, false) hr (.nil r) (by simp)
  rw [nil_append] at hspec
  exact hspec

/-! ## The revision -/

/-- The revision counts a change of the document and nothing else. -/
structure Counted (r r' : Repository) : Prop where
  changed : (∃ k, r'.sets.lookup k ≠ r.sets.lookup k) → r'.revision = r.revision + 1
  unchanged : (∀ k, r'.sets.lookup k = r.sets.lookup k) → r'.revision = r.revision

theorem SameFacts.counted (h : SameFacts r r') : Counted r r' := by
  refine ⟨fun ⟨k, hk⟩ => absurd ?_ hk, fun _ => h.revision⟩
  rw [h.sets]

theorem Dropped.counted_touch (h : Dropped names r r')
    (hstored : ∃ k ∈ names, (r.sets.lookup k).isSome) : Counted r r'.touch := by
  refine ⟨fun _ => congrArg (· + 1) h.revision, fun hsame => ?_⟩
  obtain ⟨k, hk, hsome⟩ := hstored
  have hgone : r'.sets.lookup k = none := by rw [h.sets, if_pos hk]
  have hkept : r'.sets.lookup k = r.sets.lookup k := hsame k
  rw [← hkept, hgone] at hsome
  cases hsome

theorem Dropped.counted (h : Dropped names r r')
    (hstored : ¬ ∃ k ∈ names, (r.sets.lookup k).isSome) : Counted r r' := by
  refine ⟨fun ⟨k, hk⟩ => absurd ?_ hk, fun _ => h.revision⟩
  rw [h.sets]
  split
  next hmem =>
    by_contra hne
    exact hstored ⟨k, hmem, isSome_iff_ne_none.mpr (Ne.symm hne)⟩
  next => rfl

theorem eraseAll_spec (hr : Valid codec r) (names : List String) :
    Valid codec (r.eraseAll codec names) ∧ Counted r (r.eraseAll codec names) ∧
      ∀ k ∉ names, (r.eraseAll codec names).sets.lookup k = r.sets.lookup k ∧
        (r.eraseAll codec names).owners.lookup k = r.owners.lookup k ∧
        (r.eraseAll codec names).gathered.lookup k = r.gathered.lookup k := by
  obtain ⟨hconsistent, hdropped, hflag⟩ := eraseEach_spec hr.toConsistent names
  have hbudget : (r.eraseEach codec names).1.size ≤ (r.eraseEach codec names).1.maxSize := by
    rw [hdropped.maxSize]
    exact hdropped.size.trans hr.budget
  have hother : ∀ k ∉ names, (r.eraseEach codec names).1.sets.lookup k = r.sets.lookup k ∧
        (r.eraseEach codec names).1.owners.lookup k = r.owners.lookup k ∧
        (r.eraseEach codec names).1.gathered.lookup k = r.gathered.lookup k := fun k hk =>
    ⟨by rw [hdropped.sets, if_neg hk], by rw [hdropped.owners, if_neg hk],
      by rw [hdropped.gathered, if_neg hk]⟩
  simp only [eraseAll]
  split
  next hchanged =>
    obtain ⟨hencoded, howners, hsize, hgathered, hrules⟩ := hconsistent
    exact ⟨⟨⟨hencoded, howners, hsize, hgathered, hrules⟩, hbudget⟩,
      hdropped.counted_touch (hflag.mp hchanged), hother⟩
  next hsame =>
    exact ⟨⟨hconsistent, hbudget⟩, hdropped.counted fun h => hsame (hflag.mpr h), hother⟩

/-! ## Storing a set -/

inductive SetCase (codec : Codec) (r : Repository) (name : String) (pluginId : ℕ)
    (value : Object) : Repository → SetResult → Prop where
  | rejected (error : String) : SetCase codec r name pluginId value r (.rejected error)
  | unchanged (howner : ∀ owner, r.owners.lookup name = some owner → owner = pluginId)
      (hsame : r.encoded.lookup name = some (codec.serialize (sortFields value))) :
      SetCase codec r name pluginId value
        { r with owners := r.owners.insert name pluginId } .unchanged
  | changed (hkey : isValidKey name = true) (hvalue : validateObject name 1 value = .ok ())
      (howner : ∀ owner, r.owners.lookup name = some owner → owner = pluginId)
      (hnew : r.encoded.lookup name ≠ some (codec.serialize (sortFields value)))
      (hbudget : r.size - ((r.encoded.lookup name).map length).getD 0 +
        (codec.serialize (sortFields value)).length ≤ r.maxSize) :
      SetCase codec r name pluginId value
        { r.freezeLocked codec true with
          sets := (r.freezeLocked codec true).sets.insert name (sortFields value)
          encoded := (r.freezeLocked codec true).encoded.insert name
            (codec.serialize (sortFields value))
          size := r.size - ((r.encoded.lookup name).map length).getD 0 +
            (codec.serialize (sortFields value)).length
          owners := (r.freezeLocked codec true).owners.insert name pluginId }.touch .changed

theorem setCase_set (codec : Codec) (r : Repository) (name : String) (pluginId : ℕ)
    (value : Object) :
    SetCase codec r name pluginId value (r.set codec name pluginId value).1
      (r.set codec name pluginId value).2 := by
  simp only [set]
  split
  next => exact .rejected _
  next hkey =>
    split
    next => exact .rejected _
    next hvalue =>
      split
      next => exact .rejected _
      next howner =>
        have howner' : ∀ owner, r.owners.lookup name = some owner → owner = pluginId := by
          intro owner hsome
          by_contra hne
          rw [hsome] at howner
          exact howner (by simpa using hne)
        split
        next hsame => exact .unchanged howner' hsame
        next hnew =>
          split
          next => exact .rejected _
          next hbudget =>
            exact .changed (by simpa using hkey) hvalue howner' hnew (Nat.le_of_not_lt hbudget)

variable {pluginId : ℕ}

theorem set_rejected {value : Object} {error : String}
    (h : (r.set codec name pluginId value).2 = .rejected error) :
    (r.set codec name pluginId value).1 = r := by
  have hcase := setCase_set codec r name pluginId value
  rw [h] at hcase
  generalize (r.set codec name pluginId value).1 = r' at hcase
  cases hcase
  rfl

theorem lookup_insert_owner {t : Table String ℕ} (hmem : (t.lookup name).isSome)
    (howner : ∀ owner, t.lookup name = some owner → owner = pluginId) (k : String) :
    (t.insert name pluginId).lookup k = t.lookup k := by
  rw [lookup_insert_eq_if]
  split
  next hk =>
    obtain ⟨owner, hsome⟩ := isSome_iff_exists.mp hmem
    rw [hk, hsome, howner owner hsome]
  next => rfl

/-- Everything there is about one name. -/
structure Untouched (k : String) (r r' : Repository) : Prop where
  sets : r'.sets.lookup k = r.sets.lookup k
  encoded : r'.encoded.lookup k = r.encoded.lookup k
  owners : r'.owners.lookup k = r.owners.lookup k
  gathered : r'.gathered.lookup k = r.gathered.lookup k

structure Keeps (codec : Codec) (plugin : Option ℕ) (r r' : Repository) : Prop where
  valid : Valid codec r'
  counted : Counted r r'
  others : ∀ pluginId ∈ plugin, ∀ k owner, r.owners.lookup k = some owner → owner ≠ pluginId →
    Untouched k r r'

theorem Keeps.of_some (hvalid : Valid codec r') (hcounted : Counted r r')
    (hothers : ∀ k owner, r.owners.lookup k = some owner → owner ≠ pluginId → Untouched k r r') :
    Keeps codec (some pluginId) r r' :=
  ⟨hvalid, hcounted, fun _ hid => some.inj hid ▸ hothers⟩

theorem Keeps.of_none (hvalid : Valid codec r') (hcounted : Counted r r') :
    Keeps codec none r r' :=
  ⟨hvalid, hcounted, fun _ hid => nomatch hid⟩

theorem SameFacts.keeps (h : SameFacts r r') (hr : Valid codec r) : Keeps codec none r r' :=
  .of_none (h.valid hr) h.counted

/-- Whatever `set` makes of the value, the tables agree behind it, the revision has counted the
change, and what other plugins own is untouched. -/
theorem set_spec (hr : Valid codec r) (name : String) (pluginId : ℕ) (value : Object) :
    Keeps codec (some pluginId) r (r.set codec name pluginId value).1 := by
  have hcase := setCase_set codec r name pluginId value
  generalize (r.set codec name pluginId value).1 = r' at hcase ⊢
  generalize (r.set codec name pluginId value).2 = result at hcase
  cases hcase with
  | rejected error =>
    exact .of_some hr (SameFacts.refl r).counted fun k _ _ _ => ⟨rfl, rfl, rfl, rfl⟩
  | unchanged howner hsame =>
    have hstored : (r.owners.lookup name).isSome := by
      have hset := hr.encoded name
      rw [hsame] at hset
      obtain ⟨object, hobject, -⟩ := map_eq_some_iff.mp hset.symm
      rw [hr.owners, hobject]
      rfl
    have howners := lookup_insert_owner hstored howner
    refine .of_some ⟨⟨hr.encoded, fun k => ?_, hr.size, hr.gathered, hr.rules⟩, hr.budget⟩ ?_ ?_
    · rw [howners]
      exact hr.owners k
    · exact ⟨fun ⟨k, hk⟩ => absurd rfl hk, fun _ => rfl⟩
    · exact fun k _ _ _ => ⟨rfl, rfl, howners k, rfl⟩
  | changed hkey hvalue howner hnew hbudget =>
    obtain ⟨hsets, hencoded, hsize, howners, hgathered, hrevision, hmaxSize⟩ :=
      sameFacts_freezeLocked codec r true
    simp only [touch]
    rw [hsets, hencoded, howners, hgathered, hrevision, hmaxSize]
    refine .of_some
      ⟨⟨fun k => ?_, fun k => ?_, ?_, fun k hk => ?_, fun k object hobject => ?_⟩, hbudget⟩
      ⟨fun _ => rfl, fun hsame => absurd ?_ hnew⟩ fun k owner hk hother => ?_
    · rw [lookup_insert_eq_if, lookup_insert_eq_if]
      split
      · rfl
      · exact hr.encoded k
    · rw [lookup_insert_eq_if, lookup_insert_eq_if]
      split
      · rfl
      · exact hr.owners k
    · have htotal := total_erase length r.encoded name
      rw [← hr.size] at htotal
      rw [total_insert]
      change r.size - ((r.encoded.lookup name).map length).getD 0 + _ = _
      omega
    · rw [lookup_insert_eq_if]
      split
      · rfl
      · exact hr.gathered k hk
    · rw [lookup_insert_eq_if] at hobject
      split at hobject
      next hk =>
        cases hobject
        exact ⟨hk ▸ hkey, wellFormed_sortFields hvalue⟩
      next => exact hr.rules k object hobject
    · have hname := hsame name
      rw [lookup_insert] at hname
      rw [hr.encoded, ← hname]
      rfl
    · have hne : k ≠ name := fun heq => hother (howner owner (heq ▸ hk))
      exact ⟨lookup_insert_ne hne, lookup_insert_ne hne, lookup_insert_ne hne, rfl⟩

/-! ## The sets of a plugin -/

theorem mem_inOrder {b : β} :
    (⟨k, b⟩ : Sigma fun _ : String => β) ∈ inOrder t ↔ t.lookup k = some b := by
  rw [inOrder, (mergeSort_perm _ _).mem_iff, mem_entries_lookup]

theorem mem_ownedBy : k ∈ r.ownedBy pluginId ↔ r.owners.lookup k = some pluginId := by
  rw [ownedBy, mem_filterMap]
  constructor
  · rintro ⟨⟨name, owner⟩, hmem, hk⟩
    split at hk
    next howner =>
      cases hk
      rw [← howner]
      exact mem_inOrder.mp hmem
    next => cases hk
  · exact fun hk => ⟨⟨k, pluginId⟩, mem_inOrder.mpr hk, if_pos rfl⟩

theorem eraseOwned_spec (hr : Valid codec r) (declared : Table ℕ (List String))
    (hnames : ∀ k ∈ names, r.owners.lookup k = some pluginId) :
    Keeps codec (some pluginId) r (eraseAll codec { r with declared := declared } names) := by
  have hdeclared : SameFacts r { r with declared := declared } :=
    ⟨rfl, rfl, rfl, rfl, rfl, rfl, rfl⟩
  obtain ⟨hvalid, hcounted, hrest⟩ := eraseAll_spec (hdeclared.valid hr) names
  refine .of_some hvalid ⟨hcounted.changed, hcounted.unchanged⟩ fun k owner hk hother => ?_
  have hnot : k ∉ names := fun hmem => by
    have howner := hnames k hmem
    rw [hk] at howner
    exact hother (some.inj howner)
  obtain ⟨hsets, howners, hgathered⟩ := hrest k hnot
  refine ⟨hsets, ?_, howners, hgathered⟩
  rw [hvalid.encoded, hr.encoded, hsets]

/-! ## The budget -/

theorem mem_of_largest {entries : List (Sigma fun _ : String => List UInt8)}
    (h : largest entries = some name) : ∃ bytes, ⟨name, bytes⟩ ∈ entries := by
  cases entries with
  | nil => cases h
  | cons entry entries =>
    have hbest : ∀ (entries : List (Sigma fun _ : String => List UInt8))
        (best : Sigma fun _ : String => List UInt8),
        entries.foldl (fun best e => if best.2.length < e.2.length then e else best) best ∈
          best :: entries := by
      intro entries
      induction entries with
      | nil => exact fun best => mem_cons_self
      | cons e entries ih =>
        intro best
        rw [foldl_cons]
        split
        · exact mem_cons_of_mem best (ih e)
        · obtain heq | hmem := mem_cons.mp (ih best)
          · rw [heq]
            exact mem_cons_self
          · exact mem_cons_of_mem best (mem_cons_of_mem e hmem)
    cases h
    exact ⟨_, hbest entries entry⟩

variable {t : Table String (List UInt8)}

theorem inOrder_eq_nil_of_largest (h : largest (inOrder t) = none) : t.entries = [] := by
  cases hentries : inOrder t with
  | nil =>
    have hperm := mergeSort_perm t.entries fun a b => decide (a.1 ≤ b.1)
    change (inOrder t).Perm _ at hperm
    rw [hentries] at hperm
    exact hperm.symm.eq_nil
  | cons entry entries =>
    rw [hentries] at h
    cases h

theorem length_entries_erase (h : t.lookup name = some bytes) :
    (t.erase name).entries.length + 1 = t.entries.length := by
  have hkeys : ∀ t : Table String (List UInt8), t.entries.length = t.keys.length := fun t =>
    (length_map _).symm
  have hmem : name ∈ t.keys := lookup_isSome.mp (isSome_iff_exists.mpr ⟨bytes, h⟩)
  rw [hkeys, hkeys, keys_erase]
  exact length_erase_add_one hmem

/-- Each turn drops a stored set, so there are enough turns to fit the size. -/
theorem shrink_spec (turns : ℕ) (hs : Consistent codec s) (dropped : List String)
    (hturns : s.encoded.entries.length ≤ turns) (hdropped : Dropped dropped r s)
    (hstored : ∀ k ∈ dropped, (r.sets.lookup k).isSome) :
    Consistent codec (shrink codec turns s dropped).1 ∧
      (shrink codec turns s dropped).1.size ≤ (shrink codec turns s dropped).1.maxSize ∧
      Dropped (shrink codec turns s dropped).2 r (shrink codec turns s dropped).1 ∧
      ∀ k ∈ (shrink codec turns s dropped).2, (r.sets.lookup k).isSome := by
  have hempty : ∀ s : Repository, Consistent codec s → s.encoded.entries = [] → s.size = 0 := by
    intro s hs hentries
    rw [hs.size, total, hentries]
    rfl
  induction turns generalizing s dropped with
  | zero =>
    have hzero := hempty s hs (eq_nil_of_length_eq_zero (Nat.le_zero.mp hturns))
    exact ⟨hs, hzero.trans_le (Nat.zero_le _), hdropped, hstored⟩
  | succ turns ih =>
    rw [shrink]
    split
    next hfits => exact ⟨hs, hfits, hdropped, hstored⟩
    next hbig =>
      split
      next hnone =>
        have hzero := hempty s hs (inOrder_eq_nil_of_largest hnone)
        exact absurd (hzero.trans_le (Nat.zero_le _)) hbig
      next name hname =>
        obtain ⟨bytes, hmem⟩ := mem_of_largest hname
        have hbytes := mem_inOrder.mp hmem
        have hset : (s.sets.lookup name).isSome := by
          have hencoded := hs.encoded name
          rw [hbytes] at hencoded
          obtain ⟨object, hobject, -⟩ := map_eq_some_iff.mp hencoded.symm
          rw [hobject]
          rfl
        obtain ⟨herased, hone, -⟩ := eraseLocked_spec hs name
        have hdrop := hdropped.trans hone
        have hlength := length_entries_erase hbytes
        refine ih ?_ (dropped ++ [name]) ?_ ?_ ?_
        · exact ⟨herased.encoded, herased.owners, herased.size, herased.gathered, herased.rules⟩
        · change (s.eraseLocked codec name).1.encoded.entries.length ≤ turns
          rw [(eraseLocked_of_some codec hbytes).2.2.1]
          omega
        · exact ⟨hdrop.sets, hdrop.owners, hdrop.gathered, hdrop.revision, hdrop.maxSize,
            hdrop.size⟩
        · intro k hk
          obtain hold | hnew := mem_append.mp hk
          · exact hstored k hold
          · rw [mem_singleton.mp hnew]
            by_cases hgone : name ∈ dropped
            · exact hstored name hgone
            · rw [hdropped.sets, if_neg hgone] at hset
              exact hset

theorem setMaxSize_spec (hr : Valid codec r) (maxSize : ℕ) :
    Keeps codec none r (r.setMaxSize codec maxSize).1 := by
  simp only [setMaxSize]
  split
  next => exact (SameFacts.refl r).keeps hr
  next =>
    have hr' : Consistent codec { r with maxSize := maxSize } :=
      ⟨hr.encoded, hr.owners, hr.size, hr.gathered, hr.rules⟩
    obtain ⟨hconsistent, hbudget, hdropped, hstored⟩ :=
      shrink_spec r.encoded.entries.length hr' [] le_rfl (.nil _) (forall_mem_nil _)
    generalize shrink codec r.encoded.entries.length { r with maxSize := maxSize } [] = p at *
    cases hnames : p.2 with
    | nil =>
      rw [hnames] at hdropped
      have hcounted := hdropped.counted (by simp)
      exact .of_none ⟨hconsistent, hbudget⟩ ⟨hcounted.changed, hcounted.unchanged⟩
    | cons name names =>
      rw [hnames] at hdropped hstored
      have hcounted := hdropped.counted_touch
        ⟨name, mem_cons_self, hstored name mem_cons_self⟩
      exact .of_none ⟨⟨hconsistent.encoded, hconsistent.owners, hconsistent.size,
        hconsistent.gathered, hconsistent.rules⟩, hbudget⟩ ⟨hcounted.changed, hcounted.unchanged⟩

/-! ## The other calls -/

theorem remove_fst (codec : Codec) (r : Repository) (name : String) :
    (r.remove codec name).1 = r.eraseAll codec [name] := by
  simp only [remove, eraseAll, eraseEach, foldl_cons, foldl_nil, Bool.or_false]
  split <;> rfl

theorem markGathered_spec (hr : Valid codec r) (name timestamp : String) :
    Keeps codec none r (r.markGathered name timestamp) := by
  rw [markGathered]
  split
  next => exact (SameFacts.refl r).keeps hr
  next hstored =>
    have hset : (r.sets.lookup name).isSome := by
      cases h : r.sets.lookup name with
      | none => exact absurd (by rw [h]; rfl) hstored
      | some object => rfl
    have hkeeps : ∀ gathered : Table String String,
        (∀ k, (gathered.lookup k).isSome → (r.sets.lookup k).isSome) →
        Keeps codec none r { r with gathered := gathered } := fun _ hgathered =>
      .of_none ⟨⟨hr.encoded, hr.owners, hr.size, hgathered, hr.rules⟩, hr.budget⟩
        ⟨fun ⟨k, hk⟩ => absurd rfl hk, fun _ => rfl⟩
    split
    · refine hkeeps _ fun k hk => ?_
      rw [lookup_erase_eq_if] at hk
      split at hk
      · cases hk
      · exact hr.gathered k hk
    · refine hkeeps _ fun k hk => ?_
      rw [lookup_insert_eq_if] at hk
      split at hk
      next heq => exact heq ▸ hset
      next => exact hr.gathered k hk

/-! ## Runs -/

/-- The plugin a call is made for. -/
def Op.plugin : Op → Option ℕ
  | .set _ pluginId _ => some pluginId
  | .removeOwnedBy pluginId => some pluginId
  | .retainOnly pluginId _ => some pluginId
  | _ => none

theorem step_spec (hr : Valid codec r) (op : Op) : Keeps codec op.plugin r (r.step codec op) := by
  cases op with
  | set name pluginId value => exact set_spec hr name pluginId value
  | removeOwnedBy pluginId => exact eraseOwned_spec hr _ fun _ hk => mem_ownedBy.mp hk
  | retainOnly pluginId produced =>
    exact eraseOwned_spec hr _ fun _ hk => mem_ownedBy.mp (mem_filter.mp hk).1
  | remove name =>
    obtain ⟨hvalid, hcounted, -⟩ := eraseAll_spec hr [name]
    rw [step, remove_fst]
    exact .of_none hvalid hcounted
  | markGathered name timestamp => exact markGathered_spec hr name timestamp
  | setMaxSize maxSize => exact setMaxSize_spec hr maxSize
  | markCollected timestamp => exact (sameFacts_markCollected timestamp).keeps hr
  | setErrors errors | beginRound =>
    exact SameFacts.keeps ⟨rfl, rfl, rfl, rfl, rfl, rfl, rfl⟩ hr
  | endRound => exact sameFacts_endRound.keeps hr
  | getHash => exact sameFacts_getHash.keeps hr
  | getSnapshot => exact sameFacts_getSnapshot.keeps hr

theorem valid_new (codec : Codec) : Valid codec new where
  encoded _ := rfl
  owners _ := rfl
  size := rfl
  gathered _ h := h
  rules _ _ h := by cases h
  budget := Nat.zero_le _

theorem valid_run (codec : Codec) (ops : List Op) : Valid codec (run codec ops) :=
  Runs.foldl_invariant (f := step codec) (I := Valid codec) (fun _ op hr => (step_spec hr op).valid)
    (valid_new codec) ops

/-- After every sequence of calls the repository is valid, and a further call leaves the sets of
other plugins alone, changes nothing when it rejects a set, and moves the revision by one
exactly when it changes the document. -/
theorem valid_run_step (codec : Codec) (ops : List Op) :
    Valid codec (run codec ops) ∧ ∀ op, Counted (run codec ops) ((run codec ops).step codec op) ∧
        (∀ pluginId ∈ op.plugin, ∀ k owner, (run codec ops).owners.lookup k = some owner →
          owner ≠ pluginId → Untouched k (run codec ops) ((run codec ops).step codec op)) ∧
        ∀ name pluginId value error, op = .set name pluginId value →
          ((run codec ops).set codec name pluginId value).2 = .rejected error →
            (run codec ops).step codec op = run codec ops := by
  have hr := valid_run codec ops
  refine ⟨hr, fun op => ?_⟩
  obtain ⟨-, hcounted, hother⟩ := step_spec hr op
  refine ⟨hcounted, hother, fun name pluginId value error hop hrejected => ?_⟩
  rw [hop]
  exact set_rejected hrejected

end Nscp.Service.Facts.Repository
