import Nscp.Settings.Store

/-!
# The caches of the settings store

A store is seen through its staged removals, its cache and its backend.  The lemmas here
say what each operation does to the caches and what saving hands to the backend, and
that the caches stay coherent: the dirty flag of a cached value says whether it differs
from the backend, a removed key is not cached, and every noted name is cached.
-/

namespace Nscp.Settings

open List Backend Table

namespace Store

variable (s : Store)

/-! ## What reads see -/

def Removed (q : Key) : Prop := q ∈ s.settingsDeleteCache ∨ q.1 ∈ s.settingsDeletePathCache

instance (q : Key) : Decidable (s.Removed q) :=
  inferInstanceAs (Decidable (q ∈ s.settingsDeleteCache ∨ q.1 ∈ s.settingsDeletePathCache))

/-- The value below the staged removals. -/
def stored (q : Key) : Option Value :=
  ((s.settingsCache.lookup q).map Container.value).or (s.backend.getRealString q)

def visible : Plain := fun q => if s.Removed q then none else s.stored q

variable {s} in
theorem visible_of_removed {q : Key} (h : s.Removed q) : s.visible q = none := if_pos h

variable {s} in
theorem visible_of_not_removed {q : Key} (h : ¬ s.Removed q) : s.visible q = s.stored q := if_neg h

theorem visible_congr {s s' : Store} {q : Key} (hremoved : s.Removed q ↔ s'.Removed q)
    (hstored : ¬ s.Removed q → s.stored q = s'.stored q) : s.visible q = s'.visible q := by
  by_cases hq : s.Removed q
  · rw [visible_of_removed hq, visible_of_removed (hremoved.mp hq)]
  · rw [visible_of_not_removed hq, visible_of_not_removed (mt hremoved.mpr hq), hstored hq]

theorem getString_fst (path : Path) (key : Name) :
    (s.getString path key).1 = s.visible (path, key) := by
  by_cases hremoved : s.Removed (path, key)
  · rw [visible_of_removed hremoved, getString]
    rcases hremoved with hkey | hpath
    · rw [if_pos hkey]
    · rw [if_pos hpath, ite_self]
  · obtain ⟨hkey, hpath⟩ := not_or.mp hremoved
    rw [visible_of_not_removed hremoved, stored, getString, if_neg hkey, if_neg hpath]
    cases s.settingsCache.lookup (path, key) with
    | some c => rfl
    | none => cases s.backend.getRealString (path, key) <;> rfl

theorem hasKey_eq (path : Path) (key : Name) :
    s.hasKey path key = (s.visible (path, key)).isSome := by
  by_cases hremoved : s.Removed (path, key)
  · rw [visible_of_removed hremoved, hasKey]
    rcases hremoved with hkey | hpath
    · rw [if_pos hkey]
      rfl
    · rw [if_pos hpath, ite_self]
      rfl
  · obtain ⟨hkey, hpath⟩ := not_or.mp hremoved
    rw [visible_of_not_removed hremoved, stored, hasKey, if_neg hkey, if_neg hpath, hasRealKey]
    cases s.settingsCache.lookup (path, key) <;> simp

theorem mem_getRealKeys (b : Backend) (path : Path) (key : Name) :
    key ∈ b.getRealKeys path ↔ (b.getRealString (path, key)).isSome = true := by
  rw [getRealString, AList.lookup_isSome, AList.mem_keys, getRealKeys]
  simp

theorem mem_getKeys (path : Path) (key : Name) :
    key ∈ s.getKeys path ↔ ¬ s.Removed (sectionOf path, key) ∧
      (key ∈ s.cachedKeys (sectionOf path) ∨
        (s.backend.getRealString (sectionOf path, key)).isSome = true) := by
  simp only [getKeys, Removed]
  by_cases hpath : sectionOf path ∈ s.settingsDeletePathCache
  · simp [hpath]
  · rw [if_neg hpath, mem_filter, Finset.mem_sort, mem_toFinset, mem_append, mem_getRealKeys]
    simp [hpath, and_comm]

theorem getKeys_sorted (path : Path) : (s.getKeys path).Pairwise (· < ·) := by
  simp only [getKeys]
  split
  · exact List.Pairwise.nil
  · exact (Finset.sortedLT_sort _).pairwise.filter _

/-! ## What saving writes -/

def written (reSaveAll : Bool) (c : Container) : Option Value :=
  if c.dirty || reSaveAll then some c.value else none

theorem values_foldl_setRealPath (paths : List Path) (b : Backend) :
    (paths.foldl setRealPath b).values = b.values := by
  induction paths generalizing b with
  | nil => rfl
  | cons path paths ih => exact ih (b.setRealPath path)

theorem values_foldl_removeRealValue (keys : List Key) (b : Backend) :
    (keys.foldl removeRealValue b).values = keys.foldl (fun t q => t.erase q) b.values := by
  induction keys generalizing b with
  | nil => rfl
  | cons q keys ih => exact ih (b.removeRealValue q)

theorem getRealString_foldl_removeRealPath (paths : List Path) (b : Backend) (q : Key) :
    (paths.foldl removeRealPath b).getRealString q =
      if q.1 ∈ paths then none else b.getRealString q := by
  induction paths generalizing b with
  | nil => simp
  | cons path paths ih =>
    have hstep : (b.removeRealPath path).getRealString q =
        if q.1 = path then none else b.getRealString q := by
      rw [getRealString, removeRealPath, lookup_filter, getRealString]
      cases b.values.lookup q <;> simp [Option.filter]
    rw [foldl_cons, ih, hstep]
    by_cases hq : q.1 ∈ paths <;> simp [hq]

theorem values_foldl_setRealValue (entries : List (Sigma fun _ : Key => Container)) (b : Backend) :
    (entries.foldl (fun b e => b.setRealValue e.1 e.2) b).values =
      entries.foldl (fun t e => ((written false e.2).map (t.insert e.1)).getD t) b.values := by
  induction entries generalizing b with
  | nil => rfl
  | cons e entries ih =>
    have hstep : (b.setRealValue e.1 e.2).values =
        ((written false e.2).map (b.values.insert e.1)).getD b.values := by
      rw [setRealValue, written]
      cases e.2.dirty <;> rfl
    rw [foldl_cons, ih, hstep, foldl_cons]

theorem getRealString_save (reSaveAll : Bool) (q : Key) :
    (s.save reSaveAll).backend.getRealString q =
      ((s.settingsCache.lookup q).bind (written reSaveAll)).or
        (if s.Removed q then none else s.backend.getRealString q) := by
  have hremoved : (s.settingsDeletePathCache.foldl removeRealPath
      (s.settingsDeleteCache.foldl removeRealValue s.backend)).getRealString q =
      if s.Removed q then none else s.backend.getRealString q := by
    rw [getRealString_foldl_removeRealPath, getRealString, values_foldl_removeRealValue,
      lookup_foldl_erase]
    by_cases hremoved : s.Removed q
    · rw [if_pos hremoved]
      rcases hremoved with hkey | hpath
      · rw [if_pos hkey, ite_self]
      · rw [if_pos hpath]
    · obtain ⟨hkey, hpath⟩ := not_or.mp hremoved
      rw [if_neg hremoved, if_neg hkey, if_neg hpath]
      rfl
  have hcache : ((if reSaveAll then
      (mapValues (fun _ c => { c with dirty := true }) s.settingsCache : Table Key Container)
      else s.settingsCache).lookup q).bind (written false) =
      (s.settingsCache.lookup q).bind (written reSaveAll) := by
    cases reSaveAll with
    | false => rfl
    | true =>
      rw [if_pos rfl, lookup_mapValues]
      cases s.settingsCache.lookup q <;> simp [written]
  have hpaths : ∀ (paths : List Path) (b : Backend),
      (if reSaveAll then paths.foldl setRealPath b else b).values = b.values := by
    intro paths b
    split
    · exact values_foldl_setRealPath paths b
    · rfl
  rw [← hremoved, ← hcache, getRealString]
  simp only [save]
  rw [hpaths, values_foldl_setRealValue, values_foldl_setRealPath,
    lookup_foldl_insert _ (AList.nodupKeys _)]
  rfl

/-! ## The caches along a run -/

def Unchanged (current : Option Value) (value : Value) : Prop :=
  current = some value ∨ current = none ∧ value = []

instance (current : Option Value) (value : Value) : Decidable (Unchanged current value) :=
  inferInstanceAs (Decidable (current = some value ∨ current = none ∧ value = []))

structure Coherent : Prop where
  dirty : ∀ q c, s.settingsCache.lookup q = some c →
    c.dirty = !decide (Unchanged (s.backend.getRealString q) c.value)
  deleted : ∀ q ∈ s.settingsDeleteCache, s.settingsCache.lookup q = none
  named : ∀ path, ∀ key ∈ s.cachedKeys path, (s.settingsCache.lookup (path, key)).isSome = true
  unnamed : ∀ path ∈ s.settingsDeletePathCache, s.cachedKeys path = []

variable {s}

/-! ## The caches after each operation -/

theorem mem_cachedKeys_addKeyUnsafe (s : Store) (path p : Path) (key k : Name) :
    k ∈ (s.addKeyUnsafe path key).cachedKeys p ↔ k ∈ s.cachedKeys p ∨ p = path ∧ k = key := by
  rw [addKeyUnsafe, cachedKeys, cachedKeys]
  by_cases hp : p = path
  · subst hp
    cases s.keyCache.lookup p <;> simp [or_comm]
  · cases s.keyCache.lookup path <;> simp [hp]

theorem addKeyUnsafe_fields (s : Store) (path : Path) (key : Name) :
    (s.addKeyUnsafe path key).backend = s.backend ∧
      (s.addKeyUnsafe path key).settingsCache = s.settingsCache ∧
      (s.addKeyUnsafe path key).settingsDeleteCache = s.settingsDeleteCache ∧
      (s.addKeyUnsafe path key).settingsDeletePathCache = s.settingsDeletePathCache := by
  rw [addKeyUnsafe]
  split <;> exact ⟨rfl, rfl, rfl, rfl⟩

def SameValue (s : Store) (path : Path) (key : Name) (value : Value) : Prop :=
  ∃ c, s.settingsCache.lookup (path, key) = some c ∧ c.value = value

section SetString

variable (s) (path : Path) (key : Name) (value : Value)

theorem any_eq_true_iff_sameValue :
    ((s.settingsCache.lookup (path, key)).any fun c => c.value = value) = true ↔
      s.SameValue path key value := by
  rw [SameValue]
  cases s.settingsCache.lookup (path, key) <;> simp

theorem setString_backend : (s.setString path key value).backend = s.backend := by
  simp only [setString]
  split_ifs
  · rfl
  · rfl
  · exact (addKeyUnsafe_fields _ path key).1

theorem mem_settingsDeleteCache_setString (q : Key) :
    q ∈ (s.setString path key value).settingsDeleteCache ↔
      q ∈ s.settingsDeleteCache ∧ q ≠ (path, key) := by
  simp only [setString]
  split_ifs
  · simp
  · simp
  · rw [(addKeyUnsafe_fields _ path key).2.2.1]
    simp

theorem mem_settingsDeletePathCache_setString (p : Path) :
    p ∈ (s.setString path key value).settingsDeletePathCache ↔
      p ∈ s.settingsDeletePathCache ∧ p ≠ path := by
  simp only [setString]
  split_ifs
  · simp
  · simp
  · rw [(addKeyUnsafe_fields _ path key).2.2.2]
    simp

theorem mem_cachedKeys_setString (p : Path) (k : Name) :
    k ∈ (s.setString path key value).cachedKeys p ↔ k ∈ s.cachedKeys p ∨
      ((p = path ∧ k = key) ∧ ¬ s.SameValue path key value ∧
        ¬ Unchanged (s.backend.getRealString (path, key)) value) := by
  rw [← any_eq_true_iff_sameValue]
  simp only [setString, Unchanged]
  split_ifs with hsame hunchanged
  · simp [hsame, cachedKeys]
  · simp [hunchanged, cachedKeys]
  · rw [mem_cachedKeys_addKeyUnsafe]
    simp [hsame, hunchanged, cachedKeys]

variable {s} in
theorem lookup_setString (hs : s.Coherent) (q : Key) :
    (s.setString path key value).settingsCache.lookup q = if q = (path, key) then
      some ⟨value, !decide (Unchanged (s.backend.getRealString (path, key)) value)⟩
      else s.settingsCache.lookup q := by
  by_cases hsame : s.SameValue path key value
  · have hif := (any_eq_true_iff_sameValue s path key value).mpr hsame
    simp only [setString]
    rw [if_pos hif]
    by_cases hq : q = (path, key)
    · obtain ⟨c, hc, rfl⟩ := hsame
      rw [if_pos hq, hq, hc, ← hs.dirty _ c hc]
    · rw [if_neg hq]
  · have hif := mt (any_eq_true_iff_sameValue s path key value).mp hsame
    simp only [setString]
    rw [if_neg hif]
    split_ifs with hunchanged hq hq
    · rw [lookup_insert_eq_if, if_pos hq]
      simp [Unchanged, hunchanged]
    · rw [lookup_insert_eq_if, if_neg hq]
    · rw [(addKeyUnsafe_fields _ path key).2.1, lookup_insert_eq_if, if_pos hq]
      simp [Unchanged, hunchanged]
    · rw [(addKeyUnsafe_fields _ path key).2.1, lookup_insert_eq_if, if_neg hq]

end SetString

theorem mem_cachedKeys_removeKey (s : Store) (path p : Path) (key k : Name) :
    k ∈ (s.removeKey path key).cachedKeys p ↔ k ∈ s.cachedKeys p ∧ (p, k) ≠ (path, key) := by
  rw [removeKey, cachedKeys, cachedKeys]
  by_cases hp : p = path
  · subst hp
    cases hnames : s.keyCache.lookup p <;> simp [hnames]
  · cases s.keyCache.lookup path <;> simp [hp]

theorem cachedKeys_removePath (s : Store) (path p : Path) :
    (s.removePath path).cachedKeys p = if p = path then [] else s.cachedKeys p := by
  rw [removePath, cachedKeys, cachedKeys]
  simp only [lookup_erase_eq_if]
  split <;> rfl

theorem getString_snd (s : Store) (path : Path) (key : Name) :
    (s.getString path key).2 = s ∨ ∃ v, ¬ s.Removed (path, key) ∧
      s.settingsCache.lookup (path, key) = none ∧
      s.backend.getRealString (path, key) = some v ∧
      (s.getString path key).2 =
        { s with settingsCache := s.settingsCache.insert (path, key) ⟨v, false⟩ } := by
  rw [getString]
  split_ifs with hkey hpath
  · exact .inl rfl
  · exact .inl rfl
  · cases hcached : s.settingsCache.lookup (path, key) with
    | some c => exact .inl rfl
    | none =>
      cases hbackend : s.backend.getRealString (path, key) with
      | none => exact .inl rfl
      | some v => exact .inr ⟨v, not_or.mpr ⟨hkey, hpath⟩, rfl, rfl, rfl⟩

/-! ## Coherence -/

section

variable (hs : s.Coherent) (path : Path)
include hs

theorem Coherent.setString (key : Name) (value : Value) :
    (s.setString path key value).Coherent where
  dirty q c hc := by
    rw [lookup_setString path key value hs] at hc
    rw [setString_backend]
    split at hc
    · rename_i hq
      cases hc
      rw [hq]
    · exact hs.dirty q c hc
  deleted q hq := by
    rw [mem_settingsDeleteCache_setString] at hq
    rw [lookup_setString path key value hs, if_neg hq.2]
    exact hs.deleted q hq.1
  named p k hk := by
    rw [lookup_setString path key value hs]
    split
    · rfl
    · rename_i hq
      rw [mem_cachedKeys_setString] at hk
      exact hs.named p k (hk.resolve_right fun h => hq (by rw [h.1.1, h.1.2]))
  unnamed p hp := by
    rw [mem_settingsDeletePathCache_setString] at hp
    rw [eq_nil_iff_forall_not_mem]
    intro k hk
    rw [mem_cachedKeys_setString, hs.unnamed p hp.1] at hk
    exact hp.2 (hk.resolve_left not_mem_nil).1.1

theorem Coherent.removeKey (key : Name) : (s.removeKey path key).Coherent where
  dirty q c hc := by
    rw [Store.removeKey, lookup_erase_eq_if] at hc
    split at hc
    · cases hc
    · exact hs.dirty q c hc
  deleted q hq := by
    rw [Store.removeKey, mem_insert_iff] at hq
    rw [Store.removeKey, lookup_erase_eq_if]
    split
    · rfl
    · rename_i hne
      exact hs.deleted q (hq.resolve_left hne)
  named p k hk := by
    rw [mem_cachedKeys_removeKey] at hk
    rw [Store.removeKey, lookup_erase_eq_if, if_neg hk.2]
    exact hs.named p k hk.1
  unnamed p hp := by
    rw [eq_nil_iff_forall_not_mem]
    intro k hk
    rw [mem_cachedKeys_removeKey, hs.unnamed p hp] at hk
    exact not_mem_nil hk.1

theorem Coherent.removePath : (s.removePath path).Coherent where
  dirty := hs.dirty
  deleted := hs.deleted
  named p k hk := by
    rw [cachedKeys_removePath] at hk
    split at hk
    · cases hk
    · exact hs.named p k hk
  unnamed p hp := by
    rw [Store.removePath, mem_insert_iff] at hp
    rw [cachedKeys_removePath]
    split
    · rfl
    · rename_i hne
      exact hs.unnamed p (hp.resolve_left hne)

theorem Coherent.getString (key : Name) : (s.getString path key).2.Coherent := by
  rcases getString_snd s path key with heq | ⟨v, hremoved, -, hbackend, heq⟩
  · rw [heq]
    exact hs
  · rw [heq]
    refine ⟨fun q c hc => ?_, fun q hq => ?_, fun p k hk => ?_, hs.unnamed⟩
    · rw [lookup_insert_eq_if] at hc
      split at hc
      · rename_i hq
        cases hc
        simp [hq, Unchanged, hbackend]
      · exact hs.dirty q c hc
    · rw [lookup_insert_eq_if, if_neg]
      · exact hs.deleted q hq
      · rintro rfl
        exact hremoved (.inl hq)
    · rw [lookup_insert_eq_if]
      split
      · rfl
      · exact hs.named p k hk

end

theorem Coherent.step (hs : s.Coherent) (op : Op) : (s.step op).Coherent := by
  cases op with
  | setString path key value => exact hs.setString path key value
  | removeKey path key => exact hs.removeKey path key
  | removePath path => exact hs.removePath path
  | addPath path => exact ⟨hs.dirty, hs.deleted, hs.named, hs.unnamed⟩
  | getString path key => exact hs.getString path key

theorem coherent_ofBackend (b : Backend) : (ofBackend b).Coherent where
  dirty q c h := by cases h
  deleted q h := by cases h
  named path key h := by cases h
  unnamed path h := by cases h

theorem Coherent.run (hs : s.Coherent) (ops : List Op) : (s.run ops).Coherent := by
  induction ops generalizing s with
  | nil => exact hs
  | cons op ops ih => exact ih (hs.step op)

end Store
end Nscp.Settings
