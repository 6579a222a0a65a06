import Mathlib

/-!
# Maps in the order of their keys

A finite map as the list of its entries in ascending order of the keys, with insertion that
replaces the entry of a key that is there.
-/

namespace OrderedMap

open List

variable {κ β : Type} [LinearOrder κ]

def insert (k : κ) (v : β) : List (κ × β) → List (κ × β)
  | [] => [(k, v)]
  | (k', v') :: m =>
    if k < k' then (k, v) :: (k', v') :: m
    else if k = k' then (k, v) :: m
    else (k', v') :: insert k v m

def lookup (k : κ) : List (κ × β) → Option β
  | [] => none
  | (k', v) :: m => if k = k' then some v else lookup k m

theorem lookup_insert (k k' : κ) (v : β) (m : List (κ × β)) :
    lookup k' (insert k v m) = if k' = k then some v else lookup k' m := by
  induction m with
  | nil => rfl
  | cons e m ih =>
    obtain ⟨a, w⟩ := e
    rw [insert]
    by_cases hk : k' = k
    · subst hk
      rw [if_pos rfl] at ih ⊢
      split_ifs with hlt heq
      · rw [lookup, if_pos rfl]
      · rw [lookup, if_pos rfl]
      · rw [lookup, if_neg heq, ih]
    · rw [if_neg hk] at ih ⊢
      split_ifs with hlt heq
      · rw [lookup, if_neg hk]
      · rw [lookup, if_neg hk, lookup, if_neg (heq ▸ hk)]
      · rw [lookup, lookup, ih]

variable {m l : List (κ × β)} {k : κ} {v : β}

theorem mem_insert {e : κ × β} (h : e ∈ insert k v m) : e = (k, v) ∨ e ∈ m := by
  induction m with
  | nil => exact Or.inl (mem_singleton.mp h)
  | cons e' m ih =>
    rw [insert] at h
    split_ifs at h
    · exact mem_cons.mp h
    · exact (mem_cons.mp h).imp_right (mem_cons_of_mem e')
    · rcases mem_cons.mp h with rfl | h
      · exact Or.inr (mem_cons_self)
      · exact (ih h).imp_right (mem_cons_of_mem e')

theorem mem_of_lookup (h : lookup k m = some v) : (k, v) ∈ m := by
  induction m with
  | nil => cases h
  | cons e m ih =>
    obtain ⟨a, w⟩ := e
    rw [lookup] at h
    split_ifs at h with hk
    · cases h
      exact hk ▸ mem_cons_self
    · exact mem_cons_of_mem _ (ih h)

def Ascending (m : List (κ × β)) : Prop :=
  m.Pairwise fun x y => x.1 < y.1

theorem ascending_insert (h : Ascending m) (k : κ) (v : β) : Ascending (insert k v m) := by
  induction m with
  | nil => exact pairwise_singleton _ _
  | cons e m ih =>
    obtain ⟨a, w⟩ := e
    obtain ⟨hfirst, hrest⟩ := pairwise_cons.mp h
    rw [insert]
    split_ifs with hlt heq
    · refine pairwise_cons.mpr ⟨fun e he => ?_, h⟩
      rcases mem_cons.mp he with rfl | he
      · exact hlt
      · exact hlt.trans (hfirst e he)
    · subst heq
      exact pairwise_cons.mpr ⟨hfirst, hrest⟩
    · refine pairwise_cons.mpr ⟨fun e he => ?_, ih hrest⟩
      rcases mem_insert he with rfl | he
      · exact lt_of_le_of_ne (not_lt.mp hlt) (Ne.symm heq)
      · exact hfirst e he

theorem lookup_of_mem (h : Ascending m) (he : (k, v) ∈ m) : lookup k m = some v := by
  induction m with
  | nil => cases he
  | cons e m ih =>
    obtain ⟨a, w⟩ := e
    obtain ⟨hfirst, hrest⟩ := pairwise_cons.mp h
    rw [lookup]
    rcases mem_cons.mp he with heq | he
    · cases heq
      rw [if_pos rfl]
    · rw [if_neg (hfirst _ he).ne', ih hrest he]

/-- A key behind all others goes to the end. -/
theorem insert_eq_concat (h : ∀ e ∈ m, e.1 < k) (v : β) : insert k v m = m ++ [(k, v)] := by
  induction m with
  | nil => rfl
  | cons e m ih =>
    obtain ⟨hfirst, hrest⟩ := forall_mem_cons.mp h
    rw [insert, if_neg hfirst.not_gt, if_neg hfirst.ne', ih hrest, cons_append]

/-- Inserting ascending entries one by one gives them back. -/
theorem foldl_insert_of_ascending (h : Ascending (m ++ l)) :
    l.foldl (fun m e => insert e.1 e.2 m) m = m ++ l := by
  induction l generalizing m with
  | nil => exact (append_nil m).symm
  | cons e l ih =>
    have hcut : m ++ e :: l = m ++ [e] ++ l := by
      rw [append_assoc, singleton_append]
    have hlast : ∀ x ∈ m, x.1 < e.1 := fun x hx =>
      (pairwise_append.mp h).2.2 x hx e mem_cons_self
    rw [foldl_cons, insert_eq_concat hlast, hcut]
    exact ih (hcut ▸ h)

end OrderedMap
