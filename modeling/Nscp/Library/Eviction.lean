import Nscp.Library.Table

/-!
# Making room in a table

A table that has reached its capacity drops the entry of the smallest rank until it is below it.
-/

namespace Eviction

open List

variable {α β τ : Type} [LinearOrder τ]

def oldest (rank : β → τ) (start : Sigma fun _ : α => β) (entries : List (Sigma fun _ : α => β)) :
    Sigma fun _ : α => β :=
  entries.foldl (fun oldest e => if rank e.2 < rank oldest.2 then e else oldest) start

section Oldest

variable (rank : β → τ) (start : Sigma fun _ : α => β) (entries : List (Sigma fun _ : α => β))

theorem oldest_mem : oldest rank start entries ∈ start :: entries := by
  induction entries generalizing start with
  | nil => exact mem_cons_self
  | cons e entries ih =>
    rw [oldest, foldl_cons, ← oldest]
    split_ifs
    · exact mem_cons_of_mem start (ih e)
    · rcases mem_cons.mp (ih start) with h | h
      · exact mem_cons.mpr (Or.inl h)
      · exact mem_cons_of_mem start (mem_cons_of_mem e h)

theorem rank_oldest_le : ∀ e ∈ start :: entries, rank (oldest rank start entries).2 ≤ rank e.2 := by
  induction entries generalizing start with
  | nil => exact forall_mem_singleton.mpr le_rfl
  | cons e entries ih =>
    rw [oldest, foldl_cons, ← oldest]
    split_ifs with hlt
    · exact forall_mem_cons.mpr
        ⟨(forall_mem_cons.mp (ih e)).1.trans hlt.le, ih e⟩
    · obtain ⟨hstart, hrest⟩ := forall_mem_cons.mp (ih start)
      exact forall_mem_cons.mpr
        ⟨hstart, forall_mem_cons.mpr ⟨hstart.trans (not_lt.mp hlt), hrest⟩⟩

end Oldest

variable [DecidableEq α] (rank : β → τ)

def dropOldest (rank : β → τ) (capacity : ℕ) (t : Table α β) : Table α β :=
  if t.entries.length < capacity then t
  else
    match _h : t.entries with
    | [] => t
    | start :: entries => dropOldest rank capacity (t.erase (oldest rank start entries).1)
termination_by t.entries.length
decreasing_by
  have hmem : oldest rank start entries ∈ t.entries := _h ▸ oldest_mem rank start entries
  exact Nat.lt_of_succ_le (Table.length_erase_add_one hmem).le

/-- What is left of a table when the entries that went are the lowest in rank and went because the
table was full. -/
structure Evicted (rank : β → τ) (capacity : ℕ) (t r : Table α β) : Prop where
  kept : ∀ {k b}, r.lookup k = some b → t.lookup k = some b
  lowest : ∀ {k b}, t.lookup k = some b → r.lookup k = none →
    capacity ≤ t.entries.length ∧ ∀ k' b', r.lookup k' = some b' → rank b ≤ rank b'

theorem Evicted.refl (capacity : ℕ) (t : Table α β) : Evicted rank capacity t t where
  kept := id
  lowest := fun hb hnone => nomatch hb.symm.trans hnone

theorem evicted_dropOldest (capacity : ℕ) (t : Table α β) :
    Evicted rank capacity t (dropOldest rank capacity t) := by
  fun_induction dropOldest rank capacity t with
  | case1 t hroom | case2 t hfull hempty => exact Evicted.refl rank capacity t
  | case3 t hfull start entries hentries ih =>
    have hkept : ∀ {k b}, (dropOldest rank capacity
        (t.erase (oldest rank start entries).1)).lookup k = some b → t.lookup k = some b := by
      intro k b hb
      have herase := ih.kept hb
      rw [Table.lookup_erase_eq_if] at herase
      split_ifs at herase
      exact herase
    refine ⟨hkept, fun {k b} hb hnone => ⟨not_lt.mp hfull, fun k' b' hb' => ?_⟩⟩
    by_cases hk : k = (oldest rank start entries).1
    · have hsame : t.lookup k = some (oldest rank start entries).2 := by
        rw [hk, ← Table.mem_entries_lookup, hentries]
        exact oldest_mem rank start entries
      obtain rfl := Option.some.inj (hb.symm.trans hsame)
      have hmem := Table.mem_entries_lookup.mpr (hkept hb')
      rw [hentries] at hmem
      exact rank_oldest_le rank start entries _ hmem
    · have hb : (t.erase (oldest rank start entries).1).lookup k = some b := by
        rw [Table.lookup_erase_eq_if, if_neg hk, hb]
      exact (ih.lowest hb hnone).2 k' b' hb'

theorem length_dropOldest_lt {capacity : ℕ} (hpos : 0 < capacity) (t : Table α β) :
    (dropOldest rank capacity t).entries.length < capacity := by
  fun_induction dropOldest rank capacity t with
  | case1 t hroom => exact hroom
  | case2 t hfull hempty =>
    rw [hempty] at hfull
    exact absurd hpos hfull
  | case3 t hfull start entries hentries ih => exact ih

/-- No more entries go than needed: one below the capacity the loop stops. -/
theorem le_length_dropOldest {capacity : ℕ} (t : Table α β)
    (h : capacity ≤ t.entries.length + 1) :
    capacity ≤ (dropOldest rank capacity t).entries.length + 1 := by
  fun_induction dropOldest rank capacity t with
  | case1 t hroom | case2 t hfull hempty => exact h
  | case3 t hfull start entries hentries ih =>
    have hmem : oldest rank start entries ∈ t.entries :=
      hentries ▸ oldest_mem rank start entries
    apply ih
    rw [Table.length_erase_add_one hmem]
    exact not_lt.mp hfull

end Eviction
