import Mathlib

/-!
# Searches for the least element

`First s r` states that `r` is the least element of the set `s`, or nothing if `s` is empty.  A
search that goes through a set part by part, in order, finds the first element of the whole.
-/

variable {α : Type} [Preorder α]

def First (s : Set α) : Option α → Prop
  | none => s = ∅
  | some a => IsLeast s a

namespace First

theorem congr {s t : Set α} {r : Option α} (h : First s r) (hst : ∀ a, a ∈ s ↔ a ∈ t) :
    First t r := by
  rwa [← Set.ext hst]

/-- The first part has an element, and all of the rest comes behind it. -/
theorem of_isLeast {s t : Set α} {a : α} (h : IsLeast s a) (hs : s ⊆ t)
    (hrest : ∀ b ∈ t, b ∉ s → a ≤ b) : First t (some a) := by
  refine ⟨hs h.1, fun b hb => ?_⟩
  by_cases hbs : b ∈ s
  · exact h.2 hbs
  · exact hrest b hb hbs

/-! ## Scanning integers -/

def scan (p : ℤ → Bool) (start : ℤ) : ℕ → Option ℤ
  | 0 => none
  | n + 1 => if p start then some start else scan p (start + 1) n

theorem scan_first (p : ℤ → Bool) (start : ℤ) (n : ℕ) :
    First {i | start ≤ i ∧ i < start + n ∧ p i = true} (scan p start n) := by
  induction n generalizing start with
  | zero =>
    apply Set.eq_empty_of_forall_notMem
    rintro i ⟨hlow, hhigh, -⟩
    omega
  | succ n ih =>
    rw [scan]
    split_ifs with hp
    · refine ⟨⟨le_rfl, by omega, hp⟩, ?_⟩
      rintro i ⟨hlow, -, -⟩
      exact hlow
    · refine (ih (start + 1)).congr fun i => ?_
      constructor
      · rintro ⟨hlow, hhigh, hi⟩
        exact ⟨by omega, by omega, hi⟩
      · rintro ⟨hlow, hhigh, hi⟩
        have hne : start ≠ i := by
          rintro rfl
          exact hp hi
        exact ⟨by omega, by omega, hi⟩

end First
