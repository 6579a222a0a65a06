import Nscp.Library.Delimited

/-!
# Replacing a text in place

The usual loop that searches for a key, replaces it and searches on: behind the replacement if that
holds the key itself, and otherwise from the next character on, so that what the replacement and
the text behind it make up together is looked at as well.
-/

namespace Replace

open List Delimited

variable {α : Type} [DecidableEq α]

/-- How much text is left behind the first occurrence of the key. -/
def rank (key xs : List α) : ℕ :=
  match cut key xs with
  | none => 0
  | some (_, rest) => rest.length + 1

theorem rank_lt_of_length_lt {key xs rest : List α} (hkey : key ≠ [])
    (h : xs.length ≤ rest.length) : rank key xs < rest.length + 1 := by
  rw [rank]
  split
  · exact Nat.succ_pos _
  · next b r hcut =>
      have hlen := congrArg length (eq_of_cut hcut)
      have hpos := length_pos_iff.mpr hkey
      simp only [length_append] at hlen
      omega

/-- A key found from the second character on reaches beyond a replacement that does not hold it. -/
theorem rank_drop_lt {key word rest : List α} (hkey : key ≠ []) (hword : cut key word = none) :
    rank key ((word ++ rest).drop 1) < rest.length + 1 := by
  cases word with
  | nil =>
    apply rank_lt_of_length_lt hkey
    rw [nil_append, length_drop]
    exact Nat.sub_le _ _
  | cons x word =>
    rw [cons_append, drop_succ_cons, drop_zero, rank]
    split
    · exact Nat.succ_pos _
    · next b r hcut =>
        by_contra hle
        have heq := eq_of_cut hcut
        have hlen := congrArg length heq
        simp only [length_append] at hlen
        have hin : b ++ key <+: word := by
          apply prefix_of_prefix_length_le (heq ▸ prefix_append _ r)
            (prefix_append word rest)
          rw [length_append]
          omega
        obtain ⟨tail, rfl⟩ := hin
        exact cut_ne_none hkey (x :: b) tail hword

def replace (key word xs : List α) : List α :=
  if _hkey : key = [] then xs
  else
    match _hcut : cut key xs with
    | none => xs
    | some (before, rest) =>
      if _hword : cut key word = none then
        before ++ (word ++ rest).take 1 ++ replace key word ((word ++ rest).drop 1)
      else before ++ word ++ replace key word rest
termination_by rank key xs
decreasing_by
  · have hxs : rank key xs = rest.length + 1 := by rw [rank, _hcut]
    rw [hxs]
    exact rank_drop_lt _hkey _hword
  · have hxs : rank key xs = rest.length + 1 := by rw [rank, _hcut]
    rw [hxs]
    exact rank_lt_of_length_lt _hkey le_rfl

/-- A text without the key stays as it is. -/
theorem replace_of_not_infix {key word xs : List α} (h : ¬ key <:+: xs) :
    replace key word xs = xs := by
  rw [replace]
  by_cases hkey : key = []
  · rw [dif_pos hkey]
  · rw [dif_neg hkey]
    split
    · rfl
    · next before rest hcut =>
        exact absurd ⟨before, rest, (eq_of_cut hcut).symm⟩ h

end Replace
