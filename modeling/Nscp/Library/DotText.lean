import Nscp.Library.Delimited

/-!
# Texts that a line with a single dot ends

Lines end in CR LF.  A line that starts with a dot is written with another one in front, so that a
line of a single dot can only be the end of the text; the reader takes one leading dot away.
-/

namespace DotText

open Delimited

def crlf : List Char := ['\r', '\n']

def join (ls : List (List Char)) : List Char :=
  ls.flatMap (· ++ crlf)

def stuff : List Char → List Char
  | '.' :: l => '.' :: '.' :: l
  | l => l

def unstuff : List Char → List Char
  | '.' :: l => l
  | l => l

@[simp] theorem join_nil : join [] = [] := rfl

@[simp] theorem join_cons (l : List Char) (ls : List (List Char)) :
    join (l :: ls) = l ++ crlf ++ join ls := rfl

@[simp] theorem join_append (ls ks : List (List Char)) : join (ls ++ ks) = join ls ++ join ks :=
  List.flatMap_append

variable {l : List Char}

theorem stuff_of_head?_ne (h : l.head? ≠ some '.') : stuff l = l := by
  rw [stuff]
  rintro l' rfl
  exact h rfl

@[simp] theorem unstuff_stuff (l : List Char) : unstuff (stuff l) = l := by
  by_cases h : l.head? = some '.'
  · obtain ⟨l', rfl⟩ := List.head?_eq_some_iff.mp h
    rfl
  · rw [stuff_of_head?_ne h, unstuff]
    rintro l' rfl
    exact h rfl

theorem unstuff_of_head?_ne (h : l.head? ≠ some '.') : unstuff l = l := by
  calc
    unstuff l = unstuff (stuff l) := by rw [stuff_of_head?_ne h]
    _ = l := unstuff_stuff l

/-- A line that has been written is not the end of the text. -/
theorem stuff_ne_dot (l : List Char) : stuff l ≠ ['.'] := by
  by_cases h : l.head? = some '.'
  · obtain ⟨l', rfl⟩ := List.head?_eq_some_iff.mp h
    simp [stuff]
  · rw [stuff_of_head?_ne h]
    rintro rfl
    exact h rfl

theorem not_mem_stuff {c : Char} (hc : c ≠ '.') (h : c ∉ l) : c ∉ stuff l := by
  by_cases hl : l.head? = some '.'
  · obtain ⟨l', rfl⟩ := List.head?_eq_some_iff.mp hl
    rw [stuff, List.mem_cons, not_or]
    exact ⟨hc, h⟩
  · rwa [stuff_of_head?_ne hl]

end DotText
