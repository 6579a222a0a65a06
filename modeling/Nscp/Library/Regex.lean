import Mathlib

/-!
# Regular expressions of single characters

The fragment of regular expressions in which every part matches one character or any number of
them: literals, escaped literals, the dot and a negated set of one character, each with an
optional star.
-/

namespace Regex

open List

inductive Atom
  | char (c : Char)
  | any
  | noneOf (c : Char)
  deriving DecidableEq

def Atom.accepts : Atom → Char → Bool
  | .char c, d => d = c
  | .any, _ => true
  | .noneOf c, d => d ≠ c

inductive Token
  | atom (a : Atom)
  | star
  deriving DecidableEq

def specials : List Char :=
  ['.', '[', ']', '\x7b', '\x7d', '(', ')', '\\', '*', '+', '?', '|', '^', '$']

/-- The tokens of an expression of the fragment; `none` for any other. -/
def tokens : List Char → Option (List Token)
  | [] => some []
  | '\\' :: c :: rest => if c.isAlphanum then none else (tokens rest).map (.atom (.char c) :: ·)
  | '[' :: '^' :: c :: ']' :: rest =>
    if c ∈ specials then none else (tokens rest).map (.atom (.noneOf c) :: ·)
  | '.' :: rest => (tokens rest).map (.atom .any :: ·)
  | '*' :: rest => (tokens rest).map (.star :: ·)
  | c :: rest => if c ∈ specials then none else (tokens rest).map (.atom (.char c) :: ·)

def pieces : List Token → Option (List (Atom × Bool))
  | [] => some []
  | .atom a :: .star :: rest => (pieces rest).map ((a, true) :: ·)
  | .atom a :: rest => (pieces rest).map ((a, false) :: ·)
  | .star :: _ => none

def starMatch (a : Atom) (next : List Char → Bool) : List Char → Bool
  | [] => next []
  | c :: text => next (c :: text) || a.accepts c && starMatch a next text

def matchPieces : List (Atom × Bool) → List Char → Bool
  | [], text => text = []
  | (a, true) :: ps, text => starMatch a (matchPieces ps) text
  | (_, false) :: _, [] => false
  | (a, false) :: ps, c :: text => a.accepts c && matchPieces ps text

def regexMatch (expression text : List Char) : Bool :=
  match (tokens expression).bind pieces with
  | none => false
  | some ps => matchPieces ps text

theorem starMatch_iff (a : Atom) (next : List Char → Bool) (text : List Char) :
    starMatch a next text = true ↔
      ∃ u v, text = u ++ v ∧ (∀ c ∈ u, a.accepts c = true) ∧ next v = true := by
  induction text with
  | nil =>
    rw [starMatch]
    constructor
    · exact fun h => ⟨[], [], rfl, fun _ hc => absurd hc not_mem_nil, h⟩
    · rintro ⟨u, v, huv, -, hv⟩
      obtain ⟨rfl, rfl⟩ := append_eq_nil_iff.mp huv.symm
      exact hv
  | cons c text ih =>
    rw [starMatch, Bool.or_eq_true, Bool.and_eq_true, ih]
    constructor
    · rintro (h | ⟨hc, u, v, rfl, hu, hv⟩)
      · exact ⟨[], c :: text, rfl, fun _ hd => absurd hd not_mem_nil, h⟩
      · exact ⟨c :: u, v, rfl, forall_mem_cons.mpr ⟨hc, hu⟩, hv⟩
    · rintro ⟨u, v, huv, hu, hv⟩
      cases u with
      | nil => exact .inl (huv ▸ hv)
      | cons d u =>
        cases huv
        obtain ⟨hd, hu⟩ := forall_mem_cons.mp hu
        exact .inr ⟨hd, u, v, rfl, hu, hv⟩

theorem matchPieces_single_iff (a : Atom) (ps : List (Atom × Bool)) (text : List Char) :
    matchPieces ((a, false) :: ps) text = true ↔
      ∃ c v, text = c :: v ∧ a.accepts c = true ∧ matchPieces ps v = true := by
  cases text with
  | nil =>
    rw [matchPieces]
    exact ⟨(nomatch ·), fun ⟨_, _, h, _⟩ => nomatch h⟩
  | cons c text =>
    rw [matchPieces, Bool.and_eq_true]
    constructor
    · rintro ⟨hc, h⟩
      exact ⟨c, text, rfl, hc, h⟩
    · rintro ⟨d, v, hdv, hd, hv⟩
      cases hdv
      exact ⟨hd, hv⟩

end Regex
