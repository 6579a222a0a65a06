import Nscp.Library.Glob

/-!
# File-name masks

`wildcard_match` walks along the mask and the name, both C strings, and remembers the last star.
-/

namespace Nscp.CheckDisk

open List Glob

variable (lower : Char → Char) (ignore : Bool)

def same (a b : Char) : Bool := a = b || (ignore && lower a = lower b)

/-- The loop; `back` holds the mask behind the last star and where that star resumes. -/
def wildcardLoop (pattern name : List Char) (back : Option (List Char × List Char))
    (h : ∀ b ∈ back, name.length ≤ b.2.length) : Bool :=
  match name, pattern with
  | [], pattern => (pattern.dropWhile (· = '*')).isEmpty
  | c :: name, a :: pattern =>
    if a = '*' then
      wildcardLoop pattern (c :: name) (some (pattern, c :: name)) fun b hb => by
        cases hb; exact le_rfl
    else if a = '?' ∨ same lower ignore a c then
      wildcardLoop pattern name back fun b hb => (Nat.le_succ _).trans (h b hb)
    else
      match back with
      | none => false
      | some (_, []) => false
      | some (star, _ :: resume) =>
        wildcardLoop star resume (some (star, resume)) fun b hb => by cases hb; exact le_rfl
  | _ :: _, [] =>
    match back with
    | none => false
    | some (_, []) => false
    | some (star, _ :: resume) =>
      wildcardLoop star resume (some (star, resume)) fun b hb => by cases hb; exact le_rfl
termination_by ((back.map (·.2.length)).getD (name.length + 1), name.length, pattern.length)
decreasing_by
  · cases back with
    | none => simp [Prod.lex_def]
    | some b =>
      have := h b rfl
      simp only [length_cons] at this
      simp [Prod.lex_def]
      omega
  · cases back <;> simp [Prod.lex_def]
  · simp [Prod.lex_def]
  · simp [Prod.lex_def]

def wildcardMatch (pattern name : List Char) : Bool :=
  wildcardLoop lower ignore pattern name none fun _ h => by cases h

/-! ## The mask as a pattern of tokens -/

inductive Token where
  | star
  | one
  | char (c : Char)
  deriving DecidableEq

def fold (c : Char) : Char := if ignore then lower c else c

def text (c : Char) : Token := .char (fold lower ignore c)

def token (c : Char) : Token :=
  if c = '*' then .star else if c = '?' then .one else text lower ignore c

/-- Which pieces of a name a character of the mask takes. -/
def Takes (a : Char) (piece : List Char) : Prop :=
  if a = '*' then True
  else if a = '?' then piece.length = 1
  else ∃ c, piece = [c] ∧ (a = c ∨ ignore = true ∧ lower a = lower c)

variable {lower ignore} {a c : Char}

theorem token_eq_star_iff : token lower ignore a = .star ↔ a = '*' := by
  rw [token]
  split_ifs <;> simp_all [text]

theorem token_eq_iff (ha : a ≠ '*') :
    token lower ignore a = .one ∨ token lower ignore a = text lower ignore c ↔
      a = '?' ∨ same lower ignore a c := by
  have hsame : same lower ignore a c = true ↔ fold lower ignore a = fold lower ignore c := by
    cases ignore <;> simp [same, fold]
    exact fun h => congrArg lower h
  rw [token, if_neg ha, hsame]
  split_ifs <;> simp_all [text]

theorem takes_iff (ha : a ≠ '*') {piece : List Char} : Takes lower ignore a piece ↔
    ∃ c, piece = [c] ∧
      (token lower ignore a = .one ∨ token lower ignore a = text lower ignore c) := by
  simp only [token_eq_iff ha, Takes, if_neg ha]
  split_ifs with hone
  · simp [hone, length_eq_one_iff]
  · simp [hone, same]

theorem matches_iff (mask name : List Char) :
    Matches Token.star .one (mask.map (token lower ignore)) (name.map (text lower ignore)) ↔
      ∃ pieces, name = pieces.flatten ∧ Forall₂ (Takes lower ignore) mask pieces := by
  induction mask generalizing name with
  | nil => simp [Matches]
  | cons a mask ih =>
    by_cases ha : a = '*'
    · rw [map_cons, token_eq_star_iff.mpr ha, matches_star]
      constructor
      · rintro ⟨u, v, heq, hv⟩
        obtain ⟨u, v, rfl, rfl, rfl⟩ := map_eq_append_iff.mp heq
        obtain ⟨pieces, rfl, hpieces⟩ := (ih v).mp hv
        exact ⟨u :: pieces, rfl, .cons (by simp [Takes, ha]) hpieces⟩
      · rintro ⟨_, rfl, _ | ⟨_, hpieces⟩⟩
        exact ⟨_, _, map_append, (ih _).mpr ⟨_, rfl, hpieces⟩⟩
    · rw [map_cons, matches_cons (mt token_eq_star_iff.mp ha)]
      constructor
      · rintro ⟨c, v, heq, hc, hv⟩
        obtain ⟨c, v, rfl, rfl, rfl⟩ := map_eq_cons_iff.mp heq
        obtain ⟨pieces, rfl, hpieces⟩ := (ih v).mp hv
        exact ⟨[c] :: pieces, rfl, .cons ((takes_iff ha).mpr ⟨c, rfl, hc⟩) hpieces⟩
      · rintro ⟨_, rfl, _ | ⟨hpiece, hpieces⟩⟩
        obtain ⟨c, rfl, hc⟩ := (takes_iff ha).mp hpiece
        exact ⟨_, _, rfl, hc, (ih _).mpr ⟨_, rfl, hpieces⟩⟩

/-- The loop is the general matcher on tokens; no token of a name is a star. -/
theorem wildcardLoop_eq_scan (pattern name : List Char) (back : Option (List Char × List Char)) (h)
    (h') : wildcardLoop lower ignore pattern name back h =
      scan Token.star .one (pattern.map (token lower ignore)) (name.map (text lower ignore))
        (back.map (Prod.map (map (token lower ignore)) (map (text lower ignore)))) h' := by
  fun_induction wildcardLoop lower ignore pattern name back h with
  | case1 back pattern =>
    refine .trans ?_ scan_nil.symm
    rw [Bool.eq_iff_iff, List.isEmpty_iff, dropWhile_eq_nil_iff]
    simp [token_eq_star_iff]
  | case2 _ c name pattern _ _ ih =>
    refine (ih (by simp)).trans (scan_cons_cons.trans ?_).symm
    rw [if_neg (by simp [token, text]), if_pos (token_eq_star_iff.mpr rfl)]
    rfl
  | case3 _ c name a pattern _ ha hc _ ih =>
    refine (ih fun b hb => (Nat.le_succ _).trans (h' b hb)).trans (scan_cons_cons.trans ?_).symm
    rw [if_pos ((token_eq_iff ha).mpr hc)]
  | case4 c name a pattern ha hc | case5 c name a pattern ha hc =>
    refine (scan_cons_cons.trans ?_).symm
    rw [if_neg (mt (token_eq_iff ha).mp hc), if_neg (mt token_eq_star_iff.mp ha)]
    rfl
  | case6 c name a pattern ha hc star d resume _ _ ih =>
    refine (ih (by simp)).trans (scan_cons_cons.trans ?_).symm
    rw [if_neg (mt (token_eq_iff ha).mp hc), if_neg (mt token_eq_star_iff.mp ha)]
    rfl
  | case7 | case8 =>
    refine .trans ?_ scan_nil_cons.symm
    rfl
  | case9 c name star d resume _ _ ih =>
    refine (ih (by simp)).trans (.trans ?_ scan_nil_cons.symm)
    rfl

variable (lower ignore)

/-- A name matches a mask exactly if it can be cut into pieces that the characters of the mask
take. -/
theorem wildcardMatch_iff (mask name : List Char) :
    wildcardMatch lower ignore mask name = true ↔
      ∃ pieces, name = pieces.flatten ∧ Forall₂ (Takes lower ignore) mask pieces := by
  rw [← matches_iff, wildcardMatch, wildcardLoop_eq_scan _ _ _ _ (by simp)]
  exact matcher_iff (by decide) (by simp [text])

end Nscp.CheckDisk
