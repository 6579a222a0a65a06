import Nscp.Access.PathPolicy

/-!
# What a path glob matches

The regular expression made of a glob matches the texts the glob stands for: only `**` goes across
a separator, so a glob without it matches no deeper or shallower than it is written.
-/

namespace Nscp.Access

open List Regex

def GlobMatches : List Char → List Char → Prop
  | [], text => text = []
  | '*' :: '*' :: glob, text => ∃ u v, text = u ++ v ∧ GlobMatches glob v
  | '*' :: glob, text => ∃ u v, text = u ++ v ∧ '/' ∉ u ∧ GlobMatches glob v
  | '?' :: glob, text => ∃ c v, text = c :: v ∧ c ≠ '/' ∧ GlobMatches glob v
  | c :: glob, text => ∃ v, text = c :: v ∧ GlobMatches glob v

def globPieces : List Char → List (Atom × Bool)
  | [] => []
  | '*' :: '*' :: glob => (.any, true) :: globPieces glob
  | '*' :: glob => (.noneOf '/', true) :: globPieces glob
  | '?' :: glob => (.noneOf '/', false) :: globPieces glob
  | c :: glob => (.char c, false) :: globPieces glob

def pieceTokens : Atom × Bool → List Token
  | (a, true) => [.atom a, .star]
  | (a, false) => [.atom a]

theorem pieces_flatMap (ps : List (Atom × Bool)) : pieces (ps.flatMap pieceTokens) = some ps := by
  induction ps with
  | nil => rfl
  | cons p ps ih =>
    obtain ⟨a, starred⟩ := p
    rw [flatMap_cons]
    cases starred with
    | true =>
      rw [pieceTokens, cons_append, singleton_append, pieces, ih]
      rfl
    | false =>
      rw [pieceTokens, singleton_append, pieces, ih]
      · rfl
      · -- the next token is not a star
        intro rest hrest
        cases ps with
        | nil => cases hrest
        | cons q qs =>
          obtain ⟨b, starred⟩ := q
          cases starred <;> cases hrest

theorem tokens_escape {c : Char} (hc : c ∈ escaped) (rest : List Char) :
    tokens ('\\' :: c :: rest) = (tokens rest).map (.atom (.char c) :: ·) := by
  have halnum : ∀ c ∈ escaped, c.isAlphanum = false := by
    simp [escaped, Char.isAlphanum, Char.isAlpha, Char.isUpper, Char.isLower, Char.isDigit]
  rw [tokens, halnum c hc]
  rfl

theorem tokens_char {c : Char} (hc : c ∉ specials) (rest : List Char) :
    tokens (c :: rest) = (tokens rest).map (.atom (.char c) :: ·) := by
  have hne : ∀ d ∈ specials, c ≠ d := fun d hd hcd => hc (hcd ▸ hd)
  rw [tokens, if_neg hc]
  · exact fun _ _ h => absurd h (hne '\\' (by decide))
  · exact fun _ _ h => absurd h (hne '[' (by decide))
  · exact hne '.' (by decide)
  · exact hne '*' (by decide)

theorem tokens_noSlash (rest : List Char) :
    tokens ("[^/]".toList ++ rest) = (tokens rest).map (.atom (.noneOf '/') :: ·) := by
  change tokens ('[' :: '^' :: '/' :: ']' :: rest) = _
  rw [tokens, if_neg (by decide)]

theorem tokens_star (rest : List Char) : tokens ('*' :: rest) = (tokens rest).map (.star :: ·) := by
  rw [tokens]

theorem tokens_globToRegex (glob : List Char) :
    tokens (globToRegex glob) = some ((globPieces glob).flatMap pieceTokens) := by
  fun_induction globToRegex glob with
  | case1 => rfl
  | case2 glob ih =>
    change tokens ('.' :: '*' :: globToRegex glob) = _
    rw [tokens, tokens_star, ih, globPieces]
    rfl
  | case3 glob hglob ih =>
    change tokens ("[^/]".toList ++ '*' :: globToRegex glob) = _
    rw [tokens_noSlash, tokens_star, ih, globPieces]
    · rfl
    · exact hglob
  | case4 glob ih =>
    rw [tokens_noSlash, ih, globPieces]
    rfl
  | case5 c glob hstars hstar hone ih =>
    have hpieces : globPieces (c :: glob) = (.char c, false) :: globPieces glob := by
      rw [globPieces]
      · exact hstars
      · exact hstar
      · exact hone
    rw [hpieces]
    split_ifs with hc
    · rw [cons_append, singleton_append, tokens_escape hc, ih]
      rfl
    · have hspecial : c ∉ specials := by
        intro hmem
        have hrest : ∀ d ∈ specials, d ∈ escaped ∨ d = '*' ∨ d = '?' := by
          simp [specials, escaped]
        rcases hrest c hmem with h | h | h
        · exact hc h
        · exact hstar h
        · exact hone h
      rw [singleton_append, tokens_char hspecial, ih]
      rfl

variable (glob text : List Char)

theorem matchPieces_globPieces :
    matchPieces (globPieces glob) text = true ↔ GlobMatches glob text := by
  fun_induction globPieces glob generalizing text with
  | case1 => rw [matchPieces, GlobMatches, decide_eq_true_eq]
  | case2 glob ih =>
    rw [matchPieces, starMatch_iff, GlobMatches]
    simp [Atom.accepts, ih]
  | case3 glob hglob ih =>
    rw [matchPieces, starMatch_iff, GlobMatches]
    · simp only [Atom.accepts, decide_eq_true_eq, ih]
      grind
    · exact hglob
  | case4 glob ih =>
    rw [matchPieces_single_iff, GlobMatches]
    simp [Atom.accepts, ih]
  | case5 c glob hstars hstar hone ih =>
    rw [matchPieces_single_iff, GlobMatches]
    · simp only [Atom.accepts, decide_eq_true_eq, ih, and_left_comm]
      grind
    · exact hstars
    · exact hstar
    · exact hone

theorem regexMatch_globToRegex :
    regexMatch (globToRegex glob) text = true ↔ GlobMatches glob text := by
  rw [regexMatch, tokens_globToRegex, Option.bind_some, pieces_flatMap]
  exact matchPieces_globPieces glob text

end Nscp.Access
