import Mathlib.Data.List.Basic
import Mathlib.Tactic.Common

/-!
# Message templates

`simple_expression::parse` cuts a template into literal text and variables, written `${…}` or
`%(…)`.  The body of the latter runs to a balanced parenthesis outside single quotes, and
to the first one when there is none.
-/

namespace Nscp.SimpleExpression

open List

structure Entry where
  isVariable : Bool
  name : List Char
  deriving DecidableEq

/-- The balanced scan: how many characters come before the closing parenthesis.  `depth` is
the number of open ones in the body, `quoted` tells that the scan is inside quotes. -/
def findBalanced (depth : ℕ) (quoted : Bool) : List Char → Option ℕ
  | [] => none
  | c :: cs =>
    if quoted then (findBalanced depth (c ≠ '\x27') cs).map (· + 1)
    else if c = '\x27' then (findBalanced depth true cs).map (· + 1)
    else if c = '(' then (findBalanced (depth + 1) false cs).map (· + 1)
    else if c = ')' then
      if depth = 0 then some 0 else (findBalanced (depth - 1) false cs).map (· + 1)
    else (findBalanced depth false cs).map (· + 1)

def findFirst (c : Char) (str : List Char) : Option ℕ :=
  if c ∈ str then some (str.takeWhile (· ≠ c)).length else none

def findPlaceholderClose (str : List Char) : Option ℕ :=
  match findBalanced 0 false str with
  | some j => some j
  | none => findFirst ')' str

def flushLiteral (literal : List Char) : List Entry :=
  if literal.isEmpty then [] else [⟨false, literal⟩]

def parseFrom (literal : List Char) : List Char → List Entry
  | [] => flushLiteral literal
  | c :: cs =>
    if c = '$' ∧ cs.head? = some '{' then
      match findFirst '}' cs.tail with
      | some (j + 1) =>
        flushLiteral literal ++ ⟨true, cs.tail.take (j + 1)⟩ :: parseFrom [] (cs.tail.drop (j + 2))
      | _ => flushLiteral literal ++ ⟨false, [c]⟩ :: parseFrom [] cs
    else if c = '%' ∧ cs.head? = some '(' then
      match findPlaceholderClose cs.tail with
      | some (j + 1) =>
        flushLiteral literal ++ ⟨true, cs.tail.take (j + 1)⟩ :: parseFrom [] (cs.tail.drop (j + 2))
      | _ => flushLiteral literal ++ ⟨false, [c]⟩ :: parseFrom [] cs
    else parseFrom (literal ++ [c]) cs
termination_by str => str.length
decreasing_by all_goals grind

def parse (str : List Char) : List Entry := parseFrom [] str

/-! ## Balanced text -/

/-- The text outside single quotes; `none` when a quote is left open. -/
def unquoted (quoted : Bool) : List Char → Option (List Char)
  | [] => if quoted then none else some []
  | c :: cs =>
    if quoted then unquoted (c ≠ '\x27') cs
    else if c = '\x27' then unquoted true cs
    else (unquoted false cs).map (c :: ·)

/-- Behind `depth` open parentheses, the text closes each one it finds and no other. -/
def Closes (depth : ℕ) (text : List Char) : Prop :=
  depth + text.count '(' = text.count ')' ∧
    ∀ front, front <+: text → front.count ')' ≤ depth + front.count '('

def Balanced (body : List Char) : Prop := ∃ text, unquoted false body = some text ∧ Closes 0 text

variable {depth : ℕ} {c : Char}

theorem closes_cons_iff {text : List Char} : Closes depth (c :: text) ↔
      if c = '(' then Closes (depth + 1) text
      else if c = ')' then 0 < depth ∧ Closes (depth - 1) text
      else Closes depth text := by
  have hfront : (∀ front, front <+: c :: text → front.count ')' ≤ depth + front.count '(') ↔
      ∀ front, front <+: text → (c :: front).count ')' ≤ depth + (c :: front).count '(' := by
    constructor
    · intro h front hfront
      exact h _ (by simpa using hfront)
    · intro h front hfront
      rcases prefix_cons_iff.mp hfront with rfl | ⟨front', rfl, hfront'⟩
      · simp
      · exact h front' hfront'
  rw [Closes, hfront]
  split_ifs with hopen hclose
  · subst hopen
    simp [Closes, Nat.add_assoc, Nat.add_comm 1]
  · subst hclose
    cases depth with
    | zero =>
      simp only [Nat.lt_irrefl, false_and, iff_false, not_and]
      intro _ h
      simpa using h [] nil_prefix
    | succ depth =>
      simp [Closes, Nat.add_right_comm depth 1]
  · simp [Closes, hopen, hclose]

/-! ## The closing parenthesis -/

variable {str rest : List Char} {j : ℕ} {entries : List Entry} {quoted : Bool}

theorem findBalanced_sound (h : findBalanced depth quoted str = some j) :
    ∃ text rest, unquoted quoted (str.take j) = some text ∧ Closes depth text ∧
      str.drop j = ')' :: rest := by
  induction str generalizing depth quoted j with
  | nil => simp [findBalanced] at h
  | cons c cs ih =>
    by_cases hfound : quoted = false ∧ c = ')' ∧ depth = 0
    · obtain ⟨rfl, rfl, rfl⟩ := hfound
      obtain rfl : 0 = j := by simpa [findBalanced] using h
      exact ⟨[], cs, rfl, by simp [Closes], rfl⟩
    · -- Every other character is part of the body.
      rw [findBalanced] at h
      split_ifs at h with hquoted hquote hopen hclose hdepth
      pick_goal 4
      · exact absurd ⟨by simpa using hquoted, hclose, hdepth⟩ hfound
      all_goals
        obtain ⟨j, hj, rfl⟩ := Option.map_eq_some_iff.mp h
        obtain ⟨text, rest, htext, hcloses, hrest⟩ := ih hj
        simp_all [unquoted, closes_cons_iff, Nat.pos_iff_ne_zero]

theorem findBalanced_complete {body text : List Char} (htext : unquoted quoted body = some text)
    (hcloses : Closes depth text) (rest : List Char) :
    findBalanced depth quoted (body ++ ')' :: rest) ≠ none := by
  induction body generalizing depth quoted text with
  | nil =>
    cases quoted with
    | true => cases htext
    | false =>
      obtain rfl : [] = text := by simpa [unquoted] using htext
      obtain rfl : depth = 0 := by simpa [Closes] using hcloses
      simp [findBalanced]
  | cons c body ih =>
    rw [cons_append, findBalanced]
    rw [unquoted] at htext
    split_ifs at htext ⊢ with hquoted hquote hopen hclose hdepth
    · simpa using ih htext hcloses
    · simpa using ih htext hcloses
    all_goals
      obtain ⟨text, htext, rfl⟩ := Option.map_eq_some_iff.mp htext
      rw [closes_cons_iff] at hcloses
      simp_all

theorem findFirst_spec (h : findFirst c str = some j) :
    c ∉ str.take j ∧ str = str.take j ++ c :: str.drop (j + 1) := by
  rw [findFirst] at h
  split_ifs at h with hmem
  obtain ⟨front, rest, rfl, hfront⟩ := eq_append_cons_of_mem hmem
  have htake : (front ++ c :: rest).takeWhile (· ≠ c) = front := by
    rw [takeWhile_append_of_pos (by grind)]
    simp
  obtain rfl : front.length = j := by rwa [htake, Option.some.injEq] at h
  simpa using hfront

theorem findPlaceholderClose_spec (h : findPlaceholderClose str = some j) :
    str = str.take j ++ ')' :: str.drop (j + 1) ∧
      ((∃ body rest, str = body ++ ')' :: rest ∧ Balanced body) → Balanced (str.take j)) := by
  rw [findPlaceholderClose] at h
  cases hfind : findBalanced 0 false str with
  | some k =>
    obtain rfl : k = j := by simpa [hfind] using h
    obtain ⟨text, rest, htext, hcloses, hrest⟩ := findBalanced_sound hfind
    refine ⟨?_, fun _ => ⟨text, htext, hcloses⟩⟩
    rw [← drop_drop, hrest, drop_one, tail_cons, ← hrest, take_append_drop]
  | none =>
    refine ⟨(findFirst_spec (by simpa [hfind] using h)).2, ?_⟩
    rintro ⟨body, rest, rfl, text, htext, hcloses⟩
    exact absurd hfind (findBalanced_complete htext hcloses rest)

/-! ## The pieces of a template -/

/-- A part of a template, as it was written. -/
inductive Piece where
  | literal (text : List Char)
  | dollar (body : List Char)
  | percent (body : List Char)

namespace Piece

def entry : Piece → Entry
  | literal text => ⟨false, text⟩
  | dollar body => ⟨true, body⟩
  | percent body => ⟨true, body⟩

def source : Piece → List Char
  | literal text => text
  | dollar body => '$' :: '{' :: (body ++ ['}'])
  | percent body => '%' :: '(' :: (body ++ [')'])

/-- What is promised of a piece in front of `rest`: the body of a `%(…)` is balanced when
there is a parenthesis that makes it so. -/
def Sound (rest : List Char) : Piece → Prop
  | literal _ => True
  | dollar body => body ≠ [] ∧ '}' ∉ body
  | percent body => body ≠ [] ∧
      ((∃ inner after, body ++ ')' :: rest = inner ++ ')' :: after ∧ Balanced inner) →
        Balanced body)

end Piece

open Piece

def Sound : List Piece → Prop
  | [] => True
  | p :: ps => p.Sound (ps.flatMap source) ∧ Sound ps

/-- The entries are those of sound pieces that make up the text. -/
def Splits (str : List Char) (entries : List Entry) : Prop :=
  ∃ ps, entries = ps.map entry ∧ ps.flatMap source = str ∧ Sound ps

theorem Splits.cons {p : Piece} (h : Splits rest entries) (hp : p.Sound rest) :
    Splits (p.source ++ rest) (p.entry :: entries) := by
  obtain ⟨ps, rfl, rfl, hps⟩ := h
  exact ⟨p :: ps, rfl, rfl, hp, hps⟩

theorem Splits.flush (literal : List Char) (h : Splits str entries) :
    Splits (literal ++ str) (flushLiteral literal ++ entries) := by
  cases literal with
  | nil => exact h
  | cons c literal => exact h.cons (p := .literal (c :: literal)) trivial

theorem take_succ_ne_nil (h : str = str.take (j + 1) ++ c :: rest) : str.take (j + 1) ≠ [] := by
  cases str with
  | nil => simp at h
  | cons => simp

theorem parseFrom_splits (literal str : List Char) :
    Splits (literal ++ str) (parseFrom literal str) := by
  fun_induction parseFrom literal str with
  | case1 literal => simpa using Splits.flush literal ⟨[], rfl, rfl, trivial⟩
  | case2 literal c cs hc j hj ih =>
    obtain ⟨rfl, hhead⟩ := hc
    obtain ⟨rest, rfl⟩ := head?_eq_some_iff.mp hhead
    obtain ⟨hbody, hcut⟩ := findFirst_spec hj
    have hsplits := ih.cons (p := .dollar (rest.take (j + 1))) ⟨take_succ_ne_nil hcut, hbody⟩
    rw [show _ ++ _ = '$' :: '{' :: rest by simpa [source] using hcut.symm] at hsplits
    exact hsplits.flush literal
  | case4 literal c cs _ hc j hj ih =>
    obtain ⟨rfl, hhead⟩ := hc
    obtain ⟨rest, rfl⟩ := head?_eq_some_iff.mp hhead
    obtain ⟨hcut, hbalanced⟩ := findPlaceholderClose_spec hj
    have hsplits := ih.cons (p := .percent (rest.take (j + 1)))
      ⟨take_succ_ne_nil hcut, fun hcloser => hbalanced (hcut ▸ hcloser)⟩
    rw [show _ ++ _ = '%' :: '(' :: rest by simpa [source] using hcut.symm] at hsplits
    exact hsplits.flush literal
  | case3 literal c cs hc hj ih | case5 literal c cs _ hc hj ih =>
    exact (ih.cons (p := .literal [c]) trivial).flush literal
  | case6 literal c cs _ _ ih => simpa using ih

/-- The entries of a template are those of pieces that make up its text, none of them with
an empty body. -/
theorem parse_partitions (str : List Char) :
    ∃ ps : List Piece, parse str = ps.map entry ∧ ps.flatMap source = str ∧ Sound ps :=
  parseFrom_splits [] str

end Nscp.SimpleExpression
