import Mathlib.Data.List.Basic

/-!
# Command lines of the prompt

`parse_prompt_command` splits a line on unquoted blanks.  A position in the line is the text from
there on.  Every list of non-empty arguments can be written for it, and the NCPA server, which turns
backslash escapes off, takes every argument that does not hold both quotes.
-/

namespace Nscp.Str

open List

structure Prompt where
  args : List (List Char)
  current : List Char := []
  inToken : Bool := false
  equals : ℕ := 0

open Prompt

namespace Prompt

variable (p : Prompt)

def flush : Prompt where
  args := if p.inToken ∧ p.current ≠ [] then p.args ++ [p.current] else p.args

def valueStart : Bool := !p.inToken || (p.equals = 1 && p.current.getLast? = some '=')

def push (s : List Char) : Prompt := { p with current := p.current ++ s, inToken := true }

end Prompt

section

variable (q : Char) (escapes : Bool)

/-- The character at a position, or the one that a backslash there escapes, and the text behind.  A
backslash that ends the line is an ordinary character. -/
def literal (c : Char) : List Char → Char × List Char
  | [] => (c, [])
  | d :: rest => if escapes && c = '\\' then (d, rest) else (c, d :: rest)

theorem length_literal (c : Char) (rest : List Char) :
    (literal escapes c rest).2.length ≤ rest.length := by
  fun_cases literal <;> simp

/-- What stands in quotes, and the text behind the closing one. -/
def inQuotes (text : List Char) : List Char × List Char :=
  match text with
  | [] => ([], [])
  | c :: rest =>
    if c = q then ([], rest)
    else (inQuotes (literal escapes c rest).2).map ((literal escapes c rest).1 :: ·) id
termination_by text.length
decreasing_by exact Nat.lt_succ_of_le (length_literal ..)

theorem length_inQuotes (text : List Char) : (inQuotes q escapes text).2.length ≤ text.length := by
  fun_induction inQuotes q escapes text with
  | case1 => simp
  | case2 => simp
  | case3 c rest _ ih => exact Nat.le_succ_of_le (Nat.le_trans ih (length_literal escapes c rest))

def scanPrompt (p : Prompt) (line : List Char) : Prompt :=
  match line with
  | [] => p.flush
  | c :: rest =>
    if c = ' ' ∨ c = '\t' then scanPrompt p.flush rest
    else if c = '"' then
      scanPrompt (p.push (inQuotes '"' escapes rest).1) (inQuotes '"' escapes rest).2
    else if c = '\'' ∧ p.valueStart then
      scanPrompt (p.push (inQuotes '\'' false rest).1) (inQuotes '\'' false rest).2
    else
      scanPrompt { p.push [(literal escapes c rest).1] with
        equals := if c = '=' then p.equals + 1 else p.equals } (literal escapes c rest).2
termination_by line.length
decreasing_by
  all_goals
    apply Nat.lt_succ_of_le
    simp [length_literal, length_inQuotes]

def parsePromptCommand (line : List Char) : List (List Char) :=
  (scanPrompt escapes { args := [] } line).args

end

/-- The NCPA server's plugin arguments. -/
def splitArgs (value : List Char) : List (List Char) := parsePromptCommand false value

/-! ## Writing arguments -/

def escape (c : Char) : List Char := if c = '"' ∨ c = '\\' then ['\\', c] else [c]

/-- In double quotes, with a backslash before every double quote and backslash. -/
def Escaped (arg text : List Char) : Prop := text = '"' :: arg.flatMap escape ++ ['"']

/-- In a pair of quotes that the argument does not hold. -/
def Quoted (arg text : List Char) : Prop :=
  ∃ q, (q = '"' ∨ q = '\'') ∧ q ∉ arg ∧ text = q :: arg ++ [q]

/-- The arguments, each written as `Writes` has it, joined with blanks and tabs. -/
inductive Joined (Writes : List Char → List Char → Prop) : List (List Char) → List Char → Prop
  | nil : Joined Writes [] []
  | single {arg text} : Writes arg text → Joined Writes [arg] text
  | cons {arg text gap args line} : Writes arg text → gap ≠ [] → (∀ c ∈ gap, c = ' ' ∨ c = '\t') →
      Joined Writes args line → args ≠ [] → Joined Writes (arg :: args) (text ++ gap ++ line)

variable {escapes : Bool} {args words : List (List Char)} {arg rest gap line text : List Char}

theorem literal_of_ne {c : Char} (h : escapes = true → c ≠ '\\') (rest : List Char) :
    literal escapes c rest = (c, rest) := by
  cases rest with
  | nil => rfl
  | cons d rest => simpa [literal] using h

theorem inQuotes_escape (arg rest : List Char) :
    inQuotes '"' true (arg.flatMap escape ++ '"' :: rest) = (arg, rest) := by
  induction arg with
  | nil => simp [inQuotes]
  | cons c arg ih =>
    by_cases hc : c = '"' ∨ c = '\\'
    · simp [escape, hc, inQuotes, literal, ih]
    · have hplain := not_or.mp hc
      rw [flatMap_cons, escape, if_neg hc]
      simp [inQuotes, hplain.1, literal_of_ne fun _ => hplain.2, ih]

theorem inQuotes_of_not_mem {q : Char} (h : q ∉ arg) :
    inQuotes q false (arg ++ q :: rest) = (arg, rest) := by
  induction arg with
  | nil => simp [inQuotes]
  | cons c arg ih =>
    rw [mem_cons, not_or] at h
    simp [inQuotes, Ne.symm h.1, literal_of_ne, ih h.2]

/-- From between two arguments, the scan takes a written one as the current token. -/
def Takes (escapes : Bool) (arg text : List Char) : Prop :=
  ∀ args rest, scanPrompt escapes { args } (text ++ rest) =
    scanPrompt escapes { args, current := arg, inToken := true } rest

theorem Escaped.takes (h : Escaped arg text) : Takes true arg text := by
  intro args rest
  obtain rfl := h
  simp [scanPrompt, inQuotes_escape, push]

theorem Quoted.takes (h : Quoted arg text) : Takes false arg text := by
  intro args rest
  obtain ⟨q, rfl | rfl, hq, rfl⟩ := h
  all_goals simp [scanPrompt, inQuotes_of_not_mem hq, push, valueStart]

theorem scanPrompt_gap (h : ∀ c ∈ gap, c = ' ' ∨ c = '\t') :
    scanPrompt escapes { args } (gap ++ line) = scanPrompt escapes { args } line := by
  induction gap with
  | nil => rfl
  | cons c gap ih =>
    rw [forall_mem_cons] at h
    simp [scanPrompt, h.1, flush, ih h.2]

theorem scanPrompt_joined {Writes : List Char → List Char → Prop}
    (hwrites : ∀ {arg text}, Writes arg text → Takes escapes arg text)
    (h : Joined Writes words line) (hne : ∀ w ∈ words, w ≠ []) (args : List (List Char)) :
    (scanPrompt escapes { args } line).args = args ++ words := by
  induction h generalizing args with
  | nil => simp [scanPrompt, flush]
  | single hw =>
    have htakes := hwrites hw args []
    rw [append_nil] at htakes
    simp [htakes, scanPrompt, flush, hne]
  | cons hw hgap hblank _ _ ih =>
    rw [forall_mem_cons] at hne
    obtain ⟨c, gap, rfl⟩ := exists_cons_of_ne_nil hgap
    rw [forall_mem_cons] at hblank
    rw [append_assoc, hwrites hw, cons_append, scanPrompt, if_pos hblank.1, flush,
      if_pos ⟨rfl, hne.1⟩, scanPrompt_gap hblank.2, ih hne.2, append_assoc, singleton_append]

/-- Every list of non-empty arguments is read back from its escaped form, and from the quoted one
where escapes are off. -/
theorem parsePromptCommand_joined (words : List (List Char)) (line : List Char)
    (hne : ∀ w ∈ words, w ≠ []) :
    (Joined Escaped words line → parsePromptCommand true line = words) ∧
      (Joined Quoted words line → splitArgs line = words) :=
  ⟨fun h => scanPrompt_joined Escaped.takes h hne [],
    fun h => scanPrompt_joined Quoted.takes h hne []⟩

theorem parsePromptCommand_joined_pair : (∀ w ∈ ["a'b".toList, "c\"d".toList], w ≠ []) ∧
    parsePromptCommand true ('"' :: "a'b".toList.flatMap escape ++ ['"'] ++ [' ', '\t'] ++
      ('"' :: "c\"d".toList.flatMap escape ++ ['"'])) = ["a'b".toList, "c\"d".toList] :=
  have hne : ∀ w ∈ ["a'b".toList, "c\"d".toList], w ≠ [] := by decide
  ⟨hne, (parsePromptCommand_joined _ _ hne).1
    (.cons rfl (by decide) (by simp) (.single rfl) (by decide))⟩

end Nscp.Str
