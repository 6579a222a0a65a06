import Nscp.Where.Infer
import Nscp.Library.Peg

/-!
# The grammar of filter expressions

`grammar.cpp` rule by rule, over the characters of the expression.  Spaces are
skipped before every token.  Nodes are created while the text is being parsed, and
a name that is not found is reported even when the attempt is given up later.

The trace also records how deep the rules `expression` and `list_expr` have been
entered.  They are entered again only behind an opening parenthesis, so the length
of the text bounds the recursion.
-/

namespace Nscp.Where

open Peg Peg.Parser

inductive Event where
  | enter (level : ℕ)
  | message (m : Message)
  | exhausted
  deriving DecidableEq, Repr

abbrev Rule (α : Type) := Parser Event α

namespace Grammar

/-! ## Tokens -/

def isSpace (c : Char) : Bool := c ∈ [' ', '\t', '\n', '\x0b', '\x0c', '\x0d']

def isNameChar (c : Char) : Bool := c.isAlphanum || c == '_'

def skip : Rule Unit := fun s => pure ((), s.dropWhile isSpace)

def token {α : Type} (p : Rule α) : Rule α := do
  skip
  p

def lit (s : String) : Rule Unit := token (text (fun c d => c == d) s.toList)

/-- A text in any case; `s` is in lower case. -/
def litNoCase (s : String) : Rule Unit := token (text (fun c d => c == d.toLower) s.toList)

def variableName : Rule String := token do
  let c ← satisfy Char.isAlpha
  let cs ← span isNameChar
  return String.ofList (c :: cs)

def stringLiteral : Rule String := token do
  let _ ← satisfy (· == '\'')
  let body ← span (· != '\'')
  let _ ← satisfy (· == '\'')
  return String.ofList body

/-- The literal in parentheses; it has at least one character. -/
def stringLiteralEx : Rule String := token do
  let _ ← satisfy (· == '(')
  let c ← satisfy (· != ')')
  let cs ← span (· != ')')
  let _ ← satisfy (· == ')')
  return String.ofList (c :: cs)

/-! ## Numbers -/

def sign : Rule Bool :=
  orElse (satisfy (· == '-') >>= fun _ => pure true)
    (orElse (satisfy (· == '+') >>= fun _ => pure false) (pure false))

def longLong : Rule ℤ := do
  let negative ← sign
  let digits ← span Char.isDigit
  let magnitude : ℤ := Number.digitsValue digits
  let value := if negative then -magnitude else magnitude
  if digits ≠ [] ∧ Number.inInt64 value then return value else fail

/-- Not a number, with an optional text in parentheses behind it. -/
def nan : Rule Float := do
  text (fun c d => c == d.toLower) "nan".toList
  orElse
    (do
      let _ ← satisfy (· == '(')
      let _ ← span (· != ')')
      let _ ← satisfy (· == ')')
      return 0.0 / 0.0)
    fun s => if s.head? = some '(' then Logged.raise () else pure (0.0 / 0.0, s)

def inf : Rule Float := do
  text (fun c d => c == d.toLower) "inf".toList
  orElse (text (fun c d => c == d.toLower) "inity".toList) (pure ())
  return 1.0 / 0.0

/-- The exponent behind a mantissa; an `e` without digits is left in the input. -/
def exponent : Rule (Option ℤ) :=
  orElse
    (do
      let _ ← satisfy fun c => c == 'e' || c == 'E'
      let negative ← sign
      let digits ← span Char.isDigit
      let magnitude : ℤ := Number.digitsValue digits
      if digits ≠ [] then return some (if negative then -magnitude else magnitude) else fail)
    (fun s => match s.head? with
      | some 'e' | some 'E' => pure (some 0, s)
      | _ => pure (none, s))

def scaled (host : Host) (digits : List Char) (exponent : ℤ) : Rule Float :=
  match host.scaleReal (Number.digitsValue digits) exponent with
  | some x => pure x
  | none => fail

/-- Digits with a dot or an exponent among them. -/
def decimal (host : Host) : Rule Float := do
  let whole ← span Char.isDigit
  orElse
    (do
      let _ ← satisfy (· == '.')
      let frac ← span Char.isDigit
      if whole = [] ∧ frac = [] then fail
      else
        let e ← exponent
        scaled host (whole ++ frac) (e.getD 0 - frac.length))
    (do
      if whole = [] then fail
      else
        match ← exponent with
        | some e => scaled host whole e
        | none => fail)

/-- `qi::real_parser` with a policy that expects a dot. -/
def real (host : Host) : Rule Float := do
  let negative ← sign
  let x ← orElse nan (orElse inf (decimal host))
  return if negative then -x else x

def unit : Rule String := do
  let c ← satisfy fun c => c.isAlpha || c == '%'
  return String.ofList [c]

/-! ## Operators -/

def choice {α : Type} : List (Rule α) → Rule α
  | [] => fail
  | p :: ps => orElse p (choice ps)

def operator (p : Rule Unit) (op : Operator) : Rule Operator := do
  p
  return op

def op : Rule Operator := choice
  [operator (lit "<=") .le, operator (lit "<") .lt, operator (lit "=") .eq,
    operator (lit "!=") .ne, operator (lit ">=") .ge, operator (lit ">") .gt,
    operator (litNoCase "le") .le, operator (litNoCase "lt") .lt, operator (litNoCase "eq") .eq,
    operator (litNoCase "ne") .ne, operator (litNoCase "ge") .ge, operator (litNoCase "gt") .gt,
    operator (litNoCase "like") .like, operator (litNoCase "regexp") .regexp,
    operator (litNoCase "not like") .notLike, operator (litNoCase "not regexp") .notRegexp]

def bitop : Rule Operator := choice [operator (lit "&") .binand, operator (lit "|") .binor]

/-! ## Expressions -/

section

variable {Obj : Type} (factory : Factory Obj)

/-- A factory call; it reports errors but does not throw. -/
def call {α : Type} (x : Eval α) : Rule α := fun s =>
  match x.result with
  | .ok a => ⟨.ok (a, s), x.log.map .message⟩
  | .error _ => ⟨.error (), x.log.map .message⟩

def listExpr (item : Rule (Node Obj)) (level : ℕ) : Rule (Node Obj) := do
  record (.enter level)
  let first ← item
  let items ← many (lit "," >>= fun _ => item) (fun items n => items ++ [n]) [first]
  return .createList items

def withUnit (value : Node Obj) (unit : String) : Node Obj :=
  .createConversion (.createList [value, .createString unit])

/-- The alternatives of `identifier`; `arguments` is the list behind a function name. -/
def identifierBody (arguments : Rule (Node Obj)) : Rule (Node Obj) := choice
  [(do
      lit "str"
      let v ← stringLiteralEx
      return .createString v),
    (do
      let name ← variableName
      lit "("
      let subject ← arguments
      lit ")"
      call (factory.createFun name subject)),
    (do
      let name ← variableName
      lit "("
      lit ")"
      call (factory.createFun name (.createList []))),
    (do
      let name ← variableName
      call (factory.createVariable name)),
    (do
      let v ← stringLiteral
      return .createString v),
    token (do
      let v ← real factory.host
      let u ← unit
      return withUnit (.createFloat v) u),
    token (do
      let v ← longLong
      let u ← unit
      return withUnit (.createInt v) u),
    token (do
      let v ← real factory.host
      return .createFloat v),
    token (do
      let v ← longLong
      return .createInt v)]

def identifier : (fuel level : ℕ) → Rule (Node Obj)
  | 0, _ => do
      record .exhausted
      fail
  | fuel + 1, level =>
    identifierBody factory (listExpr (identifier fuel (level + 1)) (level + 1))

def identifierExpr (ident : Rule (Node Obj)) : Rule (Node Obj) := choice
  [(do
      let left ← ident
      let o ← bitop
      let right ← ident
      return .createBinOp o left right),
    (do
      lit "("
      let left ← ident
      let o ← bitop
      let right ← ident
      lit ")"
      return .createBinOp o left right),
    ident]

/-- `cond_expr`; `list` and `nested` are what stands in parentheses, one level deeper. -/
def condExpr (ident list nested : Rule (Node Obj)) : Rule (Node Obj) := choice
  [(do
      let left ← identifierExpr ident
      let o ← op
      let right ← identifierExpr ident
      return .createBinOp o left right),
    (do
      let left ← identifierExpr ident
      litNoCase "not in"
      lit "("
      let right ← list
      lit ")"
      return .createBinOp .nin left right),
    (do
      let left ← identifierExpr ident
      litNoCase "in"
      lit "("
      let right ← list
      lit ")"
      return .createBinOp .in left right),
    (do
      lit "("
      let n ← nested
      lit ")"
      return n),
    identifierExpr ident]

def notExpr (cond : Rule (Node Obj)) : Rule (Node Obj) :=
  orElse
    (do
      litNoCase "not"
      let n ← cond
      return .createUnOp .not n)
    cond

def chain (keyword : String) (o : Operator) (operand : Rule (Node Obj)) : Rule (Node Obj) := do
  let first ← operand
  many (litNoCase keyword >>= fun _ => operand) (fun n m => .createBinOp o n m) first

def expression : (fuel level : ℕ) → Rule (Node Obj)
  | 0, _ => do
      record .exhausted
      fail
  | fuel + 1, level => do
      record (.enter level)
      chain "or" .or (chain "and" .and (notExpr (condExpr
        (identifier factory (fuel + 1) level)
        (listExpr (identifier factory fuel (level + 1)) (level + 1))
        (expression fuel (level + 1)))))

/-- `phrase_parse` of the whole text: the trace, and the tree if one was found. -/
def run (expr : List Char) : Logged Unit Event (Node Obj × List Char) :=
  (do
    let n ← expression factory (expr.length + 1) 0
    skip
    return n : Rule (Node Obj)) expr

end

end Grammar

end Nscp.Where
