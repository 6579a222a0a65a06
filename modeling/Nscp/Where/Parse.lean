import Nscp.Where.Grammar

/-!
# Parsing and validating an expression

`parser::parse` with the limits it enforces before the grammar runs, and
`engine_filter::validate`.  `maxParenDepth` reads the text on its own: quoted text
and the body of `str(...)` are skipped, every other parenthesis counts.
-/

namespace Nscp.Where

def maxExpressionLength : ℕ := 1024
def maxExpressionDepth : ℕ := 64

def isIdent (c : Char) : Bool := c.isAlphanum || c == '_'

/-- Where the scan is: in the code, in a quoted text, or in the body of `str(...)`. -/
inductive ScanMode where
  | code
  | quoted
  | strBody
  deriving DecidableEq, Repr

/-- Whether a parenthesis behind `before`, nearest character first, is the one of a
standalone `str`. -/
def opensStr : (before : List Char) → Bool
  | 'r' :: 't' :: 's' :: before =>
    match before with
    | [] => true
    | c :: _ => !isIdent c
  | _ => false

def scan : ScanMode → (before : List Char) → (depth maxDepth : ℕ) → List Char → ℕ
  | _, _, _, maxDepth, [] => maxDepth
  | .quoted, before, depth, maxDepth, c :: s =>
    scan (if c = '\'' then .code else .quoted) (c :: before) depth maxDepth s
  | .strBody, before, depth, maxDepth, c :: s =>
    scan (if c = ')' then .code else .strBody) (c :: before) depth maxDepth s
  | .code, before, depth, maxDepth, c :: s =>
    if c = '\'' then scan .quoted (c :: before) depth maxDepth s
    else if c = '(' then
      if opensStr before then scan .strBody (c :: before) depth maxDepth s
      else if depth + 1 > maxDepth then
        if depth + 1 > maxExpressionDepth then depth + 1
        else scan .code (c :: before) (depth + 1) (depth + 1) s
      else scan .code (c :: before) (depth + 1) maxDepth s
    else if c = ')' then scan .code (c :: before) (depth - 1) maxDepth s
    else scan .code (c :: before) depth maxDepth s

def maxParenDepth (expr : List Char) : ℕ := scan .code [] 0 0 expr

structure ParseResult (Obj : Type) where
  tree : Option (Node Obj)
  rest : String
  trace : List Event

section

variable {Obj : Type} (factory : Factory Obj)

def parse (expr : List Char) : ParseResult Obj :=
  if expr.length > maxExpressionLength then
    ⟨none, "expression exceeds the maximum length of " ++ toString maxExpressionLength ++
      " characters", []⟩
  else if maxParenDepth expr > maxExpressionDepth then
    ⟨none, "expression nesting exceeds the maximum depth of " ++ toString maxExpressionDepth, []⟩
  else
    match Grammar.run factory expr with
    | ⟨.ok (n, []), trace⟩ => ⟨some n, "", trace⟩
    | ⟨.ok (_, rest), trace⟩ => ⟨none, String.ofList rest, trace⟩
    | ⟨.error _, trace⟩ => ⟨none, String.ofList expr, trace⟩

def Event.isError : Event → Bool
  | message m => m.isError
  | _ => false

/-- `engine_filter::validate`: the tree that is evaluated later. -/
def validate (expr : List Char) : Option (Node Obj) :=
  match (parse factory expr).tree with
  | some n => if (parse factory expr).trace.any Event.isError then none else validateTree factory n
  | none => none

end

/-! ## A registry to run expressions on -/

namespace Sample

structure Row where
  level : ℤ
  ratio : Float
  name : String

/-- Decimal text without a fraction is all this host can read and write. -/
def host : Host where
  formatFloat x := toString (Number.truncate x)
  parseFloat s := (Number.parseInt64 s).map Float.ofInt
  scaleReal digits exponent :=
    some (if exponent < 0 then Float.ofNat digits / Float.ofNat (10 ^ exponent.natAbs)
      else Float.ofNat (digits * 10 ^ exponent.natAbs))
  regexMatch pattern subject := .ok (pattern == subject)

def factory : Factory Row where
  host := host
  filterVariables name :=
    if name = "level" then some { type := .int, iFunction := some fun row => .ok row.level }
    else if name = "ratio" then some { type := .float, fFunction := some fun row => .ok row.ratio }
    else if name = "name" then some { type := .string, sFunction := some fun row => .ok row.name }
    else none
  functions name :=
    if name = "first" then
      some { type := .int, function := fun _ _ subject => do
        match ← subject.getListValue with
        | [] => return .createFalse host
        | item :: _ => return .ofInt host (← item.getIntValue) false }
    else none

def context (row : Option Row) : Context Row := ⟨host, 1000000, row, .new⟩

/-- `level > 5 and name = 'up'` as validation leaves it. -/
def levelTree : Node Row :=
  .binaryOp .bool .and
    (.binaryOp .bool .gt (.objectVariable .int "level" (.int fun row => .ok row.level))
      (.createInt 5))
    (.binaryOp .bool .eq (.objectVariable .string "name" (.string fun row => .ok row.name))
      (.createString "up"))

end Sample

end Nscp.Where
