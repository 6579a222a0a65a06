import Nscp.Where.Factory

/-!
# Type inference and binding

`infer_type` with and without a suggestion, `infer_binary_type` and `bind`.  A node
that is asked again is the one the first request left behind, so a request is not
a recursion on the tree; `inferType` takes the depth of the tree as fuel, which
`inferType_fuel` shows to be enough.
-/

namespace Nscp.Where

variable {Obj : Type}

/-! ## Suggestions to leaves -/

def suggestValue (host : Host) (suggestion type : ValueType) (literal : Literal)
    (isUnsure : Bool) : ValueType × Node Obj :=
  match literal with
  | .string v =>
    if (suggestion = .int ∨ suggestion = .float) ∧ (host.parseFloat v).isSome then
      (.float, .value .float literal isUnsure)
    else (.string, .value type literal isUnsure)
  | .int _ =>
    if suggestion.isInt then (.int, .value type literal isUnsure)
    else if suggestion.isFloat then (suggestion, .value suggestion literal isUnsure)
    else (.int, .value type literal isUnsure)
  | .float _ => (.float, .value type literal isUnsure)

def suggestVariable (suggestion type : ValueType) : Accessor Obj → ValueType
  | .int _ =>
    if suggestion.isInt then type else if suggestion.isFloat then suggestion else type
  | .float _ => if suggestion.isInt then suggestion else type
  | .string _ => if suggestion = .int ∨ suggestion = .float then .float else type
  | .dual fallbackType _ _ _ =>
    if suggestion.isInt then .int
    else if suggestion.isFloat then .float
    else if suggestion = .string then .string
    else if suggestion = .tbd then fallbackType
    else type
  | .optionalInt numericType _ _ =>
    if suggestion.isInt || suggestion.isFloat then numericType
    else if suggestion = .string then .string
    else if suggestion = .tbd then numericType
    else type

/-! ## Conversions -/

def canConvert (src dst : ValueType) : Bool :=
  match src, dst with
  | .invalid, _ | _, .invalid | _, .tbd => false
  | .tbd, _ => true
  | .int, .float | .int, .string | .int, .bool | .int, .size => true
  | .float, .int | .float, .string | .float, .bool => true
  | .string, .int | .string, .float => true
  | .bool, .int | .bool, .float => true
  | .customFloat _, .float => true
  | .customInt _, .int => true
  | .customString _, .float | .customString _, .int => true
  | _, _ => false

def addConvertNode (subject : Node Obj) (newType : ValueType) : Node Obj :=
  if subject.type = newType then subject
  else if subject.type ≠ .tbd then (Node.createConversion subject).setType newType
  else subject.setType newType

/-! ## Binary operators -/

structure Operands (Obj : Type) where
  leftType : ValueType
  left : Node Obj
  rightType : ValueType
  right : Node Obj

section Infer

variable (factory : Factory Obj)

/-- How nodes answer: no suggestion, or a suggested type. -/
abbrev Request (Obj : Type) := Option ValueType → Node Obj → Eval (ValueType × Node Obj)

variable (ask : Request Obj)

def askLeft (suggestion : ValueType) (o : Operands Obj) : Eval (Operands Obj) := do
  let answer ← ask (some suggestion) o.left
  return { o with leftType := answer.1, left := answer.2 }

def askRight (suggestion : ValueType) (o : Operands Obj) : Eval (Operands Obj) := do
  let answer ← ask (some suggestion) o.right
  return { o with rightType := answer.1, right := answer.2 }

/-- A variable with several types takes one that suits the other side. -/
def settleMulti (o : Operands Obj) : Eval (Operands Obj) :=
  if o.leftType = .multi then askLeft ask o.rightType o
  else if o.rightType = .multi then askRight ask o.leftType o
  else pure o

/-- A comparison of a number and a text invites the text to be a number. -/
def settleText (op : Operator) (o : Operands Obj) : Eval (Operands Obj) :=
  if op.isComparison then
    if o.leftType = .string ∧ (o.rightType = .int ∨ o.rightType = .float) then
      askLeft ask .float o
    else if o.rightType = .string ∧ (o.leftType = .int ∨ o.leftType = .float) then
      askRight ask .float o
    else pure o
  else pure o

def offerRight (o : Operands Obj) : Eval (Operands Obj) :=
  if o.leftType.isFloat && o.rightType.isInt then askRight ask o.leftType o else pure o

def offerLeft (o : Operands Obj) : Eval (Operands Obj) :=
  if o.rightType.isFloat && o.leftType.isInt then askLeft ask o.rightType o else pure o

/-- An integer side is offered the type of the other side, the right side first. -/
def settleNumbers (o : Operands Obj) : Eval (Operands Obj) := do
  offerLeft ask (← offerRight ask o)

def convertRight (type : ValueType) (o : Operands Obj) : ValueType × Operands Obj :=
  (type, { o with right := addConvertNode o.right type })

def convertLeft (type : ValueType) (o : Operands Obj) : ValueType × Operands Obj :=
  (type, { o with left := addConvertNode o.left type })

/-- The conversion rules for two sides whose types differ. -/
def settleConversion (op : Operator) (o : Operands Obj) : Eval (ValueType × Operands Obj) :=
  if o.rightType = .invalid ∨ o.leftType = .invalid then pure (.invalid, o)
  else if o.rightType = .tbd ∧ o.leftType = .tbd then pure (.tbd, o)
  else if factory.canConvert o.leftType then pure (convertRight o.leftType o)
  else if factory.canConvert o.rightType then pure (convertLeft o.rightType o)
  else if op.isComparison ∧ o.leftType = .int ∧ o.rightType = .float then
    pure (convertLeft .float o)
  else if op.isComparison ∧ o.leftType = .float ∧ o.rightType = .int then
    pure (convertRight .float o)
  else if canConvert o.rightType o.leftType then pure (convertRight o.leftType o)
  else if canConvert o.leftType o.rightType then pure (convertLeft o.rightType o)
  else do
    error ("Cannot compare " ++ o.left.text factory.host ++ " to " ++ o.right.text factory.host ++
      " (" ++ o.leftType.text ++ " to " ++ o.rightType.text ++ ")")
    return (.invalid, o)

/-- Stop as soon as both sides have one type. -/
def unlessSame (o : Operands Obj) (next : Eval (ValueType × Operands Obj)) :
    Eval (ValueType × Operands Obj) :=
  if o.leftType = o.rightType then pure (o.leftType, o) else next

def inferBinaryType (op : Operator) (left right : Node Obj) : Eval (ValueType × Operands Obj) := do
  let r ← ask none right
  let l ← ask none left
  let o : Operands Obj := ⟨l.1, l.2, r.1, r.2⟩
  if o.leftType = .multi ∧ o.rightType = .multi then return (.tbd, o)
  else
    let o ← settleMulti ask o
    unlessSame o do
      let o ← settleText ask op o
      unlessSame o do
        let o ← settleNumbers ask o
        unlessSame o (settleConversion factory op o)

def listType : List ValueType → ValueType
  | [] => .tbd
  | t :: ts => if ts.all (· = t) then t else .tbd

/-- The answer of one node, given the answers of the nodes below it. -/
def inferNode (suggestion : Option ValueType) (n : Node Obj) : Eval (ValueType × Node Obj) :=
  match n, suggestion with
  | .value _ literal _, none => pure (literal.type, n)
  | .value type literal isUnsure, some s =>
    pure (suggestValue factory.host s type literal isUnsure)
  | .list type items, none => do
      let answers ← Logged.mapList (ask none) items
      let shared := listType (answers.map Prod.fst)
      return (shared, .list (if shared ≠ .tbd then shared else type) (answers.map Prod.snd))
  | .list type items, some s => do
      let answers ← Logged.mapList (ask (some s)) items
      return (.tbd, .list type (answers.map Prod.snd))
  | .binaryOp type op left right, _ => do
      let (inferred, o) ← inferBinaryType factory ask op left right
      if inferred = .invalid then return (.invalid, .binaryOp type op o.left o.right)
      else
        let inferred := op.returnType inferred
        return (inferred, .binaryOp inferred op o.left o.right)
  | .unaryOp type op subject, none => do
      let answer ← ask none subject
      if answer.1 = .invalid then return (.invalid, .unaryOp type op answer.2)
      else
        let inferred := op.returnType answer.1
        return (inferred, .unaryOp inferred op answer.2)
  | .unaryOp type op subject, some s => do
      let answer ← ask (some s) subject
      return (op.returnType answer.1, .unaryOp type op answer.2)
  | .unaryFun _ _ _ _ _, _ => pure (.tbd, n)
  | .objectVariable type _ _, none => pure (type, n)
  | .objectVariable type name accessor, some s =>
    let type := suggestVariable s type accessor
    pure (type, .objectVariable type name accessor)
  | .customFunction type _ _ _, _ => pure (type, n)
  | .summaryVariable type _ _, _ => pure (type, n)

def inferType : ℕ → Request Obj
  | 0, _, n => pure (n.type, n)
  | fuel + 1, suggestion, n => inferNode factory (inferType fuel) suggestion n

end Infer

/-! ## Binding -/

namespace Node

/-- `get_list_value` before anything is bound. -/
def argumentNodes : Node Obj → List (Node Obj)
  | value _ literal _ => [value literal.type literal false]
  | list _ items => items
  | unaryFun _ _ subject _ _ => (argumentNodes subject).map fun _ => createFalse
  | _ => []

def isList : Node Obj → Bool
  | list _ _ => true
  | _ => false

/-- The nodes `function_convert` holds on to. -/
def convertArguments (subject : Node Obj) : List (Node Obj) :=
  if subject.argumentNodes.isEmpty && !subject.isList then [subject] else subject.argumentNodes

/-- `unary_fun::bind`: the node itself, not what is below it. -/
def bindFunction (factory : Factory Obj) (type : ValueType) (name : String)
    (subject : Node Obj) : Node Obj :=
  match factory.converters type with
  | some fn => unaryFun type name subject (.registered fn) []
  | none =>
    if name = "convert" ∨ name = "auto_convert" then
      unaryFun type name subject .convert subject.convertArguments
    else if name = "neg" then unaryFun type name subject .neg []
    else unaryFun type name subject .undefined []

mutual

def bind (factory : Factory Obj) : Node Obj → Node Obj
  | list type items => list type (bindList factory items)
  | binaryOp type op left right => binaryOp type op (bind factory left) (bind factory right)
  | unaryOp type op subject => unaryOp type op (bind factory subject)
  | unaryFun type name subject _ _ => bindFunction factory type name subject
  | n => n

def bindList (factory : Factory Obj) : List (Node Obj) → List (Node Obj)
  | [] => []
  | item :: items => bind factory item :: bindList factory items

end

mutual

def depth : Node Obj → ℕ
  | list _ items => listDepth items + 1
  | binaryOp _ _ left right => max (depth left) (depth right) + 1
  | unaryOp _ _ subject => depth subject + 1
  | _ => 1

def listDepth : List (Node Obj) → ℕ
  | [] => 0
  | item :: items => max (depth item) (listDepth items)

end

end Node

/-! ## Validation -/

def deriveTypes (factory : Factory Obj) (root : Node Obj) : Eval (ValueType × Node Obj) :=
  inferType factory root.depth none root

/-- What `engine_filter::validate` makes of a parsed tree: types, then bindings.
Static evaluation records no error. -/
def validateTree (factory : Factory Obj) (root : Node Obj) : Option (Node Obj) :=
  match deriveTypes factory root with
  | ⟨.ok (_, typed), log⟩ =>
    if log.any Message.isError then none else some (typed.bind factory)
  | ⟨.error _, _⟩ => none

end Nscp.Where
