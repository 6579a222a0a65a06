import Nscp.Where.Operators
import Nscp.Library.Text

/-!
# Evaluation

What each node class returns from `evaluate`, `get_value` and `get_list_value`.
`view` shows a whole tree to the operators; a composite node is evaluated each
time its value is read.
-/

namespace Nscp.Where

variable {Obj : Type}

/-! ## Object-bound variables -/

/-- The typed, unsure default of a variable while no record is attached. -/
def noObjectDefault (wanted : ValueType) : ValueContainer :=
  if wanted.isInt then .createInt 0 true
  else if wanted.isFloat then .createFloat 0 true
  else .createString "" true

/-- Report what an accessor threw; the value is nil then. -/
def accessed {α : Type} (name : String) (x : Except String α) (f : α → Eval ValueContainer) :
    Eval ValueContainer :=
  match x with
  | .ok a => f a
  | .error what => do error ("Failed to evaluate " ++ name ++ ": " ++ what); return .createNil

def intVariableValue (name : String) (fn : Obj → Except String ℤ) (object : Option Obj)
    (wanted : ValueType) : Eval ValueContainer :=
  if wanted.isInt || wanted.isFloat then
    match object with
    | some obj => accessed name (fn obj) fun v =>
        pure (if wanted.isInt then .createInt v false else .createFloat (Float.ofInt v) false)
    | none => do
        warn ("Failed to get " ++ name ++ " no object instance")
        return noObjectDefault wanted
  else do
    error ("Invalid type " ++ name ++ " we are int but wanted: " ++ toString wanted.code)
    return .createNil

def floatVariableValue (name : String) (fn : Obj → Except String Float) (object : Option Obj)
    (wanted : ValueType) : Eval ValueContainer :=
  if wanted.isInt || wanted.isFloat then
    match object with
    | some obj => accessed name (fn obj) fun v =>
        pure (if wanted.isInt then
          .createInt (Number.toInt64Saturating v) (!Number.fitsInt64 v)
        else .createFloat v false)
    | none => do
        warn ("Failed to get " ++ name ++ " no object instance")
        return noObjectDefault wanted
  else do
    error ("Invalid type " ++ name ++ " we are float but wanted: " ++ toString wanted.code)
    return .createNil

def trim (s : String) : String :=
  String.ofList (Text.trim s.toList)

def numericView (host : Host) (name value : String) (wanted : ValueType) : Eval ValueContainer :=
  match host.parseFloat (trim value) with
  | some parsed =>
    pure (if wanted.isInt then .createInt (Number.llround parsed) false
      else .createFloat parsed false)
  | none => do
      warn ("Cannot compare " ++ name ++ " numerically: '" ++ value ++ "' is not a number")
      return .createNoValue

def stringVariableValue (host : Host) (name : String) (fn : Obj → Except String String)
    (object : Option Obj) (wanted : ValueType) : Eval ValueContainer :=
  match object with
  | none => do
      warn ("Unbound function " ++ name)
      return noObjectDefault wanted
  | some obj => accessed name (fn obj) fun value =>
      if wanted = .string then pure (.createString value false)
      else if wanted.isInt || wanted.isFloat then numericView host name value wanted
      else do error ("Invalid type " ++ name); return .createNil

/-- An exception of an accessor of a dual variable is reported twice. -/
def dualAccessed {α : Type} (name : String) (x : Except String α)
    (f : α → ValueContainer) : Eval ValueContainer :=
  match x with
  | .ok a => pure (f a)
  | .error what => do
      error ("Failed to evaluate " ++ name ++ ": " ++ what)
      error ("Failed to evaluate " ++ name)
      return .createNil

section

variable (host : Host) (type : ValueType) (name : String)

def dualServed
    (iFn : Option (Obj → Except String ℤ)) (fFn : Option (Obj → Except String Float))
    (sFn : Option (Obj → Except String String)) (obj : Obj) (wanted : ValueType) :
    Eval ValueContainer :=
  let noContext : Eval ValueContainer := do
    error ("No context when evaluating: " ++ name)
    return .createNil
  if wanted.isInt && iFn.isSome then
    iFn.elim noContext fun fn => dualAccessed name (fn obj) (.createInt · false)
  else if wanted.isFloat && fFn.isSome then
    fFn.elim noContext fun fn => dualAccessed name (fn obj) (.createFloat · false)
  else if wanted.isFloat && iFn.isSome then
    iFn.elim noContext fun fn =>
      dualAccessed name (fn obj) fun v => .createFloat (Float.ofInt v) false
  else if wanted = .string ∧ sFn.isSome then
    sFn.elim noContext fun fn => dualAccessed name (fn obj) (.createString · false)
  else if wanted = .string ∧ iFn.isSome ∧ (type.isInt ∨ fFn.isNone) then
    iFn.elim noContext fun fn =>
      dualAccessed name (fn obj) fun v => .createString (toString v) false
  else if wanted = .string ∧ fFn.isSome then
    fFn.elim noContext fun fn =>
      dualAccessed name (fn obj) fun v => .createString (host.formatFloat v) false
  else noContext

def dualVariableValue
    (iFn : Option (Obj → Except String ℤ)) (fFn : Option (Obj → Except String Float))
    (sFn : Option (Obj → Except String String)) (object : Option Obj) (wanted : ValueType) :
    Eval ValueContainer :=
  match object with
  | some obj => dualServed host type name iFn fFn sFn obj wanted
  | none => do
      warn ("Failed to get " ++ name ++ " no object instance")
      if wanted.isFloat || wanted = .string then return noObjectDefault wanted
      else
        error ("No context when evaluating: " ++ name)
        return .createNil

end

def optionalIntVariableValue (name noValue : String) (fn : Obj → Except String (Option ℤ))
    (object : Option Obj) (wanted : ValueType) : Eval ValueContainer :=
  match object with
  | none => do
      warn ("Failed to get " ++ name ++ " no object instance")
      return noObjectDefault wanted
  | some obj => accessed name (fn obj) fun v =>
      if wanted.isInt then pure (v.elim .createNoValue (.createInt · false))
      else if wanted.isFloat then
        pure (v.elim .createNoValue fun v => .createFloat (Float.ofInt v) false)
      else if wanted = .string then pure (.createString (v.elim noValue toString) false)
      else do
        error ("Invalid type " ++ name ++ " we are optional-int but wanted: " ++
          toString wanted.code)
        return .createNil

def variableValue (host : Host) (object : Option Obj) (type : ValueType) (name : String)
    (accessor : Accessor Obj) (wanted : ValueType) : Eval ValueContainer :=
  match accessor with
  | .int fn => intVariableValue name fn object wanted
  | .float fn => floatVariableValue name fn object wanted
  | .string fn => stringVariableValue host name fn object wanted
  | .dual _ iFn fFn sFn => dualVariableValue host type name iFn fFn sFn object wanted
  | .optionalInt _ noValue fn => optionalIntVariableValue name noValue fn object wanted

/-! ### `evaluate` of a variable -/

/-- A value node made from the accessor `fn`; without a record, or when the accessor
throws, a message and a false that is not marked unsure. -/
def evaluateAccessor {α : Type} (host : Host) (name : String) (missing : String → Eval Unit)
    (object : Option Obj) (fn : Option (Obj → Except String α)) (f : α → View) : Eval View :=
  match object, fn with
  | some obj, some fn =>
    match fn obj with
    | .ok a => pure (f a)
    | .error what => do
        error ("Failed to evaluate " ++ name ++ ": " ++ what)
        return .createFalse host
  | _, _ => do
      missing ("Failed to evaluate " ++ name ++ " no object instance")
      return .createFalse host

def variableEvaluate (host : Host) (object : Option Obj) (type : ValueType) (name : String)
    (accessor : Accessor Obj) : Eval View :=
  match accessor with
  | .int fn => evaluateAccessor host name error object (some fn) (.ofInt host · false)
  | .float fn => evaluateAccessor host name error object (some fn) (.ofFloat host · false)
  | .string fn => evaluateAccessor host name warn object (some fn) (.ofString host · false)
  | .dual _ iFn fFn sFn =>
    if type.isString then evaluateAccessor host name error object sFn (.ofString host · false)
    else if type.isFloat then
      if fFn.isSome then evaluateAccessor host name error object fFn (.ofFloat host · false)
      else evaluateAccessor host name error object iFn
        fun v => .ofFloat host (Float.ofInt v) false
    else evaluateAccessor host name error object iFn (.ofInt host · false)
  | .optionalInt _ noValue fn => evaluateAccessor host name warn object (some fn)
      fun v => v.elim (.ofString host noValue false) (.ofInt host · false)

/-! ## Summary variables -/

def summaryValue (summary : Summary) (name : String) (accessor : SummaryAccessor)
    (wanted : ValueType) : Eval ValueContainer :=
  match accessor, wanted with
  | .int fn, .int => pure (.createInt (fn summary) false)
  | .string fn, .string => pure (.createString (fn summary) false)
  | .string _, .int | .string _, .float => do
      error ("Function not numeric: " ++ name)
      return .createNil
  | _, _ => do
      error ("Unknown type: " ++ name)
      return .createNil

def summaryEvaluate (host : Host) (summary : Summary) : SummaryAccessor → View
  | .int fn => .ofInt host (fn summary) false
  | .string fn => .ofString host (fn summary) false

/-! ## Lists -/

/-- The text of a list: the texts of its items, joined as they are read. -/
def joinItems (host : Host) (front : String) : List View → Eval String
  | [] => return front
  | item :: items => do
      joinItems host (Node.joinText front (← item.getStringValue host)) items

section

variable (host : Host)

def listValue (items : List View) (wanted : ValueType) : Eval ValueContainer :=
  match wanted with
  | .int | .float => do
      typeError .numberFromList
      return .createNil
  | .string => return .createString (← joinItems host "" items) false
  | _ => do
      error "Invalid type"
      return .createNil

/-! ## Operators and functions over views -/

def binaryEvaluate (type : ValueType) (op : Operator) (left right : View) :
    Eval View :=
  if type.isInt || type.isString then binaryOperator host op left right
  else do
    typeError (.binaryOperator type)
    return .createFalse host

/-- `unary_op::evaluate`; `not` is the one operator with a bool result. -/
def unaryEvaluate (now : ℤ) (op : Operator) (subject : View) : Eval View :=
  if (op.returnType .invalid).isInt then
    match op with
    | .not => operatorNot host now subject.type subject
    | _ => do
        typeError .missingFalse
        return .createFalse host
  else do
    error "Missing operator implementation"
    return .createFalse host

def converterEvaluate (object : Option Obj) (fn : Converter Obj) (subject : View) :
    Eval View :=
  match object with
  | none => do
      error "No object attached"
      return .createFalse host
  | some obj => (fn obj subject).catching fun e => do
      error ("Failed to evaluate function: " ++ e.what)
      return .createFalse host

def functionEvaluate (now : ℤ) (object : Option Obj) (type : ValueType)
    (name : String) (binding : Binding Obj) (arguments : List View) (subject : View) :
    Eval View :=
  match binding with
  | .unbound => do
      typeError (.missingBinding name)
      return .createFalse host
  | .convert => functionConvert host now type arguments subject
  | .neg => operatorNot host now type subject
  | .undefined => do
      typeError .missingFalse
      return .createFalse host
  | .registered fn => converterEvaluate host object fn subject

/-- One item of a `unary_fun` read as a list; an unbound function yields false
without a message here. -/
def functionItem (now : ℤ) (object : Option Obj) (type : ValueType)
    (name : String) (binding : Binding Obj) (arguments : List View) (item : View) : Eval View :=
  match binding with
  | .unbound => pure (.createFalse host)
  | _ => functionEvaluate host now object type name binding arguments item

def customEvaluate (object : Option Obj) (type : ValueType) (name : String)
    (fn : CustomFunction Obj) (subject : View) : Eval View :=
  (fn object type subject).catching fun e => do
    error ("Failed to evaluate " ++ name ++ ": " ++ e.what)
    return .createFalse host

end

def View.composite (type : ValueType) (text : String) (evaluate : Eval View)
    (getListValue : Eval (List View)) : View :=
  .mk type text (fun wanted => do (← evaluate).getValue wanted) getListValue

/-! ## Trees -/

namespace Node

mutual

def view (ctx : Context Obj) : Node Obj → View
  | value type literal isUnsure => literalView ctx.host 2 type literal isUnsure
  | list type items =>
    .mk type (text ctx.host (list type items)) (listValue ctx.host (viewList ctx items))
      (pure (viewList ctx items))
  | binaryOp type op left right =>
    .composite type (text ctx.host (binaryOp type op left right))
      (binaryEvaluate ctx.host type op (view ctx left) (view ctx right)) (pure [])
  | unaryOp type op subject =>
    .composite type (text ctx.host (unaryOp type op subject))
      (unaryEvaluate ctx.host ctx.now op (view ctx subject)) (pure [])
  | unaryFun type name subject binding arguments =>
    .composite type (text ctx.host (unaryFun type name subject binding arguments))
      (functionEvaluate ctx.host ctx.now ctx.object type name binding (viewList ctx arguments)
        (view ctx subject))
      (do
        let items ← (view ctx subject).getListValue
        Logged.mapList (functionItem ctx.host ctx.now ctx.object type name binding
          (viewList ctx arguments)) items)
  | objectVariable type name accessor =>
    .mk type (variableText type name accessor)
      (variableValue ctx.host ctx.object type name accessor) (pure [])
  | customFunction type name fn subject =>
    .composite type (text ctx.host (customFunction type name fn subject))
      (customEvaluate ctx.host ctx.object type name fn (view ctx subject)) (pure [])
  | summaryVariable type name accessor =>
    .mk type (text ctx.host (summaryVariable type name accessor : Node Obj))
      (summaryValue ctx.summary name accessor) (pure [])

def viewList (ctx : Context Obj) : List (Node Obj) → List View
  | [] => []
  | item :: items => view ctx item :: viewList ctx items

end

mutual

def evaluate (ctx : Context Obj) : Node Obj → Eval View
  | value _ _ _ => pure (.createFalse ctx.host)
  | list _ items => do
      evaluateList ctx items
      return .createFalse ctx.host
  | binaryOp type op left right =>
    binaryEvaluate ctx.host type op (view ctx left) (view ctx right)
  | unaryOp _ op subject => unaryEvaluate ctx.host ctx.now op (view ctx subject)
  | unaryFun type name subject binding arguments =>
    functionEvaluate ctx.host ctx.now ctx.object type name binding (viewList ctx arguments)
      (view ctx subject)
  | objectVariable type name accessor => variableEvaluate ctx.host ctx.object type name accessor
  | customFunction type name fn subject =>
    customEvaluate ctx.host ctx.object type name fn (view ctx subject)
  | summaryVariable _ _ accessor => pure (summaryEvaluate ctx.host ctx.summary accessor)

def evaluateList (ctx : Context Obj) : List (Node Obj) → Eval Unit
  | [] => return ()
  | item :: items => do
      let _ ← evaluate ctx item
      evaluateList ctx items

end

variable (ctx : Context Obj)

@[simp] theorem type_view (n : Node Obj) : (view ctx n).type = n.type := by
  cases n <;> rfl

@[simp] theorem text_view (n : Node Obj) : (view ctx n).text = n.text ctx.host := by
  cases n <;> rfl

theorem viewList_eq_map (items : List (Node Obj)) : viewList ctx items = items.map (view ctx) := by
  induction items with
  | nil => rfl
  | cons item items ih =>
    unfold viewList
    rw [ih, List.map_cons]

/-! ## What evaluation needs -/

def requireObject : Node Obj → Bool
  | value _ _ _ => false
  | list _ _ => true
  | binaryOp _ _ left right => requireObject left || requireObject right
  | unaryOp _ _ subject => requireObject subject
  | unaryFun _ _ subject _ _ => requireObject subject
  | objectVariable _ _ _ => true
  | customFunction _ _ _ _ => true
  | summaryVariable _ _ _ => false

end Node

/-! ## Verdicts -/

/-- `parser::evaluate`: the root read as an integer; an exception becomes an error and
an unsure zero. -/
def parserEvaluate (ctx : Context Obj) (root : Node Obj) : Eval ValueContainer :=
  Logged.catching (do (← root.evaluate ctx).getValue .int) fun e => do
    error ("Evaluate exception: " ++ e.what)
    return .createInt 0 true

end Nscp.Where
