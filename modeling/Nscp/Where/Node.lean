import Nscp.Where.Summary

/-!
# Expression trees

The node classes of the filter language.  A node keeps the type it was given and
the accessors it was created with, so evaluating it needs only the context: the
record, if one is attached, the summary, and the clock.  Inference and binding
return a changed tree where the source changes it in place.

`View` is what one node may learn about another during evaluation: its type, its
value on request, its list of items and its text.
-/

namespace Nscp.Where

inductive View where
  | mk (type : ValueType) (text : String) (getValue : ValueType → Eval ValueContainer)
      (getListValue : Logged Exception Message (List View))

namespace View

def type : View → ValueType
  | mk type _ _ _ => type

def text : View → String
  | mk _ text _ _ => text

def getValue : View → ValueType → Eval ValueContainer
  | mk _ _ getValue _ => getValue

def getListValue : View → Eval (List View)
  | mk _ _ _ getListValue => getListValue

variable (t : ValueType) (s : String) (v : ValueType → Eval ValueContainer) (l : Eval (List View))

@[simp] theorem getValue_mk : (mk t s v l).getValue = v := rfl

def getIntValue (v : View) : Eval ℤ := do
  return (← v.getValue .int).getIntD 0

def getFloatValue (v : View) : Eval Float := do
  return (← v.getValue .float).getFloatD 0

def getStringValue (host : Host) (v : View) : Eval String := do
  return (← v.getValue .string).getStringD host ""

end View

/-- What an expression is evaluated against. -/
structure Context (Obj : Type) where
  host : Host
  now : ℤ
  object : Option Obj
  summary : Summary

inductive Literal where
  | string (value : String)
  | int (value : ℤ)
  | float (value : Float)

/-- The accessors of an object-bound variable, by node class; they may throw. -/
inductive Accessor (Obj : Type) where
  | int (fn : Obj → Except String ℤ)
  | float (fn : Obj → Except String Float)
  | string (fn : Obj → Except String String)
  | dual (fallbackType : ValueType) (iFn : Option (Obj → Except String ℤ))
      (fFn : Option (Obj → Except String Float)) (sFn : Option (Obj → Except String String))
  | optionalInt (numericType : ValueType) (noValue : String)
      (fn : Obj → Except String (Option ℤ))

inductive SummaryAccessor where
  | int (fn : Summary → ℤ)
  | string (fn : Summary → String)

abbrev CustomFunction (Obj : Type) := Option Obj → ValueType → View → Eval View

abbrev Converter (Obj : Type) := Obj → View → Eval View

/-- The function of a `unary_fun` node once it is bound. -/
inductive Binding (Obj : Type) where
  | unbound
  | convert
  | neg
  | undefined
  | registered (fn : Converter Obj)

/-- `arguments` of a `unaryFun` are the nodes a bound `function_convert` holds: the
value to convert, then the unit. -/
inductive Node (Obj : Type) where
  | value (type : ValueType) (literal : Literal) (isUnsure : Bool)
  | list (type : ValueType) (items : List (Node Obj))
  | binaryOp (type : ValueType) (op : Operator) (left right : Node Obj)
  | unaryOp (type : ValueType) (op : Operator) (subject : Node Obj)
  | unaryFun (type : ValueType) (name : String) (subject : Node Obj) (binding : Binding Obj)
      (arguments : List (Node Obj))
  | objectVariable (type : ValueType) (name : String) (accessor : Accessor Obj)
  | customFunction (type : ValueType) (name : String) (fn : CustomFunction Obj)
      (subject : Node Obj)
  | summaryVariable (type : ValueType) (name : String) (accessor : SummaryAccessor)

namespace Node

variable {Obj : Type}

@[elab_as_elim]
theorem treeInduction {motive : Node Obj → Prop}
    (value : ∀ type literal isUnsure, motive (value type literal isUnsure))
    (list : ∀ type items, (∀ item ∈ items, motive item) → motive (list type items))
    (binaryOp : ∀ type op left right, motive left → motive right →
      motive (binaryOp type op left right))
    (unaryOp : ∀ type op subject, motive subject → motive (unaryOp type op subject))
    (unaryFun : ∀ type name subject binding arguments, motive subject →
      (∀ argument ∈ arguments, motive argument) →
      motive (unaryFun type name subject binding arguments))
    (objectVariable : ∀ type name accessor, motive (objectVariable type name accessor))
    (customFunction : ∀ type name fn subject, motive subject →
      motive (customFunction type name fn subject))
    (summaryVariable : ∀ type name accessor, motive (summaryVariable type name accessor))
    (n : Node Obj) : motive n :=
  @Node.rec Obj motive (fun items => ∀ item ∈ items, motive item) value list binaryOp unaryOp
    unaryFun objectVariable customFunction summaryVariable (by simp)
    (fun head tail hhead htail item hitem => by
      rcases List.mem_cons.mp hitem with rfl | hitem
      · exact hhead
      · exact htail item hitem) n

def type : Node Obj → ValueType
  | value type _ _ => type
  | list type _ => type
  | binaryOp type _ _ _ => type
  | unaryOp type _ _ => type
  | unaryFun type _ _ _ _ => type
  | objectVariable type _ _ => type
  | customFunction type _ _ _ => type
  | summaryVariable type _ _ => type

def setType (t : ValueType) : Node Obj → Node Obj
  | value _ literal isUnsure => value t literal isUnsure
  | list _ items => list t items
  | binaryOp _ op left right => binaryOp t op left right
  | unaryOp _ op subject => unaryOp t op subject
  | unaryFun _ name subject binding arguments => unaryFun t name subject binding arguments
  | objectVariable _ name accessor => objectVariable t name accessor
  | customFunction _ name fn subject => customFunction t name fn subject
  | summaryVariable _ name accessor => summaryVariable t name accessor

/-! ## Factory functions -/

def createString (v : String) : Node Obj := value .string (.string v) false
def createInt (v : ℤ) : Node Obj := value .int (.int v) false
def createFloat (v : Float) : Node Obj := value .float (.float v) false
def createFalse : Node Obj := createInt 0
def createList (items : List (Node Obj)) : Node Obj := list .tbd items
def createBinOp (op : Operator) (left right : Node Obj) : Node Obj := binaryOp .tbd op left right
def createUnOp (op : Operator) (subject : Node Obj) : Node Obj := unaryOp .tbd op subject

def createUnaryFun (name : String) (subject : Node Obj) : Node Obj :=
  unaryFun .tbd name subject .unbound []

def createConversion (subject : Node Obj) : Node Obj := createUnaryFun "convert" subject

/-! ## Text -/

def literalText (host : Host) : Literal → String
  | .string v => "\"" ++ v ++ "\""
  | .int v => toString v
  | .float v => host.formatFloat v

def variableText (type : ValueType) (name : String) : Accessor Obj → String
  | .int _ => "\x7bint\x7d" ++ name
  | .float _ => "\x7bfloat\x7d" ++ name
  | .string _ => "\x7bstring\x7d" ++ name
  | .optionalInt _ _ _ => "\x7boptional-int\x7d" ++ name
  | .dual _ _ _ _ =>
    if type.isInt then "\x7bint\x7d" ++ name
    else if type.isString then "\x7bstring\x7d" ++ name
    else "\x7b" ++ type.text ++ "\x7d" ++ name

/-- Join the non-empty front with the next item, as the list nodes do. -/
def joinText (front item : String) : String :=
  if front = "" then item else front ++ ", " ++ item

mutual

/-- `to_string` without a context. -/
def text (host : Host) : Node Obj → String
  | value _ literal _ => literalText host literal
  | list _ items => listText host "" items
  | binaryOp type op left right =>
    "\x7b" ++ type.text ++ "\x7d(" ++ text host left ++ " " ++ op.text ++ " " ++
      text host right ++ ")"
  | unaryOp type op subject =>
    "\x7b" ++ type.text ++ "\x7d" ++ op.text ++ "( " ++ text host subject ++ " ) "
  | unaryFun type name subject _ _ =>
    "\x7b" ++ type.text ++ "\x7d" ++ name ++ "(" ++ text host subject ++ ")"
  | objectVariable type name accessor => variableText type name accessor
  | customFunction _ name _ _ => "\x7bstring\x7d" ++ name ++ "()"
  | summaryVariable _ name (.int _) => "\x7bint\x7d" ++ name ++ "()"
  | summaryVariable _ name (.string _) => "\x7bstr\x7d" ++ name ++ "()"

def listText (host : Host) (front : String) : List (Node Obj) → String
  | [] => front
  | item :: items => listText host (joinText front (text host item)) items

end

end Node

end Nscp.Where
