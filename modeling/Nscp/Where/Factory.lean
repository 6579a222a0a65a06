import Nscp.Where.Evaluate

/-!
# The object factory

`function_registry` and `filter_handler_impl`: the variables, functions and
conversions a check registers, and the nodes the parser asks for by name.  Names
that resolve to nothing are reported and stand for false.
-/

namespace Nscp.Where

structure FilterVariable (Obj : Type) where
  type : ValueType
  sFunction : Option (Obj → Except String String) := none
  iFunction : Option (Obj → Except String ℤ) := none
  fFunction : Option (Obj → Except String Float) := none
  oFunction : Option (Obj → Except String (Option ℤ)) := none
  noValue : String := ""

structure FilterFunction (Obj : Type) where
  type : ValueType
  function : CustomFunction Obj

structure Factory (Obj : Type) where
  host : Host
  filterVariables : String → Option (FilterVariable Obj)
  humanVariables : String → Option (FilterVariable Obj) := fun _ => none
  functions : String → Option (FilterFunction Obj) := fun _ => none
  converters : ValueType → Option (Converter Obj) := fun _ => none
  preferSummary : Bool := false

namespace Factory

variable {Obj : Type} (factory : Factory Obj)

/-- `can_convert(from, to)`: whether a conversion to the type is registered. -/
def canConvert (dst : ValueType) : Bool := (factory.converters dst).isSome

def hasVariable (name : String) : Bool :=
  (factory.filterVariables name).isSome || (factory.humanVariables name).isSome ||
    Summary.hasVariable name

section

variable (name : String)

def createSummaryVariable : Node Obj :=
  match Summary.intVariable name, Summary.stringVariable name with
  | some fn, _ => .summaryVariable .int name (.int fn)
  | none, some fn => .summaryVariable .string name (.string fn)
  | none, none => .createFalse

def registeredVariable (var : FilterVariable Obj) : Option (Node Obj) :=
  match var.oFunction, var.iFunction, var.fFunction, var.sFunction with
  | some o, _, _, _ => some (.objectVariable .multi name (.optionalInt var.type var.noValue o))
  | none, some i, some f, some s =>
    some (.objectVariable .multi name (.dual var.type (some i) (some f) (some s)))
  | none, _, some f, _ => some (.objectVariable var.type name (.float f))
  | none, some i, none, some s =>
    some (.objectVariable .multi name (.dual var.type (some i) none (some s)))
  | none, some i, none, none => some (.objectVariable var.type name (.int i))
  | none, none, none, some s => some (.objectVariable var.type name (.string s))
  | none, none, none, none => none

/-- `filter_handler_impl::create_variable`.  A name with a human-readable form only has
no accessors here. -/
def createHandlerVariable : Eval (Node Obj) :=
  let missing : Eval (Node Obj) := do
    error ("Failed to find variable: " ++ name)
    return .createFalse
  if factory.preferSummary && Summary.hasVariable name then pure (createSummaryVariable name)
  else
    match factory.filterVariables name, factory.humanVariables name with
    | some var, _ => (registeredVariable name var).elim missing pure
    | none, some _ => missing
    | none, none =>
      if Summary.hasVariable name then pure (createSummaryVariable name) else missing

def createVariable : Eval (Node Obj) :=
  if factory.hasVariable name then factory.createHandlerVariable name
  else do
    error ("Variable not found: " ++ name)
    return .createFalse

def isBinaryFunction : Bool :=
  name == "convert" || name == "auto_convert" || name == "neg"

def createFun (subject : Node Obj) : Eval (Node Obj) :=
  if isBinaryFunction name then pure (.createUnaryFun name subject)
  else
    match factory.functions name with
    | some fn =>
      if fn.type.isFloat || fn.type.isString then
        pure (.customFunction fn.type name fn.function subject)
      else pure .createFalse
    | none => do
        error ("Function not found: " ++ name)
        return .createFalse

end

end Factory

end Nscp.Where
