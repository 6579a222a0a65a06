import Nscp.Where.Evaluate

/-!
# The filter engine

`parsers/where/engine.cpp`: a list of expressions judged against one context.  `match`
looks at an expression in the pass it belongs to, with or without a record; a forced
match ignores that and reports how sure it is.  Messages only reach a log here and are
dropped.
-/

namespace Nscp.Where

open Logged

variable {Obj : Type}

/-- The value `parser::evaluate` returns; it catches whatever a node throws. -/
def verdictValue (ctx : Context Obj) (root : Node Obj) : ValueContainer :=
  match (parserEvaluate ctx root).result with
  | .ok v => v
  | .error _ => .createInt 0 true

/-- The root read as an integer, before an exception is caught. -/
def rootValue (ctx : Context Obj) (root : Node Obj) : Except Exception ValueContainer :=
  (root.evaluate ctx).result.bind fun v => (v.getValue .int).result

theorem verdictValue_eq (ctx : Context Obj) (root : Node Obj) :
    verdictValue ctx root = match rootValue ctx root with
      | .ok c => c
      | .error _ => .createInt 0 true := by
  unfold verdictValue parserEvaluate Logged.catching
  rw [rootValue, ← result_bind]
  cases (do (← root.evaluate ctx).getValue .int : Eval ValueContainer).result with
  | ok c => rfl
  | error e => rfl

/-- The node classes that are evaluated each time they are read. -/
def Node.isOperator : Node Obj → Bool
  | binaryOp _ _ _ _ | unaryOp _ _ _ | unaryFun _ _ _ _ _ => true
  | _ => false

theorem rootValue_of_isOperator (ctx : Context Obj) {root : Node Obj}
    (h : root.isOperator = true) : rootValue ctx root = ((root.view ctx).getValue .int).result := by
  rw [rootValue, ← result_bind]
  cases root with
  | binaryOp type op left right => rfl
  | unaryOp type op subject => rfl
  | unaryFun type name subject binding arguments => rfl
  | _ => cases h

/-! ## One expression -/

def filterMatch (ctx : Context Obj) (expectObject : Bool) (root : Node Obj) : Bool :=
  if expectObject && !root.requireObject then false
  else if !expectObject && root.requireObject then false
  else (verdictValue ctx root).isTrue

structure ForceMatchResult where
  matched : Bool
  isUnsure : Bool
  deriving DecidableEq, Repr

def filterMatchForce (ctx : Context Obj) (root : Node Obj) : ForceMatchResult :=
  let v := verdictValue ctx root
  ⟨v.isTrue, v.isUnsure⟩

/-! ## A list of expressions -/

def engineMatch (ctx : Context Obj) (expectObject : Bool) (filters : List (Node Obj)) : Bool :=
  filters.any (filterMatch ctx expectObject)

def matchForceFrom (ctx : Context Obj) (anyUnsure : Bool) : List (Node Obj) → ForceMatchResult
  | [] => ⟨false, anyUnsure⟩
  | f :: filters =>
    let r := filterMatchForce ctx f
    if r.matched && !r.isUnsure then ⟨true, false⟩
    else matchForceFrom ctx (r.isUnsure || anyUnsure) filters

def engineMatchForce (ctx : Context Obj) (filters : List (Node Obj)) : ForceMatchResult :=
  matchForceFrom ctx false filters

end Nscp.Where
