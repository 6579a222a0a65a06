import Nscp.Where.Engine
import Nscp.Where.Parse

/-!
# The pass an expression belongs to

`engine_filter::match` looks at an expression once per record when `require_object` is
true and once in the summary pass otherwise.  A list and a custom function answer that
question from their kind and not from what they hold.
-/

namespace Nscp.Where

variable {Obj : Type}

namespace Node

mutual

/-- A variable bound to the record occurs in the tree.  The arguments of a bound function
are nodes of its subject. -/
def mentionsObject : Node Obj → Bool
  | list _ items => mentionsObjectList items
  | binaryOp _ _ left right => mentionsObject left || mentionsObject right
  | unaryOp _ _ subject | unaryFun _ _ subject _ _ | customFunction _ _ _ subject =>
    mentionsObject subject
  | objectVariable _ _ _ => true
  | value _ _ _ | summaryVariable _ _ _ => false

def mentionsObjectList : List (Node Obj) → Bool
  | [] => false
  | item :: items => mentionsObject item || mentionsObjectList items

end

/-- A list or a custom function is reached from the root. -/
def answersByKind : Node Obj → Bool
  | list _ _ | customFunction _ _ _ _ => true
  | binaryOp _ _ left right => answersByKind left || answersByKind right
  | unaryOp _ _ subject | unaryFun _ _ subject _ _ => answersByKind subject
  | _ => false

theorem requireObject_eq (n : Node Obj) :
    n.requireObject = (n.mentionsObject || n.answersByKind) := by
  induction n using treeInduction with
  | binaryOp type op left right ihl ihr =>
    simp only [requireObject, mentionsObject, answersByKind, ihl, ihr]
    ac_rfl
  | unaryOp _ _ _ ih | unaryFun _ _ _ _ _ ih _ =>
    simpa [requireObject, mentionsObject, answersByKind] using ih
  | _ => simp [requireObject, mentionsObject, answersByKind]

end Node

theorem filterMatch_of_requireObject {root : Node Obj} {b : Bool} (h : root.requireObject = b)
    (ctx : Context Obj) : filterMatch ctx b root = (verdictValue ctx root).isTrue ∧
      filterMatch ctx (!b) root = false := by
  cases b <;> simp [filterMatch, h]

/-- An expression is judged in the pass it belongs to unless a list or a custom function
stands in it and it reads no record. -/
theorem requireObject_exact_iff (root : Node Obj) :
    ((root.requireObject = true ↔ root.mentionsObject = true) ∧
      (root.mentionsObject = false → ∀ ctx : Context Obj,
        filterMatch ctx false root = (verdictValue ctx root).isTrue ∧
          filterMatch ctx true root = false)) ↔
      (root.answersByKind = true → root.mentionsObject = true) := by
  have hrequire := root.requireObject_eq
  constructor
  · rintro ⟨hexact, -⟩ hkind
    apply hexact.mp
    simp [hrequire, hkind]
  · intro hkind
    have hexact : root.requireObject = root.mentionsObject := by
      cases h : root.answersByKind <;> simp_all
    refine ⟨by rw [hexact], fun hnone ctx => ?_⟩
    exact filterMatch_of_requireObject (hexact.trans hnone) ctx

/-- Neither reads the record.  Both are left out of the summary pass, where the list holds,
and judged once per row. -/
theorem requireObject_lists :
    (validate Sample.factory "count in (0, 1)".toList).map (fun root =>
      (root.mentionsObject, root.requireObject, filterMatch (Sample.context none) false root,
        filterMatch (Sample.context (some ⟨7, 0, ""⟩)) true root)) =
      some (false, true, false, true) ∧
    (validate Sample.factory "count < 5m".toList).map (fun root =>
      (root.mentionsObject, root.requireObject)) = some (false, true) := by
  constructor <;> decide +kernel

end Nscp.Where
