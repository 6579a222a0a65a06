import Nscp.Where.Parse

/-!
# The bounds of a threshold

`find_performance_data` looks for comparisons of a variable with a literal, whose literal
becomes a bound in the performance data of the variable.  Nodes report what they are to a
collector; an operator asks its sides with collectors of their own.
-/

namespace Nscp.Where

open Option

variable {Obj : Type}

inductive PerfType where
  | upper
  | lower
  | neutral
  deriving DecidableEq

structure PerformanceNode (Obj : Type) where
  value : Node Obj
  name : String
  type : PerfType

/-- The collector; the first bound of a variable stays. -/
structure PerformanceCollector (Obj : Type) where
  candidateValue : Option (Node Obj) := none
  candidateVariable : String := ""
  boundaries : String → Option (PerformanceNode Obj) := fun _ => none

namespace PerformanceCollector

variable (c : PerformanceCollector Obj)

def hasCandidateVariable : Bool := c.candidateVariable ≠ ""

def hasCandidates : Bool := c.candidateValue.isSome || c.hasCandidateVariable

def setCandidateValue (n : Node Obj) : PerformanceCollector Obj :=
  { c with candidateValue := some n }

def setCandidateVariable (name : String) : PerformanceCollector Obj :=
  { c with candidateVariable := name }

def addPerf (other : PerformanceCollector Obj) : PerformanceCollector Obj where
  candidateValue := if other.candidateValue.isSome then c.candidateValue else none
  candidateVariable := if other.hasCandidateVariable then c.candidateVariable else ""
  boundaries v := (c.boundaries v).or (other.boundaries v)

def addBoundary (node : PerformanceNode Obj) : PerformanceCollector Obj :=
  { c with boundaries := fun v =>
      (c.boundaries v).or (if v = node.name then some node else none) }

/-- A variable on one side and a value on the other, typed by the side of the variable. -/
def addCandidates (first second : PerfType) (left right : PerformanceCollector Obj) :
    Bool × PerformanceCollector Obj :=
  match left.hasCandidateVariable, right.candidateValue, right.hasCandidateVariable,
      left.candidateValue with
  | true, some value, _, _ => (true, c.addBoundary ⟨value, left.candidateVariable, first⟩)
  | _, _, true, some value => (true, c.addBoundary ⟨value, right.candidateVariable, second⟩)
  | _, _, _, _ => (false, c)

def addBoundsCandidates (lower upper : PerformanceCollector Obj) :
    Bool × PerformanceCollector Obj :=
  c.addCandidates .upper .lower lower upper

def addNeutralCandidates (left right : PerformanceCollector Obj) :
    Bool × PerformanceCollector Obj :=
  c.addCandidates .neutral .neutral left right

end PerformanceCollector

open PerformanceCollector

/-- The functions a literal or a variable is seen through. -/
def isTransparent (name : String) : Bool :=
  name = "convert" ∨ name = "auto_convert" ∨ name = "neg"

def Operator.isUpper (op : Operator) : Bool := op = .ge ∨ op = .gt

def Operator.isLower (op : Operator) : Bool := op = .le ∨ op = .lt

namespace Node

/-- A multi-typed variable read as text and a text of the summary are no candidates. -/
def candidateName : Node Obj → Option String
  | objectVariable type name (.dual _ _ _ _) => if type ≠ .string then some name else none
  | objectVariable _ name _ => some name
  | summaryVariable _ name (.int _) => some name
  | _ => none

mutual

def findPerformanceData (n : Node Obj) (c : PerformanceCollector Obj) :
    Bool × PerformanceCollector Obj :=
  match n with
  | value _ _ _ => (false, c.setCandidateValue n)
  | list _ items => (false, findItems items c)
  | binaryOp _ op left right =>
    if op = .nin ∨ op = .in then (false, c)
    else
      match findPerformanceData left {}, findPerformanceData right {} with
      | (l, subLeft), (r, subRight) =>
        if l || r then (true, (c.addPerf subLeft).addPerf subRight)
        else if subLeft.hasCandidates && subRight.hasCandidates then
          if op.isUpper then c.addBoundsCandidates subLeft subRight
          else if op.isLower then c.addBoundsCandidates subRight subLeft
          else c.addNeutralCandidates subLeft subRight
        else (false, c)
  | unaryOp _ _ subject => findPerformanceData subject c
  | unaryFun _ name subject _ _ =>
    if isTransparent name then
      match (findPerformanceData subject {}).2 with
      | sub =>
        let c := if sub.candidateValue.isSome then c.setCandidateValue n else c
        (false, if sub.hasCandidateVariable then c.setCandidateVariable sub.candidateVariable
          else c)
    else (false, c)
  | objectVariable _ _ _ | summaryVariable _ _ _ =>
    (false, match n.candidateName with
      | some name => c.setCandidateVariable name
      | none => c)
  | customFunction _ _ _ _ => (false, c)

def findItems : List (Node Obj) → PerformanceCollector Obj → PerformanceCollector Obj
  | [], c => c
  | item :: items, c => findItems items (findPerformanceData item c).2

end

end Node

/-- The filters of a check share the collector. -/
def collectPerfkeys (filters : List (Node Obj)) (c : PerformanceCollector Obj) :
    PerformanceCollector Obj :=
  filters.foldl (fun c root => (root.findPerformanceData c).2) c

/-! ## The comparisons of an expression -/

/-- The type of the bound, by the side the variable stands on. -/
def Operator.boundType (op : Operator) (variableFirst : Bool) : PerfType :=
  match op, variableFirst with
  | .gt, true | .ge, true | .lt, false | .le, false => .upper
  | .lt, true | .le, true | .gt, false | .ge, false => .lower
  | _, _ => .neutral

theorem Operator.boundType_eq (op : Operator) (variableFirst : Bool) :
    op.boundType variableFirst =
      if op.isUpper then if variableFirst then .upper else .lower
      else if op.isLower then if variableFirst then .lower else .upper
      else .neutral := by
  cases op <;> cases variableFirst <;> rfl

namespace Node

def variableOperand : Node Obj → Option String
  | unaryFun _ name subject _ _ => if isTransparent name then variableOperand subject else none
  | n => n.candidateName.filter (· ≠ "")

def isValue : Node Obj → Bool
  | value _ _ _ => true
  | _ => false

/-- A literal, with a sign, a unit or a conversion. -/
def isLiteralOperand : Node Obj → Bool
  | value _ _ _ => true
  | unaryFun _ name (list _ items) _ _ => isTransparent name && items ≠ [] && items.all isValue
  | unaryFun _ name subject _ _ => isTransparent name && isLiteralOperand subject
  | _ => false

def bound (op : Operator) (left right : Node Obj) : Option (PerformanceNode Obj) :=
  match left.variableOperand, right.variableOperand with
  | some x, _ => if right.isLiteralOperand then some ⟨right, x, op.boundType true⟩ else none
  | none, some x => if left.isLiteralOperand then some ⟨left, x, op.boundType false⟩ else none
  | none, none => none

/-- The bounds of an expression made of comparisons with `and`, `or` and `not`, from left to
right; `none` for any other. -/
def comparisons : Node Obj → Option (List (PerformanceNode Obj))
  | binaryOp _ op left right =>
    if op = .and ∨ op = .or then do return (← comparisons left) ++ (← comparisons right)
    else if op = .nin ∨ op = .in then none
    else (bound op left right).map ([·])
  | unaryOp _ op subject => if op = .not then comparisons subject else none
  | _ => none

variable {n : Node Obj}

theorem findPerformanceData_variable {x : String} (h : n.variableOperand = some x) :
    x ≠ "" ∧ n.findPerformanceData {} = (false, { candidateVariable := x }) := by
  induction n using treeInduction with
  | unaryFun type name subject binding arguments ih =>
    rw [variableOperand] at h
    split_ifs at h with hname
    obtain ⟨hx, hfind⟩ := ih h
    simp [findPerformanceData, hname, hfind, hx, hasCandidateVariable, setCandidateVariable]
  | objectVariable type name accessor | summaryVariable type name accessor =>
    obtain ⟨hname, hx⟩ := filter_eq_some_iff.mp h
    exact ⟨by simpa using hx, by simp [findPerformanceData, hname, setCandidateVariable]⟩
  | _ => simp [variableOperand, candidateName] at h

theorem findItems_values {items : List (Node Obj)} (h : items.all isValue = true)
    (c : PerformanceCollector Obj) :
    ∃ v, findItems items c = { c with candidateValue := v } ∧
      (c.candidateValue.isSome ∨ items ≠ [] → v.isSome) := by
  induction items generalizing c with
  | nil => exact ⟨c.candidateValue, rfl, by simp⟩
  | cons item items ih =>
    cases item with
    | value type literal isUnsure =>
      obtain ⟨v, hv, hsome⟩ := ih (by simpa [isValue] using h) (c.setCandidateValue _)
      exact ⟨v, hv, fun _ => hsome (.inl rfl)⟩
    | _ => simp [isValue] at h

theorem findPerformanceData_literal (h : n.isLiteralOperand = true) :
    n.findPerformanceData {} = (false, { candidateValue := some n }) := by
  fun_induction isLiteralOperand n with
  | case1 => rfl
  | case2 type name listType items =>
    simp only [Bool.and_eq_true, decide_eq_true_eq] at h
    obtain ⟨v, hv, hsome⟩ := findItems_values h.2 {}
    simp [findPerformanceData, h.1.1, hv, hsome (.inr h.1.2), hasCandidateVariable,
      setCandidateValue]
  | case3 type name subject binding arguments _ ih =>
    obtain ⟨hname, hsubject⟩ := Bool.and_eq_true_iff.mp h
    simp [findPerformanceData, hname, ih hsubject, hasCandidateVariable, setCandidateValue]
  | case4 => cases h

theorem findPerformanceData_bound {type : ValueType} {op : Operator} {left right : Node Obj}
    {b : PerformanceNode Obj} (hop : ¬ (op = .nin ∨ op = .in)) (h : bound op left right = some b)
    (c : PerformanceCollector Obj) :
    (binaryOp type op left right).findPerformanceData c = (true, c.addBoundary b) := by
  rw [bound] at h
  split at h
  case h_3 => cases h
  -- the variable stands on the left, or on the right
  all_goals
    rename_i x _ hx
    obtain ⟨hne, hvariable⟩ := findPerformanceData_variable hx
    split_ifs at h with hliteral
    cases h
    simp only [findPerformanceData, hvariable, findPerformanceData_literal hliteral, if_neg hop,
      Operator.boundType_eq]
    split_ifs <;> simp_all [hasCandidates, hasCandidateVariable, addBoundsCandidates,
      addNeutralCandidates, addCandidates]

theorem findPerformanceData_comparisons {bs : List (PerformanceNode Obj)}
    (h : n.comparisons = some bs) (c : PerformanceCollector Obj) :
    (n.findPerformanceData c).1 = true ∧ ∀ x, (n.findPerformanceData c).2.boundaries x =
      (c.boundaries x).or (bs.find? (·.name = x)) := by
  induction n using treeInduction generalizing bs c with
  | binaryOp type op left right ihl ihr =>
    rw [comparisons] at h
    split_ifs at h with hjoin hin
    · obtain ⟨ls, hls, h⟩ := Option.bind_eq_some_iff.mp h
      obtain ⟨rs, hrs, h⟩ := bind_eq_some_iff.mp h
      cases h
      obtain ⟨hl, hleft⟩ := ihl hls {}
      obtain ⟨hr, hright⟩ := ihr hrs {}
      have hop : ¬ (op = .nin ∨ op = .in) := by rcases hjoin with rfl | rfl <;> decide
      have hfind : (binaryOp type op left right).findPerformanceData c =
          (true, (c.addPerf (left.findPerformanceData {}).2).addPerf
            (right.findPerformanceData {}).2) := by
        simp [findPerformanceData, if_neg hop, hl]
      simp [hfind, addPerf, hleft, hright, List.find?_append, Option.or_assoc]
    · obtain ⟨b, hb, rfl⟩ := map_eq_some_iff.mp h
      rw [findPerformanceData_bound hin hb]
      refine ⟨rfl, fun x => ?_⟩
      by_cases hx : b.name = x <;> simp [addBoundary, hx, eq_comm]
  | unaryOp type op subject ih =>
    rw [comparisons] at h
    split_ifs at h
    exact ih h c
  | _ => cases h

end Node

/-- Filters made of comparisons leave, for every variable, the bound it had or else that of
its leftmost comparison. -/
theorem collectPerfkeys_leftmost {filters : List (Node Obj)}
    {bounds : List (List (PerformanceNode Obj))}
    (h : filters.mapM Node.comparisons = some bounds) (c : PerformanceCollector Obj) (x : String) :
    (collectPerfkeys filters c).boundaries x =
      (c.boundaries x).or (bounds.flatten.find? (·.name = x)) := by
  induction filters generalizing bounds c with
  | nil =>
    obtain rfl : [] = bounds := by simpa using h
    simp [collectPerfkeys]
  | cons root filters ih =>
    obtain ⟨bs, hbs, rest, hrest, rfl⟩ : ∃ bs, root.comparisons = some bs ∧
        ∃ rest, filters.mapM Node.comparisons = some rest ∧ bs :: rest = bounds := by
      simpa [List.mapM_cons, bind_eq_some_iff] using h
    rw [collectPerfkeys, List.foldl_cons, ← collectPerfkeys, ih hrest,
      (Node.findPerformanceData_comparisons hbs c).2, List.flatten_cons, List.find?_append,
      Option.or_assoc]

/-- The second filter compares `level` once more, and `count` with a literal on the left. -/
theorem collectPerfkeys_leftmost_levelTree :
    let count : Node Sample.Row := .summaryVariable .int "count" (.int (·.countMatch))
    let filters := [Sample.levelTree, .binaryOp .bool .and
      (.binaryOp .bool .lt (.objectVariable .int "level" (.int fun row => .ok row.level))
        (.createInt 7)) (.binaryOp .bool .ge (.createInt 3) count)]
    (collectPerfkeys filters {}).boundaries "level" = some ⟨.createInt 5, "level", .upper⟩ ∧
      (collectPerfkeys filters {}).boundaries "count" = some ⟨.createInt 3, "count", .lower⟩ := by
  intro count filters
  have hcomparisons : filters.mapM Node.comparisons =
      some [[⟨.createInt 5, "level", .upper⟩, ⟨.createString "up", "name", .neutral⟩],
        [⟨.createInt 7, "level", .lower⟩, ⟨.createInt 3, "count", .lower⟩]] := rfl
  constructor
  · simpa using collectPerfkeys_leftmost hcomparisons {} "level"
  · simpa using collectPerfkeys_leftmost hcomparisons {} "count"

/-- A text of the summary is compared and has no bound. -/
theorem collectPerfkeys_list :
    (validate Sample.factory "list = \x27a\x27 or count > 2".toList).map (fun root =>
      ["list", "count"].map fun x => ((collectPerfkeys [root] {}).boundaries x).isSome) =
      some [false, true] := by
  decide +kernel

end Nscp.Where
