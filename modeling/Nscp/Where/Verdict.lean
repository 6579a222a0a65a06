import Nscp.Library.Fallible
import Nscp.Where.Evaluate

/-!
# Verdicts of operators

What an operator computes, apart from the messages it records: an integer and whether
it is sure.  Each operator is shown to evaluate to its verdict, so statements about
values can be made about verdicts.
-/

namespace Nscp.Where

open View ValueContainer Number Fallible Logged

variable {Obj : Type}

/-! ## Results without messages -/

variable {α : Type}

@[simp] theorem result_error_bind (text : String) (f : Unit → Eval α) :
    (error text >>= f).result = (f ()).result := rfl

@[simp] theorem result_ite (p : Prop) [Decidable p] (x y : Eval α) :
    (if p then x else y).result = if p then x.result else y.result := by
  split <;> rfl

def ValueContainer.isNumber (v : ValueContainer) : Bool := v.isInt || v.isFloat

theorem getInt_result (v : ValueContainer) :
    v.getInt.result = if v.isNumber then .ok (v.getIntD 0)
      else .error (.filter "Type is not int") := by
  unfold getInt isNumber
  split <;> rfl

theorem getFloat_result (v : ValueContainer) :
    v.getFloat.result = if v.isNumber then .ok (v.getFloatD 0)
      else .error (.filter "Type is not float") := by
  unfold getFloat isNumber
  split <;> rfl

theorem getString_result (host : Host) (v : ValueContainer) :
    (v.getString host).result = if v.isInt || v.isFloat || v.isString then
      .ok (v.getStringD host "") else .error (.filter "Type is not string") := by
  unfold getString
  split <;> rfl

/-! ## Verdicts -/

structure Verdict where
  value : ℤ
  isUnsure : Bool
  deriving DecidableEq, Repr

namespace Verdict

def ofBool (b isUnsure : Bool) : Verdict := ⟨if b then 1 else 0, isUnsure⟩

def container (v : Verdict) : ValueContainer := .createInt v.value v.isUnsure

def view (host : Host) (v : Verdict) : View := .ofInt host v.value v.isUnsure

def read (d : Domain) (v : Verdict) : ValueContainer :=
  match d with
  | .int => .createInt v.value v.isUnsure
  | .float => .createFloat (Float.ofInt v.value) v.isUnsure
  | .string => .createString (toString v.value) v.isUnsure

@[simp] theorem isUnsure_read (d : Domain) (v : Verdict) : (v.read d).isUnsure = v.isUnsure := by
  cases d <;> rfl

@[simp] theorem isNoValue_read (d : Domain) (v : Verdict) : (v.read d).isNoValue = false := by
  cases d <;> rfl

theorem getValue_view (host : Host) (v : Verdict) (d : Domain) :
    ((v.view host).getValue d.type).result = .ok (v.read d) := by
  cases d <;> rfl

end Verdict

open Verdict

/-! ## Comparisons -/

def comparisonDomain (left right : ValueType) : Option Domain :=
  if left.isInt && right.isInt then some .int
  else if left.isFloat && right.isFloat then some .float
  else if left ≠ right ∧ right ≠ .tbd then none
  else if left.isInt then some .int
  else if left.isFloat then some .float
  else if left = .string then some .string
  else none

def compareVerdict (host : Host) (op : Operator) (d : Domain) (lhs rhs : ValueContainer) :
    Verdict :=
  if !d.holds lhs || !d.holds rhs then ⟨0, true⟩
  else if lhs.isNoValue || rhs.isNoValue then ⟨0, false⟩
  else .ofBool (compareValues host op d lhs rhs) (lhs.isUnsure || rhs.isUnsure)

theorem evalCompare_result (host : Host) (op : Operator) (d : Domain) (left right : View) :
    (evalCompare host op d left right).result =
      (left.getValue d.type).result.bind fun lhs => (right.getValue d.type).result.map fun rhs =>
        (compareVerdict host op d lhs rhs).container := by
  unfold evalCompare
  refine result_bind_congr fun lhs => result_bind_map fun rhs => ?_
  unfold compareVerdict
  split
  · rfl
  split
  · rfl
  · rfl

/-! ## `and` and `or` -/

/-- An operand of `and` and `or`: it has to be a number. -/
def operandVerdict (v : View) : Except Exception Verdict :=
  (v.getValue .int).result.bind fun c => c.getInt.result.map fun i => ⟨i, c.isUnsure⟩

/-- The operand is sure of the truth that decides on its own. -/
def Verdict.stops (stop : Bool) (v : Verdict) : Bool := decide (v.value ≠ 0) = stop && !v.isUnsure

def logicVerdict (stop : Bool) (lhs rhs : Verdict) : Verdict :=
  if lhs.stops stop || rhs.stops stop then .ofBool stop false
  else .ofBool (if stop then decide (lhs.value ≠ 0) || decide (rhs.value ≠ 0)
    else decide (lhs.value ≠ 0) && decide (rhs.value ≠ 0)) (lhs.isUnsure || rhs.isUnsure)

theorem result_operand_bind {v : View} {f : ValueContainer → ℤ → Eval α}
    {g : Verdict → Except Exception α} (h : ∀ c i, (f c i).result = g ⟨i, c.isUnsure⟩) :
    (v.getValue .int >>= fun c => c.getInt >>= f c).result = (operandVerdict v).bind g := by
  rw [operandVerdict, result_bind]
  cases (v.getValue .int).result with
  | error e => rfl
  | ok c =>
    rw [except_ok_bind, except_ok_bind, result_bind]
    cases c.getInt.result with
    | error e => rfl
    | ok i => exact h c i

theorem evalLogic_result (stop : Bool) (left right : View) :
    (evalLogic stop left right).result = (operandVerdict left).bind fun lhs =>
        if lhs.stops stop then .ok (ofBool stop false).container
        else (operandVerdict right).map fun rhs => (logicVerdict stop lhs rhs).container := by
  refine result_operand_bind fun l li => ?_
  rw [result_ite]
  refine if_ctx_congr Iff.rfl (fun _ => rfl) fun hstop => ?_
  rw [except_map_eq_bind]
  refine result_operand_bind fun r ri => ?_
  rw [result_ite, logicVerdict, Bool.eq_false_iff.mpr hstop, Bool.false_or,
    apply_ite container, apply_ite Except.ok]
  rfl

/-! ## Binary operators -/

def patternDomain (left : ValueType) : Option Domain :=
  if left.isInt then some .int
  else if left.isFloat then some .float
  else if left = .string then some .string
  else none

/-- The container a binary operator ends with; a type error ends with a plain false. -/
def binaryContainer (host : Host) (op : Operator) (left right : View) :
    Except Exception ValueContainer :=
  match op with
  | .eq | .ne | .gt | .lt | .le | .ge =>
    match comparisonDomain left.type right.type with
    | some d => (evalCompare host op d left right).result
    | none => .ok (.createInt 0 false)
  | .like | .notLike | .regexp | .notRegexp =>
    match patternDomain left.type with
    | some d => (evalPattern host op d left right).result
    | none => .ok (.createInt 0 false)
  | .and | .binand =>
    if left.type.isInt && right.type.isInt then (evalLogic false left right).result
    else .ok (.createInt 0 false)
  | .or | .binor =>
    if left.type.isInt && right.type.isInt then (evalLogic true left right).result
    else .ok (.createInt 0 false)
  | .in =>
    match comparisonDomain left.type right.type with
    | some d => (evalIn host true d left right).result
    | none => .ok (.createInt 0 false)
  | .nin =>
    match comparisonDomain left.type right.type with
    | some d => (evalIn host false d left right).result
    | none => .ok (.createInt 0 false)
  | .inv | .not => .ok (.createInt 0 false)

section

variable (host : Host)

theorem createNum_result (x : Eval ValueContainer) :
    (do return createNum host (← x) : Eval View).result = x.result.map (createNum host) := by
  obtain ⟨_ | _, _⟩ := x <;> rfl

theorem simpleBoolEvaluate_result (eval : Domain → View → View → Eval ValueContainer)
    (left right : View) : (simpleBoolEvaluate host eval left right).result =
      (match comparisonDomain left.type right.type with
        | some d => (eval d left right).result
        | none => .ok (.createInt 0 false)).map (createNum host) := by
  unfold simpleBoolEvaluate comparisonDomain
  -- every branch but the two type errors reads the sides in one domain
  split_ifs <;> first | rfl | exact createNum_result host _

theorem logicEvaluate_result (stop : Bool) (desc : String) (left right : View) :
    (logicEvaluate host stop desc left right).result =
      (if left.type.isInt && right.type.isInt then (evalLogic stop left right).result
        else .ok (.createInt 0 false)).map (createNum host) := by
  unfold logicEvaluate
  split
  · exact createNum_result host _
  split
  · rfl
  · rfl

theorem patternEvaluate_result (op : Operator) (desc : String) (left right : View) :
    (patternEvaluate host op desc left right).result = (match patternDomain left.type with
        | some d => (evalPattern host op d left right).result
        | none => .ok (.createInt 0 false)).map (createNum host) := by
  unfold patternEvaluate patternDomain
  split_ifs <;> first | rfl | exact createNum_result host _

theorem binaryOperator_result (op : Operator) (left right : View) :
    (binaryOperator host op left right).result =
      (binaryContainer host op left right).map (createNum host) := by
  cases op
  case eq | ne | gt | lt | le | ge => exact simpleBoolEvaluate_result host _ left right
  case like | notLike | regexp | notRegexp => exact patternEvaluate_result host _ _ left right
  case and | binand | or | binor => exact logicEvaluate_result host _ _ left right
  case «in» | nin => exact simpleBoolEvaluate_result host _ left right
  case inv | not => rfl

end

/-- `binary_op::evaluate`: operators whose own type is no number and no text are not
run. -/
def binaryValue (host : Host) (type : ValueType) (op : Operator) (left right : View) :
    Except Exception ValueContainer :=
  if type.isInt || type.isString then binaryContainer host op left right
  else .ok (.createInt 0 false)

theorem binaryEvaluate_result (host : Host) (type : ValueType) (op : Operator)
    (left right : View) :
    (binaryEvaluate host type op left right).result =
      (binaryValue host type op left right).map (createNum host) := by
  unfold binaryEvaluate binaryValue
  split
  · exact binaryOperator_result host op left right
  · rfl

/-! ## Operators end with verdicts -/

def IsVerdict (c : ValueContainer) : Prop := ∃ b isUnsure, c = (ofBool b isUnsure).container

theorem isVerdict_false (isUnsure : Bool) : IsVerdict (.createInt 0 isUnsure) :=
  ⟨false, isUnsure, rfl⟩

theorem compareVerdict_isVerdict (host : Host) (op : Operator) (d : Domain)
    (lhs rhs : ValueContainer) : IsVerdict (compareVerdict host op d lhs rhs).container := by
  unfold compareVerdict
  split
  · exact isVerdict_false true
  split
  · exact isVerdict_false false
  · exact ⟨_, _, rfl⟩

theorem logicVerdict_isVerdict (stop : Bool) (lhs rhs : Verdict) :
    IsVerdict (logicVerdict stop lhs rhs).container := by
  unfold logicVerdict
  split
  · exact ⟨stop, false, rfl⟩
  · exact ⟨_, _, rfl⟩

variable {c : ValueContainer} {d : Domain} {left right : View} {host : Host} {op : Operator}

theorem evalCompare_isVerdict (h : (evalCompare host op d left right).result = .ok c) :
    IsVerdict c := by
  rw [evalCompare_result] at h
  obtain ⟨lhs, -, h⟩ := bind_eq_ok h
  obtain ⟨rhs, -, rfl⟩ := map_eq_ok h
  exact compareVerdict_isVerdict host op d lhs rhs

theorem evalLogic_isVerdict {stop : Bool} (h : (evalLogic stop left right).result = .ok c) :
    IsVerdict c := by
  rw [evalLogic_result] at h
  obtain ⟨lhs, -, h⟩ := bind_eq_ok h
  split at h
  · cases h
    exact ⟨stop, false, rfl⟩
  · obtain ⟨rhs, -, rfl⟩ := map_eq_ok h
    exact logicVerdict_isVerdict stop lhs rhs

/-- The verdict on a text, and unsure false for a pattern that is none or does not
compile. -/
def matchVerdict (host : Host) (op : Operator) (subject : String) (pattern : ValueContainer)
    (isUnsure : Bool) : Verdict :=
  if !pattern.isString then ⟨0, true⟩
  else
    match patternMatched host op subject (pattern.getStringD host "") with
    | .ok matched => .ofBool matched isUnsure
    | .error _ => ⟨0, true⟩

section

variable (host : Host) (op : Operator) (subject : String) (pattern : ValueContainer)
  (isUnsure : Bool)

theorem matchVerdict_isVerdict :
    IsVerdict (matchVerdict host op subject pattern isUnsure).container := by
  unfold matchVerdict
  split
  · exact isVerdict_false true
  split
  · exact ⟨_, _, rfl⟩
  · exact isVerdict_false true

theorem matchToContainer_result : (matchToContainer host op subject pattern isUnsure).result =
      .ok (matchVerdict host op subject pattern isUnsure).container := by
  unfold matchToContainer matchVerdict
  split
  · rfl
  cases patternMatched host op subject (pattern.getStringD host "") with
  | ok matched => rfl
  | error text => rfl

end

/-- The text of the left side of a pattern operator, and whether there is one. -/
def patternSubject (host : Host) (d : Domain) (lhs rhs : ValueContainer) :
    Except Exception (Option String) :=
  match d with
  | .int => lhs.getInt.result.map fun i => some (toString i)
  | .float => lhs.getFloat.result.map fun x => some (host.formatFloat x)
  | .string =>
    if !lhs.isString || !rhs.isString then .ok none
    else (lhs.getString host).result.map some

theorem evalPattern_result (host : Host) (op : Operator) (d : Domain) (left right : View) :
    (evalPattern host op d left right).result =
      (left.getValue d.type).result.bind fun lhs => (right.getValue .string).result.bind fun rhs =>
        (patternSubject host d lhs rhs).map fun subject => (subject.elim ⟨0, true⟩ fun text =>
          matchVerdict host op text rhs (lhs.isUnsure || rhs.isUnsure)).container := by
  unfold evalPattern
  refine result_bind_congr fun lhs => result_bind_congr fun rhs => ?_
  cases d with
  | int | float =>
    simp only [patternSubject, except_map_map]
    exact result_bind_map fun _ => matchToContainer_result host op _ rhs _
  | string =>
    simp only [patternSubject, result_ite]
    split
    · rfl
    rw [except_map_map]
    exact result_bind_map fun text => matchToContainer_result host op _ rhs _

theorem evalPattern_isVerdict (h : (evalPattern host op d left right).result = .ok c) :
    IsVerdict c := by
  rw [evalPattern_result] at h
  obtain ⟨lhs, -, h⟩ := bind_eq_ok h
  obtain ⟨rhs, -, h⟩ := bind_eq_ok h
  obtain ⟨subject, -, rfl⟩ := map_eq_ok h
  cases subject with
  | none => exact isVerdict_false true
  | some text => exact matchVerdict_isVerdict host op text rhs _

def itemEquals (host : Host) (d : Domain) (lhs c : ValueContainer) : Bool :=
  match d with
  | .int => c.getIntD 0 == lhs.getIntD 0
  | .float => c.getFloatD 0 == lhs.getFloatD 0
  | .string => c.getStringD host "" == lhs.getStringD host ""

section

variable (host : Host) (d : Domain) (lhs : ValueContainer) (item : View)

theorem itemMatches_result : (itemMatches host d lhs item).result =
      (item.getValue d.type).result.map (itemEquals host d lhs) := by
  generalize hx : item.getValue d.type = x
  cases d <;> rw [Domain.type] at hx
  case int => rw [itemMatches, getIntValue, hx]; obtain ⟨_ | _, _⟩ := x <;> rfl
  case float => rw [itemMatches, getFloatValue, hx]; obtain ⟨_ | _, _⟩ := x <;> rfl
  case string => rw [itemMatches, getStringValue, hx]; obtain ⟨_ | _, _⟩ := x <;> rfl

theorem anyItem_cons_result (items : List View) : (anyItem host d lhs (item :: items)).result =
      (item.getValue d.type).result.bind fun c =>
        if itemEquals host d lhs c then .ok true else (anyItem host d lhs items).result := by
  rw [anyItem, result_bind, itemMatches_result]
  cases (item.getValue d.type).result with
  | error e => rfl
  | ok c =>
    rw [except_ok_map, except_ok_bind, except_ok_bind, result_ite]
    rfl

end

theorem evalIn_result (host : Host) (found : Bool) (d : Domain) (left right : View) :
    (evalIn host found d left right).result = (left.getValue d.type).result.bind fun lhs =>
        if !d.holds lhs then .ok (.createInt 0 true)
        else if lhs.isNoValue then .ok (.createInt 0 false)
        else right.getListValue.result.bind fun items =>
          (anyItem host d lhs items).result.map fun hit =>
            (ofBool (if hit then found else !found) lhs.isUnsure).container := by
  unfold evalIn
  refine result_bind_congr fun lhs => ?_
  simp only [result_ite]
  split
  · rfl
  split
  · rfl
  exact result_bind_congr fun items => result_bind_map fun hit => rfl

theorem evalIn_isVerdict {found : Bool} (h : (evalIn host found d left right).result = .ok c) :
    IsVerdict c := by
  rw [evalIn_result] at h
  obtain ⟨lhs, -, h⟩ := bind_eq_ok h
  split at h
  · cases h
    exact isVerdict_false true
  split at h
  · cases h
    exact isVerdict_false false
  obtain ⟨items, -, h⟩ := bind_eq_ok h
  obtain ⟨hit, -, h⟩ := map_eq_ok h
  exact ⟨_, _, h.symm⟩

theorem binaryValue_isVerdict {type : ValueType} (h : binaryValue host type op left right = .ok c) :
    IsVerdict c := by
  have hfalse : ∀ {x : Except Exception ValueContainer}, x = .ok (.createInt 0 false) →
      x = .ok c → IsVerdict c := by
    intro x hx hc
    rw [hx] at hc
    cases hc
    exact isVerdict_false false
  unfold binaryValue binaryContainer at h
  repeat' split at h
  all_goals first
    | exact hfalse rfl h
    | exact evalCompare_isVerdict h
    | exact evalPattern_isVerdict h
    | exact evalLogic_isVerdict h
    | exact evalIn_isVerdict h

/-! ## Negation and conversion -/

def relabel {α : Type} (what : String) : Except Exception α → Except Exception α
  | .error (.outOfRange _) => .error (.outOfRange what)
  | x => x

theorem rethrow_result (what : String) (x : Eval View) :
    (rethrow what x).result = relabel what x.result := by
  obtain ⟨(e | v), log⟩ := x
  · cases e <;> rfl
  · rfl

theorem relabel_map {β : Type} (what : String) (x : Except Exception α) (f : α → β) :
    relabel what (x.map f) = (relabel what x).map f := by
  cases x with
  | ok a => rfl
  | error e => cases e <;> rfl

/-- The day as far from now as `date`, on the other side. -/
def reflectedDate (now date : ℤ) : Except Exception ℤ :=
  (addChecked now now "neg()").bind fun twice =>
    (negateChecked date "neg()").bind fun negated =>
      addChecked twice negated "neg()"

def notVerdict (now : ℤ) (type : ValueType) (v : ValueContainer) : Except Exception Verdict :=
  let what := "neg(" ++ toString (v.getIntD 0) ++ ") does not fit a 64-bit integer"
  match type with
  | .bool =>
    .ok (if !v.isInt then ⟨0, true⟩ else ⟨if v.getIntD 0 ≠ 0 then 0 else 1, v.isUnsure⟩)
  | .int =>
    if !v.isInt then .ok ⟨0, true⟩
    else if v.getIntD 0 = int64Min then .error (.outOfRange what)
    else .ok ⟨-v.getIntD 0, v.isUnsure⟩
  | .date =>
    if !v.isInt then .ok ⟨now, true⟩
    else (relabel what (reflectedDate now (v.getIntD 0))).map fun date => ⟨date, v.isUnsure⟩
  | _ => .ok ⟨0, true⟩

/-- The types `not` and `neg` are defined on; the subject is read for these only. -/
def negates (type : ValueType) : Bool :=
  match type with
  | .bool | .int | .date => true
  | _ => false

theorem operatorNot_result (host : Host) (now : ℤ) (type : ValueType) (subject : View) :
    (operatorNot host now type subject).result =
      if negates type then (subject.getValue .int).result.bind fun v =>
        (notVerdict now type v).map (view host)
      else .ok (view host ⟨0, true⟩) := by
  cases type
  case bool =>
    simp only [operatorNot, negates, if_true]
    refine result_bind_congr fun v => ?_
    simp only [notVerdict, result_ite, except_ok_map]
    split <;> rfl
  case int =>
    simp only [operatorNot, negates, if_true]
    refine result_bind_congr fun v => ?_
    simp only [notVerdict, result_ite]
    split
    · rfl
    split
    · rfl
    · rfl
  case date =>
    simp only [operatorNot, negates, if_true]
    refine result_bind_congr fun v => ?_
    simp only [notVerdict, result_ite]
    split
    · rfl
    rw [rethrow_result, ← relabel_map, ← relabel_map]
    congr 1
    simp only [reflectedDate, except_map_bind, except_map_map]
    exact result_bind_congr fun twice => result_bind_congr fun negated =>
      result_bind_map fun date => rfl
  all_goals rfl

def unitDomain (type : ValueType) (v : ValueType) : Domain :=
  if type = .date then if v.isFloat then .float else .int
  else if v.isFloat && !v.isInt then .float
  else .int

/-- The value scaled by its unit: an offset from now, or a number of bytes. -/
def scaledByUnit (now : ℤ) (type : ValueType) (d : Domain) (unit : String)
    (vc : ValueContainer) : Except Exception ℤ :=
  if type = .date then
    (match d with
      | .float => llroundChecked
          (vc.getFloatD 0 * Float.ofInt (timeUnitMultiplier unit)) "convert()"
      | _ => mulChecked (vc.getIntD 0) (timeUnitMultiplier unit) "convert()").bind
      fun offset => addChecked now offset "convert()"
  else
    match d with
    | .float => (decodeByteUnitsFloat (vc.getFloatD 0) unit).bind fun scaled =>
        llroundChecked scaled "convert()"
    | _ => decodeByteUnits (vc.getIntD 0) unit

section

variable (host : Host) (now : ℤ) (type : ValueType)

theorem convertWithUnit_result (v : View) (unit : String) :
    (convertWithUnit host now type v unit).result =
      (v.getValue (unitDomain type v.type).type).result.bind fun vc =>
        (scaledByUnit now type (unitDomain type v.type) unit vc).map fun i =>
          view host ⟨i, vc.isUnsure⟩ := by
  unfold convertWithUnit unitDomain scaledByUnit
  simp only [apply_ite Domain.type]
  split
  · simp only [except_map_bind]
    split
    · exact result_bind_congr fun vc => result_bind_congr fun offset => result_bind_map fun i => rfl
    · exact result_bind_congr fun vc => result_bind_congr fun offset => result_bind_map fun i => rfl
  split
  · simp only [except_map_bind]
    exact result_bind_congr fun vc => result_bind_congr fun scaled => result_bind_map fun i => rfl
  · exact result_bind_congr fun vc => result_bind_map fun i => rfl

theorem functionConvert_one (v subject : View) :
    (functionConvert host now type [v] subject).result = if type.isInt && v.type.isInt then .ok v
      else if type.isInt && v.type.isFloat then
        (v.getValue .float).result.map fun vc =>
          view host ⟨llround (vc.getFloatD 0), vc.isUnsure⟩
      else if type.isFloat && v.type.isInt then
        (v.getValue .int).result.map fun vc =>
          .ofFloat host (Float.ofInt (vc.getIntD 0)) vc.isUnsure
      else .ok v := by
  unfold functionConvert
  simp only [result_ite]
  refine if_congr Iff.rfl rfl (if_congr Iff.rfl ?_ (if_congr Iff.rfl ?_ rfl))
  all_goals exact result_bind_map fun vc => rfl

theorem functionConvert_unit (v u : View) (rest : List View) (subject : View) :
    (functionConvert host now type (v :: u :: rest) subject).result =
      if type = .date ∨ type = .size then
        (u.getStringValue host).result.bind fun unit =>
          relabel ("convert(" ++ v.text ++ ", '" ++ unit ++ "') does not fit a 64-bit integer")
            (convertWithUnit host now type v unit).result
      else .ok (view host ⟨0, true⟩) := by
  unfold functionConvert
  simp only [result_ite]
  refine if_congr Iff.rfl ?_ rfl
  exact result_bind_congr fun unit => rethrow_result _ _

end

/-! ## Values of composite nodes -/

theorem getValue_composite (type : ValueType) (text : String) (evaluate : Eval View)
    (items : Eval (List View)) (wanted : ValueType) :
    ((composite type text evaluate items).getValue wanted).result =
      evaluate.result.bind fun v => (v.getValue wanted).result :=
  result_bind _ _

end Nscp.Where
