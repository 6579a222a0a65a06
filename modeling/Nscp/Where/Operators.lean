import Nscp.Where.Node

/-!
# Operators and functions

`parsers/operators.cpp`: what each operator computes from the views of its
operands.  The comparison family differs in the comparison only, the `in` pair
and the `like` and `regexp` pairs in the verdict on a hit; each is one definition
with that difference as a parameter.
-/

namespace Nscp.Where

open Logged Number

/-! ## Value nodes -/

def literalValue (host : Host) (literal : Literal) (isUnsure : Bool) (wanted : ValueType) :
    Eval ValueContainer :=
  match literal, wanted with
  | .string v, .float =>
    match host.parseFloat v with
    | some x => pure (.createFloat x isUnsure)
    | none => do error ("Failed to convert string to number: " ++ v); return .createNil
  | .string v, .int =>
    match parseInt64 v with
    | some n => pure (.createInt n isUnsure)
    | none => do error ("Failed to convert string to number: " ++ v); return .createNil
  | .string v, .string => pure (.createString v isUnsure)
  | .string v, t => do
      error ("Failed to convert string to " ++ t.text ++ ": " ++ v); return .createNil
  | .int v, .float => pure (.createFloat (Float.ofInt v) isUnsure)
  | .int v, .int => pure (.createInt v isUnsure)
  | .int v, .string => pure (.createString (toString v) isUnsure)
  | .int v, t => do
      error ("Failed to convert int to " ++ t.text ++ ": " ++ toString v); return .createNil
  | .float v, .float => pure (.createFloat v isUnsure)
  | .float v, .int =>
    if fitsInt64 v then pure (.createInt (toInt64Saturating v) isUnsure)
    else do
      error ("Value is out of range for an integer: " ++ host.formatFloat v)
      return .createInt (toInt64Saturating v) true
  | .float v, .string => pure (.createString (host.formatFloat v) isUnsure)
  | .float v, t => do
      error ("Failed to convert float to " ++ t.text ++ ": " ++ host.formatFloat v)
      return .createNil

def Literal.type : Literal → ValueType
  | .string _ => .string
  | .int _ => .int
  | .float _ => .float

/-- The view of a literal.  As a list it is a copy of itself; copies of copies are
cut off after `copies` of them. -/
def literalView (host : Host) (copies : ℕ) (type : ValueType) (literal : Literal)
    (isUnsure : Bool) : View :=
  .mk type (Node.literalText host literal) (literalValue host literal isUnsure)
    (pure (match copies with
      | 0 => []
      | copies + 1 => [literalView host copies literal.type literal false]))

namespace View

section

variable (host : Host)

def ofInt (v : ℤ) (isUnsure : Bool) : View :=
  literalView host 2 .int (.int v) isUnsure

def ofFloat (v : Float) (isUnsure : Bool) : View :=
  literalView host 2 .float (.float v) isUnsure

def ofString (v : String) (isUnsure : Bool) : View :=
  literalView host 2 .string (.string v) isUnsure

def createFalse : View := ofInt host 0 false

def createNum (v : ValueContainer) : View :=
  if v.isInt then ofInt host (v.getIntD 0) v.isUnsure
  else if v.isFloat then ofFloat host (v.getFloatD 0) v.isUnsure
  else if v.isString then ofString host (v.getStringD host "0") v.isUnsure
  else ofInt host 0 false

end

end View

section Binary

variable (host : Host)

/-! ## Comparisons -/

/-- The three domains operands are compared in. -/
inductive Domain where
  | int
  | float
  | string
  deriving DecidableEq, Repr

def Domain.type : Domain → ValueType
  | int => .int
  | float => .float
  | string => .string

def Domain.holds (d : Domain) (v : ValueContainer) : Bool :=
  match d with
  | int => v.isInt
  | float => v.isFloat
  | string => v.isString

def simpleBoolEvaluate (evalIn : Domain → View → View → Eval ValueContainer)
    (left right : View) : Eval View :=
  if left.type.isInt && right.type.isInt then
    return .createNum host (← evalIn .int left right)
  else if left.type.isFloat && right.type.isFloat then
    return .createNum host (← evalIn .float left right)
  else if left.type ≠ right.type ∧ right.type ≠ .tbd then do
    typeError .notSame
    return .createFalse host
  else if left.type.isInt then return .createNum host (← evalIn .int left right)
  else if left.type.isFloat then return .createNum host (← evalIn .float left right)
  else if left.type = .string then return .createNum host (← evalIn .string left right)
  else do
    typeError .missingBool
    return .createFalse host

/-- The verdict of a comparison operator, over any ordered domain. -/
def compareWith {α : Type} (eq lt le : α → α → Bool) : Operator → α → α → Bool
  | .eq, a, b => eq a b
  | .ne, a, b => !eq a b
  | .gt, a, b => lt b a
  | .lt, a, b => lt a b
  | .le, a, b => le a b
  | .ge, a, b => le b a
  | _, _, _ => false

section

variable (op : Operator)

def compareInt (a b : ℤ) : Bool :=
  compareWith (fun a b => a == b) (fun a b => decide (a < b)) (fun a b => decide (a ≤ b)) op a b

def compareFloat (a b : Float) : Bool :=
  compareWith (fun a b => a == b) (fun a b => decide (a < b)) (fun a b => decide (a ≤ b)) op a b

def compareString (a b : String) : Bool :=
  compareWith (fun a b => a == b) (fun a b => decide (a < b)) (fun a b => decide (a ≤ b)) op a b

def compareValues (d : Domain) (lhs rhs : ValueContainer) : Bool :=
  match d with
  | .int => compareInt op (lhs.getIntD 0) (rhs.getIntD 0)
  | .float => compareFloat op (lhs.getFloatD 0) (rhs.getFloatD 0)
  | .string => compareString op (lhs.getStringD host "") (rhs.getStringD host "")

def evalCompare (d : Domain) (left right : View) : Eval ValueContainer := do
  let lhs ← left.getValue d.type
  let rhs ← right.getValue d.type
  if !d.holds lhs || !d.holds rhs then
    error "invalid type"
    return .createInt 0 true
  else if lhs.isNoValue || rhs.isNoValue then
    return .createInt 0 false
  else
    return .createBool (compareValues host op d lhs rhs) (lhs.isUnsure || rhs.isUnsure)

end

/-! ## `and`, `or` and the bit operators -/

/-- `operator_and::eval_int` and `operator_or::eval_int`.  `stop` is the truth that
decides the result on its own: false for `and`, true for `or`.  The right operand
is not evaluated when the left one decides. -/
def evalLogic (stop : Bool) (left right : View) : Eval ValueContainer := do
  let lhs ← left.getValue .int
  let lhsi ← lhs.getInt
  if decide (lhsi ≠ 0) = stop && !lhs.isUnsure then
    return .createBool stop false
  else
    let rhs ← right.getValue .int
    let rhsi ← rhs.getInt
    if decide (rhsi ≠ 0) = stop && !rhs.isUnsure then
      return .createBool stop false
    else
      let verdict := if stop then decide (lhsi ≠ 0) || decide (rhsi ≠ 0)
        else decide (lhsi ≠ 0) && decide (rhsi ≠ 0)
      return .createBool verdict (lhs.isUnsure || rhs.isUnsure)

def logicEvaluate (stop : Bool) (desc : String) (left right : View) : Eval View :=
  if left.type.isInt && right.type.isInt then
    return .createNum host (← evalLogic stop left right)
  else if left.type ≠ right.type ∧ right.type ≠ .tbd then do
    typeError (.incompatible desc)
    return .createFalse host
  else do
    typeError (.invalid desc)
    return .createFalse host

/-! ## `like` and `regexp` -/

def toLower (s : String) : List Char := s.toList.map Char.toLower

/-- The smaller text is contained in the larger one, ignoring case. -/
def likeMatched (subject pattern : String) : Bool :=
  let s1 := toLower subject
  let s2 := toLower pattern
  if s1.isEmpty && s2.isEmpty then true
  else if s1.isEmpty || s2.isEmpty then false
  else if s1.length > s2.length then decide (s2 <:+: s1)
  else decide (s1 <:+: s2)

section

variable (op : Operator)

/-- How `like` and `regexp` judge a text; the error is the text to report. -/
def patternMatched (subject pattern : String) : Except String Bool :=
  match op with
  | .like => .ok (likeMatched subject pattern)
  | .notLike => .ok (!likeMatched subject pattern)
  | .regexp => host.regexMatch pattern subject
  | _ => (host.regexMatch pattern subject).map (!·)

def matchToContainer (subject : String) (pattern : ValueContainer)
    (isUnsure : Bool) : Eval ValueContainer :=
  if !pattern.isString then do
    error "invalid type"
    return .createInt 0 true
  else
    match patternMatched host op subject (pattern.getStringD host "") with
    | .ok matched => pure (.createBool matched isUnsure)
    | .error text => do error text; return .createInt 0 true

def evalPattern (d : Domain) (left right : View) : Eval ValueContainer := do
  let lhs ← left.getValue d.type
  let rhs ← right.getValue .string
  match d with
  | .int => matchToContainer host op (toString (← lhs.getInt)) rhs (lhs.isUnsure || rhs.isUnsure)
  | .float =>
    matchToContainer host op (host.formatFloat (← lhs.getFloat)) rhs
      (lhs.isUnsure || rhs.isUnsure)
  | .string =>
    if !lhs.isString || !rhs.isString then
      error "invalid type"
      return .createInt 0 true
    else
      matchToContainer host op (← lhs.getString host) rhs (lhs.isUnsure || rhs.isUnsure)

def patternEvaluate (desc : String) (left right : View) : Eval View :=
  if left.type.isInt then return .createNum host (← evalPattern host op .int left right)
  else if left.type.isFloat then
    return .createNum host (← evalPattern host op .float left right)
  else if left.type = .string then
    return .createNum host (← evalPattern host op .string left right)
  else do
    typeError (.missingPattern desc)
    return .createFalse host

end

/-! ## `in` and `not in` -/

/-- Whether an item equals the left operand; reading the item drops its unsure
flag. -/
def itemMatches (d : Domain) (lhs : ValueContainer) (item : View) : Eval Bool :=
  match d with
  | .int => return (← item.getIntValue) == lhs.getIntD 0
  | .float => return (← item.getFloatValue) == lhs.getFloatD 0
  | .string => return (← item.getStringValue host) == lhs.getStringD host ""

def anyItem (d : Domain) (lhs : ValueContainer) : List View → Eval Bool
  | [] => return false
  | item :: items => do
      if ← itemMatches host d lhs item then return true else anyItem d lhs items

/-- `operator_in` and `operator_not_in`; `found` is the verdict on a hit. -/
def evalIn (found : Bool) (d : Domain) (left right : View) : Eval ValueContainer := do
  let lhs ← left.getValue d.type
  if !d.holds lhs then
    error "invalid type"
    return .createInt 0 true
  else if lhs.isNoValue then
    return .createInt 0 false
  else
    let hit ← anyItem host d lhs (← right.getListValue)
    return .createBool (if hit then found else !found) lhs.isUnsure

end Binary

def binaryOperator (host : Host) (op : Operator) (left right : View) : Eval View :=
  let desc := left.text ++ " " ++ op.text ++ " " ++ right.text
  match op with
  | .eq | .ne | .gt | .lt | .le | .ge =>
    simpleBoolEvaluate host (evalCompare host op) left right
  | .like | .notLike | .regexp | .notRegexp => patternEvaluate host op desc left right
  | .and | .binand => logicEvaluate host false desc left right
  | .or | .binor => logicEvaluate host true desc left right
  | .in => simpleBoolEvaluate host (evalIn host true) left right
  | .nin => simpleBoolEvaluate host (evalIn host false) left right
  | .inv | .not => do
      typeError .missingFalse
      return .createFalse host

/-! ## Conversions -/

def convertWithUnit (host : Host) (now : ℤ) (type : ValueType) (v : View) (unit : String) :
    Eval View :=
  if type = .date then
    if v.type.isFloat then do
      let vc ← v.getValue .float
      let offset ← ofExcept (llroundChecked
        (vc.getFloatD 0 * Float.ofInt (timeUnitMultiplier unit)) "convert()")
      let date ← ofExcept (addChecked now offset "convert()")
      return .ofInt host date vc.isUnsure
    else do
      let vc ← v.getValue .int
      let offset ← ofExcept
        (mulChecked (vc.getIntD 0) (timeUnitMultiplier unit) "convert()")
      let date ← ofExcept (addChecked now offset "convert()")
      return .ofInt host date vc.isUnsure
  else if v.type.isFloat && !v.type.isInt then do
    let vc ← v.getValue .float
    let scaled ← ofExcept (decodeByteUnitsFloat (vc.getFloatD 0) unit)
    let bytes ← ofExcept (llroundChecked scaled "convert()")
    return .ofInt host bytes vc.isUnsure
  else do
    let vc ← v.getValue .int
    let bytes ← ofExcept (decodeByteUnits (vc.getIntD 0) unit)
    return .ofInt host bytes vc.isUnsure

/-- Give an out-of-range exception the text `what`, and let others pass. -/
def rethrow (what : String) (x : Eval View) : Eval View :=
  x.catching fun
    | .outOfRange _ => raise (.outOfRange what)
    | e => raise e

section

variable (host : Host) (now : ℤ) (type : ValueType)

def functionConvert (arguments : List View)
    (subject : View) : Eval View :=
  match arguments with
  | [] => do
      error ("no arguments for convert(): " ++ subject.text)
      return .ofInt host 0 true
  | v :: u :: _ =>
    if type = .date ∨ type = .size then do
      let unit ← u.getStringValue host
      rethrow ("convert(" ++ v.text ++ ", '" ++ unit ++ "') does not fit a 64-bit integer")
        (convertWithUnit host now type v unit)
    else do
      error ("could not convert to " ++ type.text ++ " from " ++ v.text ++ ", " ++ u.text)
      return .ofInt host 0 true
  | [v] =>
    if type.isInt && v.type.isInt then pure v
    else if type.isInt && v.type.isFloat then do
      let vc ← v.getValue .float
      return .ofInt host (llround (vc.getFloatD 0)) vc.isUnsure
    else if type.isFloat && v.type.isInt then do
      let vc ← v.getValue .int
      return .ofFloat host (Float.ofInt (vc.getIntD 0)) vc.isUnsure
    else pure v

/-! ## Negation -/

/-- `operator_not::evaluate`: inversion of a bool, unary minus of an integer,
reflection of a date around now. -/
def operatorNot (subject : View) : Eval View :=
  match type with
  | .bool => do
      let v ← subject.getValue .int
      if !v.isInt then return .ofInt host 0 true
      else return .ofInt host (if v.getIntD 0 ≠ 0 then 0 else 1) v.isUnsure
  | .int => do
      let v ← subject.getValue .int
      if !v.isInt then return .ofInt host 0 true
      else if v.getIntD 0 = int64Min then
        raise (.outOfRange
          ("neg(" ++ toString (v.getIntD 0) ++ ") does not fit a 64-bit integer"))
      else return .ofInt host (-v.getIntD 0) v.isUnsure
  | .date => do
      let v ← subject.getValue .int
      if !v.isInt then return .ofInt host now true
      else
        rethrow ("neg(" ++ toString (v.getIntD 0) ++ ") does not fit a 64-bit integer") do
          let twice ← ofExcept (addChecked now now "neg()")
          let negated ← ofExcept (negateChecked (v.getIntD 0) "neg()")
          let date ← ofExcept (addChecked twice negated "neg()")
          return .ofInt host date v.isUnsure
  | _ => do
      typeError .missingNot
      return .ofInt host 0 true

end

end Nscp.Where
