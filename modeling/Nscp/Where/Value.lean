import Nscp.Library.Logged
import Nscp.Library.Double

/-!
# Types, values and messages of the filter language

The value types of `parsers/where/node.hpp`, the containers evaluation passes
around, and the messages it records.  Arithmetic on `long long` is modelled by
integers with the range checks the source makes; conversions between doubles and
text and regular expressions belong to the libraries the program is linked with
and are kept as parameters in `Host`.
-/

namespace Nscp.Where

open Logged

inductive ValueType where
  | invalid
  | tbd
  | multi
  | int
  | bool
  | float
  | string
  | date
  | size
  | customInt (n : Fin 100)
  | customString (n : Fin 100)
  | customFloat (n : Fin 100)
  | custom (n : ℕ)
  deriving DecidableEq, Repr

namespace ValueType

def code : ValueType → ℕ
  | invalid => 99
  | tbd => 66
  | multi => 88
  | int => 1
  | bool => 2
  | float => 3
  | string => 10
  | date => 20
  | size => 30
  | customInt n => 1024 + n
  | customString n => 2048 + n
  | customFloat n => 3096 + n
  | custom n => 4096 + n

/-- `helpers::type_to_string`; `type_multi` has no name of its own. -/
def text : ValueType → String
  | bool => "bool"
  | string => "string"
  | int => "int"
  | float => "float"
  | date => "date"
  | size => "size"
  | invalid => "invalid"
  | tbd => "tbd"
  | custom n => "custom_" ++ toString n
  | customFloat n => "float_" ++ toString n.val
  | customString n => "string_" ++ toString n.val
  | customInt n => "int_" ++ toString n.val
  | multi => "unknown:88"

def isInt : ValueType → Bool
  | int | bool | date | size | customInt _ => true
  | _ => false

/-- `helpers::type_is_float`: every number, integers included. -/
def isFloat : ValueType → Bool
  | float | int | bool | date | size | customInt _ | customFloat _ => true
  | _ => false

def isString : ValueType → Bool
  | string | customString _ => true
  | _ => false

end ValueType

inductive Operator where
  | eq | le | lt | gt | ge | ne
  | in | nin
  | or | and
  | inv | not
  | like | notLike
  | binand | binor
  | regexp | notRegexp
  deriving DecidableEq, Repr

namespace Operator

def text : Operator → String
  | and => "and"
  | or => "or"
  | eq => "="
  | gt => ">"
  | lt => "<"
  | ge => ">="
  | le => "<="
  | .in => "in"
  | nin => "not in"
  | binand => "&"
  | binor => "|"
  | like => "like"
  | notLike => "not_like"
  | ne => "!="
  | inv => "invert"
  | not => "not"
  | regexp => "regexp"
  | notRegexp => "not_regexp"

def isComparison : Operator → Bool
  | eq | ne | lt | le | gt | ge => true
  | _ => false

def returnType (op : Operator) (type : ValueType) : ValueType :=
  match op with
  | inv | binor | binand => type
  | _ => .bool

end Operator

/-! ## Messages -/

/-- The errors that stand for an operand of a type the operator was not written
for. -/
inductive TypeError where
  | notSame
  | missingBool
  | incompatible (desc : String)
  | invalid (desc : String)
  | missingPattern (desc : String)
  | missingFalse
  | missingNot
  | binaryOperator (type : ValueType)
  | missingBinding (name : String)
  | numberFromList
  deriving DecidableEq, Repr

def TypeError.text : TypeError → String
  | notSame => "Invalid types (not same) for binary operator"
  | missingBool => "missing impl for simple bool binary operator"
  | incompatible desc => "Incompatible types in binary operator: " ++ desc
  | invalid desc => "Invalid types in binary operator " ++ desc
  | missingPattern desc => "missing impl for pattern binary operator: " ++ desc
  | missingFalse => "missing impl for FALSE"
  | missingNot => "missing impl for NOT operator"
  | binaryOperator type => "Binary operator does not work with " ++ type.text
  | missingBinding name => "Missing function binding: " ++ name ++ "bound: 0"
  | numberFromList => "Cant get number from a list"

inductive Message where
  | typeError (e : TypeError)
  | error (text : String)
  | warn (text : String)
  deriving DecidableEq, Repr

namespace Message

def text : Message → String
  | typeError e => e.text
  | error text => text
  | warn text => text

def isError : Message → Bool
  | warn _ => false
  | _ => true

def isTypeError : Message → Bool
  | typeError _ => true
  | _ => false

end Message

/-- The exceptions that leave a node: `filter_exception` and `std::out_of_range`. -/
inductive Exception where
  | filter (what : String)
  | outOfRange (what : String)
  deriving DecidableEq, Repr

def Exception.what : Exception → String
  | filter what => what
  | outOfRange what => what

/-- A step of evaluation or of type inference: it may throw, and it records
messages in the evaluation context. -/
abbrev Eval (α : Type) := Logged Exception Message α

def typeError (e : TypeError) : Eval Unit := tell (.typeError e)
def error (text : String) : Eval Unit := tell (.error text)
def warn (text : String) : Eval Unit := tell (.warn text)

/-! ## Numbers -/

/-- Library functions the program relies on: `xtos` and `stox` of a double, the
scaling of a decimal number by a power of ten, and a regular expression match, which
yields the text to report when it fails. -/
structure Host where
  formatFloat : Float → String
  parseFloat : String → Option Float
  scaleReal : (digits : ℕ) → (exponent : ℤ) → Option Float
  regexMatch : (pattern subject : String) → Except String Bool

namespace Number

def int64Min : ℤ := -9223372036854775808
def int64Max : ℤ := 9223372036854775807

def fitsInt64 (v : Float) : Bool :=
  v == v && decide (v < 9223372036854775808.0) && decide (v ≥ -9223372036854775808.0)

def truncate (v : Float) : ℤ :=
  match Double.decode v with
  | some p => p.truncate
  | none => 0

def toInt64Saturating (v : Float) : ℤ :=
  if !(v == v) then 0
  else if v ≥ 9223372036854775808.0 then int64Max
  else if v ≤ -9223372036854775808.0 then int64Min
  else truncate v

def inInt64 (n : ℤ) : Bool := decide (int64Min ≤ n) && decide (n ≤ int64Max)

/-- `llround`; its result is unspecified for a value out of range, here the
one of the x86 instruction. -/
def llround (v : Float) : ℤ :=
  match Double.decode v with
  | some p => if inInt64 p.round then p.round else int64Min
  | none => int64Min

def llroundChecked (v : Float) (what : String) : Except Exception ℤ :=
  match Double.decode v with
  | some p =>
    if inInt64 p.round then .ok p.round else .error (.outOfRange (what ++ " is too large"))
  | none => .error (.outOfRange (what ++ " is too large"))

def mulChecked (value factor : ℤ) (what : String) : Except Exception ℤ :=
  if value > int64Max.tdiv factor then .error (.outOfRange (what ++ " is too large"))
  else if value < int64Min.tdiv factor then .error (.outOfRange (what ++ " is too small"))
  else .ok (value * factor)

def maxDouble : Float := 1.7976931348623157e308

def mulCheckedFloat (value : Float) (factor : ℤ) (what : String) : Except Exception Float :=
  if value > maxDouble / Float.ofInt factor then .error (.outOfRange (what ++ " is too large"))
  else if value < -maxDouble / Float.ofInt factor then
    .error (.outOfRange (what ++ " is too small"))
  else .ok (value * Float.ofInt factor)

def addChecked (a b : ℤ) (what : String) : Except Exception ℤ :=
  if b > 0 ∧ a > int64Max - b then .error (.outOfRange (what ++ " is too large"))
  else if b < 0 ∧ a < int64Min - b then .error (.outOfRange (what ++ " is too small"))
  else .ok (a + b)

def negateChecked (a : ℤ) (what : String) : Except Exception ℤ :=
  if a = int64Min then .error (.outOfRange (what ++ " is too large")) else .ok (-a)

/-- Seconds per duration unit; the first character decides. -/
def timeUnitMultiplier (unit : String) : ℤ :=
  match unit.toList.head? with
  | some 'm' | some 'M' => 60
  | some 'h' | some 'H' => 60 * 60
  | some 'd' | some 'D' => 24 * 60 * 60
  | some 'w' | some 'W' => 7 * 24 * 60 * 60
  | _ => 1

/-- The factor of a byte unit; `none` when the value is taken as it is. -/
def byteFactor (unit : String) : Option ℤ :=
  match unit.toList.head? with
  | some 'K' | some 'k' => some 1024
  | some 'M' | some 'm' => some (1024 * 1024)
  | some 'G' | some 'g' => some (1024 * 1024 * 1024)
  | some 'T' | some 't' => some (1024 * 1024 * 1024 * 1024)
  | _ => none

def decodeByteUnits (value : ℤ) (unit : String) : Except Exception ℤ :=
  match byteFactor unit with
  | some factor => mulChecked value factor "size"
  | none => .ok value

def decodeByteUnitsFloat (value : Float) (unit : String) : Except Exception Float :=
  match byteFactor unit with
  | some factor => mulCheckedFloat value factor "size"
  | none => .ok value

def digitsValue (digits : List Char) : ℕ :=
  digits.foldl (fun n c => n * 10 + (c.toNat - 48)) 0

/-- `lexical_cast<long long>` of a text, which ends at its first NUL. -/
def parseInt64 (s : String) : Option ℤ :=
  let text := s.toList.takeWhile (· ≠ '\x00')
  let (sign, digits) : ℤ × List Char :=
    match text with
    | '-' :: rest => (-1, rest)
    | '+' :: rest => (1, rest)
    | rest => (1, rest)
  let value := sign * digitsValue digits
  if digits ≠ [] ∧ digits.all Char.isDigit ∧ inInt64 value then some value else none

end Number

/-! ## Containers -/

structure ValueContainer where
  iValue : Option ℤ := none
  fValue : Option Float := none
  sValue : Option String := none
  isUnsure : Bool := false
  isNoValue : Bool := false

namespace ValueContainer

def createInt (value : ℤ) (isUnsure : Bool) : ValueContainer :=
  { iValue := some value, isUnsure := isUnsure }

def createFloat (value : Float) (isUnsure : Bool) : ValueContainer :=
  { fValue := some value, isUnsure := isUnsure }

def createString (value : String) (isUnsure : Bool) : ValueContainer :=
  { sValue := some value, isUnsure := isUnsure }

def createBool (value : Bool) (isUnsure : Bool) : ValueContainer :=
  createInt (if value then 1 else 0) isUnsure

def createNil : ValueContainer := {}

/-- An optional number without a value: a neutral zero that says so. -/
def createNoValue : ValueContainer :=
  { iValue := some 0, fValue := some 0.0, isNoValue := true }

section

variable (v : ValueContainer)

def isInt : Bool := v.iValue.isSome
def isFloat : Bool := v.fValue.isSome
def isString : Bool := v.sValue.isSome

def getIntD (default : ℤ) : ℤ :=
  match v.iValue, v.fValue with
  | some i, _ => i
  | none, some f => Number.toInt64Saturating f
  | none, none => default

def getFloatD (default : Float) : Float :=
  match v.iValue, v.fValue with
  | some i, _ => Float.ofInt i
  | none, some f => f
  | none, none => default

end

def getStringD (host : Host) (v : ValueContainer) (default : String) : String :=
  match v.iValue, v.fValue, v.sValue with
  | some i, _, _ => toString i
  | none, some f, _ => host.formatFloat f
  | none, none, some s => s
  | none, none, none => default

def getInt (v : ValueContainer) : Eval ℤ :=
  if v.isInt || v.isFloat then pure (v.getIntD 0) else raise (.filter "Type is not int")

def getFloat (v : ValueContainer) : Eval Float :=
  if v.isInt || v.isFloat then pure (v.getFloatD 0) else raise (.filter "Type is not float")

def getString (host : Host) (v : ValueContainer) : Eval String :=
  if v.isInt || v.isFloat || v.isString then pure (v.getStringD host "")
  else raise (.filter "Type is not string")

/-- Truth at the top of an expression is the integer one, not any non-zero. -/
def isTrue (v : ValueContainer) : Bool :=
  match v.iValue with
  | some i => i == 1
  | none => false

end ValueContainer

end Nscp.Where
