import Nscp.Library.Text

/-!
# Time specifications

`validate_time_spec` admits blanks, digits, one unit letter and blanks again.  Behind it
`decode_time` and `stox_as_time_sec` take the digits from the front of the text and search the whole
text for the unit.  `Agrees` is when they give the number that the text means.
-/

namespace Nscp.Str.Format

open List Text

/-- An integral type by its `std::numeric_limits`; `bits` leaves the sign bit out.  None is wider
than `unsigned long long`. -/
structure IntegralType where
  bits : ℕ
  isSigned : Bool
  isCharacter : Bool

inductive Failure where
  | invalidArgument (what : List Char)
  | badLexicalCast
  | outOfRange (what : List Char)
  deriving DecidableEq

variable (T : IntegralType)

def IntegralType.max : ℤ := 2 ^ T.bits - 1

def IntegralType.lowest : ℤ := if T.isSigned then -2 ^ T.bits else 0

def isUnit (c : Char) : Bool := c ∈ ['s', 'S', 'm', 'M', 'h', 'H', 'd', 'D', 'w', 'W']

def skipUnit : List Char → List Char
  | [] => []
  | c :: rest => if isUnit c then rest else c :: rest

def invalidTimeSpec (time : List Char) : Failure :=
  .invalidArgument ("Invalid time specification: '".toList ++ time ++ "'".toList)

def validateTimeSpec (time : List Char) : Except Failure Unit :=
  let start := time.dropWhile isSpace
  let behind := start.dropWhile Char.isDigit
  if behind.length = start.length then .error (invalidTimeSpec time)
  else if (skipUnit behind).dropWhile isSpace ≠ [] then .error (invalidTimeSpec time)
  else .ok ()

/-- `boost::lexical_cast` of a run of digits.  A character type is read as one character. -/
def lexicalCast (text : List Char) : Except Failure ℤ :=
  match T.isCharacter, text with
  | true, [c] => .ok c.toNat
  | true, _ => .error .badLexicalCast
  | false, text =>
    let value : ℕ := Nat.ofDigitChars 10 text 0
    if text = [] ∨ T.max < value then .error .badLexicalCast else .ok value

def tooLarge (what : List Char) : Failure := .outOfRange (what ++ " is too large".toList)

def tooSmall (what : List Char) : Failure := .outOfRange (what ++ " is too small".toList)

/-- No caller has a negative factor.  The product is not reduced to the type. -/
def mulChecked (value : ℤ) (factor : ℕ) (what : List Char) : Except Failure ℤ :=
  if factor = 0 then .ok (value * factor)
  else if T.max < factor then .error (tooLarge what)
  else if T.max / factor < value then .error (tooLarge what)
  else if value < T.lowest.tdiv factor then .error (tooSmall what)
  else .ok (value * factor)

def fromUnit (time : List Char) : List Char := time.dropWhile fun c => !isUnit c

def decodeTime (time : List Char) (factor : UInt32) : Except Failure ℤ := do
  validateTimeSpec time
  let value ← lexicalCast T (time.takeWhile Char.isDigit)
  let f := factor.toNat
  match (fromUnit time).head? with
  | none | some 's' | some 'S' => mulChecked T value f time
  | some 'm' | some 'M' => mulChecked T value (60 * f) time
  | some 'h' | some 'H' => mulChecked T value (60 * 60 * f) time
  | some 'd' | some 'D' => mulChecked T value (24 * 60 * 60 * f) time
  | some 'w' | some 'W' => mulChecked T value (7 * 24 * 60 * 60 * f) time
  | some _ => mulChecked T value f time

def timeUnitMultiplier (unit : List Char) : ℕ :=
  match unit.headD ' ' with
  | 'm' | 'M' => 60
  | 'h' | 'H' => 60 * 60
  | 'd' | 'D' => 24 * 60 * 60
  | 'w' | 'W' => 7 * 24 * 60 * 60
  | _ => 1

def stoxAsTimeSec (time defaultUnit : List Char) : Except Failure ℤ := do
  validateTimeSpec time
  let value ← lexicalCast T (time.takeWhile Char.isDigit)
  let unit := if fromUnit time = [] then defaultUnit else fromUnit time
  mulChecked T value (timeUnitMultiplier unit) time

/-! ## What a text means -/

section

variable (time : List Char)

def digits : List Char := (time.dropWhile isSpace).takeWhile Char.isDigit

def behind : List Char := (time.dropWhile isSpace).dropWhile Char.isDigit

def number : ℕ := Nat.ofDigitChars 10 (digits time) 0

def unit : Option Char := (behind time).head?.filter isUnit

/-- The seconds of the unit, or of the default unit when none is given. -/
def seconds (defaultUnit : List Char) : ℕ :=
  timeUnitMultiplier ((unit time).elim defaultUnit fun c => [c])

/-- A result that is the product, and an error that is due.  A returned product fits the type. -/
def Exact (n factor : ℕ) : Except Failure ℤ → Prop
  | .ok value => value = n * factor ∧ value ≤ T.max
  | .error (.outOfRange _) => T.max < n * factor
  | .error .badLexicalCast => T.max < n * factor ∧ T.max < n
  | .error (.invalidArgument _) => False

/-- The texts, types and factors for which the conversion is exact. -/
def Agrees (factor : ℕ) : Prop :=
  T.max < number time ∧ 0 < factor ∨
    time.head?.any isSpace = false ∧
      if T.isCharacter then
        (digits time).length = 1 ∧ (factor = 0 ∨ T.max < number time * factor)
      else number time ≤ T.max ∧ (0 < number time ∨ factor ≤ T.max)

end

variable {c : Char} {time : List Char}

theorem isUnit_spec (h : isUnit c = true) : c.isDigit = false ∧ isSpace c = false := by
  simp only [isUnit, mem_cons, not_mem_nil, or_false, decide_eq_true_eq] at h
  rcases h with rfl | rfl | rfl | rfl | rfl | rfl | rfl | rfl | rfl | rfl <;> decide

/-- Blanks in front leave no digits to convert. -/
theorem takeWhile_isDigit_eq (time : List Char) :
    time.takeWhile Char.isDigit = if time.head?.any isSpace then [] else digits time := by
  cases time with
  | nil => rfl
  | cons c cs =>
    by_cases hc : isSpace c = true
    · simp [hc, isDigit_of_isSpace hc]
    · simp [digits, hc]

theorem fromUnit_dropWhile {p : Char → Bool} (hp : ∀ c, isUnit c = true → p c = false)
    (l : List Char) : fromUnit (l.dropWhile p) = fromUnit l := by
  induction l with
  | nil => rfl
  | cons c l ih =>
    by_cases hc : p c = true
    · have hu : ¬ isUnit c = true := fun hu => by simp [hp c hu] at hc
      simpa [fromUnit, hc, hu] using ih
    · simp [hc]

theorem head?_fromUnit (h : validateTimeSpec time = .ok ()) :
    (fromUnit time).head? = unit time := by
  have hspace := fromUnit_dropWhile (p := isSpace) fun c hc => (isUnit_spec hc).2
  have hdigit := fromUnit_dropWhile (p := Char.isDigit) fun c hc => (isUnit_spec hc).1
  have htrail : (skipUnit (behind time)).dropWhile isSpace = [] := by
    by_contra hne
    rw [validateTimeSpec, ← behind, if_pos hne, ite_self] at h
    cases h
  rw [← hspace, ← hdigit, ← behind, unit]
  generalize behind time = rest at htrail ⊢
  fun_cases skipUnit rest with
  | case1 => rfl
  | case2 c cs hc => simp [fromUnit, Option.filter, hc]
  | case3 c cs hc =>
    rw [skipUnit, if_neg hc] at htrail
    rw [← hspace, htrail]
    simp [fromUnit, Option.filter, hc]

/-! ## The conversion -/

/-- What both functions do behind the validation. -/
def convert (time : List Char) (factor : ℕ) : Except Failure ℤ := do
  let value ← lexicalCast T (time.takeWhile Char.isDigit)
  mulChecked T value factor time

theorem decodeTime_eq (h : validateTimeSpec time = .ok ()) (factor : UInt32) :
    decodeTime T time factor = convert T time (seconds time [] * factor.toNat) := by
  rw [decodeTime, h, head?_fromUnit h, convert, seconds]
  refine congrArg (lexicalCast T _ >>= ·) (funext fun value => ?_)
  split <;> simp_all [timeUnitMultiplier]

theorem stoxAsTimeSec_eq (h : validateTimeSpec time = .ok ()) (unit : List Char) :
    stoxAsTimeSec T time unit = convert T time (seconds time unit) := by
  rw [stoxAsTimeSec, h, convert, seconds, ← head?_fromUnit h]
  refine congrArg (lexicalCast T _ >>= ·) (funext fun value => ?_)
  cases fromUnit time <;> simp [timeUnitMultiplier]

section

variable {T} {n v factor : ℕ} {what : List Char}

theorem IntegralType.max_nonneg : 0 ≤ T.max := by
  have hpow : (0 : ℤ) < 2 ^ T.bits := by positivity
  rw [max]
  omega

theorem lt_mul_iff (h : T.max < n) : T.max < n * factor ↔ 0 < factor := by
  have hmax := T.max_nonneg
  rcases Nat.eq_zero_or_pos factor with rfl | hf
  · simpa using hmax
  · exact iff_of_true (h.trans_le (le_mul_of_one_le_right (by omega) (by omega))) hf

theorem exact_badLexicalCast :
    Exact T n factor (.error .badLexicalCast) ↔ T.max < n ∧ 0 < factor := by
  rw [Exact, and_comm]
  exact and_congr_right lt_mul_iff

/-- A guarded product of a value that may be larger than the number it stands for. -/
theorem exact_mulChecked (hn : n ≤ v) :
    Exact T n factor (mulChecked T v factor what) ↔
      factor = 0 ∨ T.max < n * factor ∨ v = n ∧ factor ≤ T.max := by
  have hmax := T.max_nonneg
  have hmul : (n * factor : ℤ) ≤ v * factor := by gcongr
  rw [mulChecked]
  rcases Nat.eq_zero_or_pos factor with rfl | hpos
  · simpa [Exact] using hmax
  have hlow : ¬ (v : ℤ) < T.lowest.tdiv factor := by
    have hpow : (0 : ℤ) < 2 ^ T.bits := by positivity
    have hneg : 0 ≤ (-T.lowest).tdiv factor :=
      Int.tdiv_nonneg (by rw [IntegralType.lowest]; split <;> omega) (by omega)
    rw [Int.neg_tdiv] at hneg
    omega
  have hdiv : T.max / factor < v ↔ T.max < v * factor := Int.ediv_lt_iff_lt_mul (by omega)
  have hcancel : (v * factor : ℤ) = n * factor ↔ v = n := by
    rw [mul_left_inj' (by omega), Nat.cast_inj]
  simp only [if_neg hpos.ne', if_neg hlow, hdiv]
  split_ifs <;> simp only [Exact, tooLarge, hcancel] <;> grind

end

theorem number_lt_toNat (h : digits time = [c]) : number time < c.toNat := by
  have hd : c.isDigit = true := mem_takeWhile_imp (by rw [← digits, h]; exact mem_cons_self)
  have hc : 48 ≤ c.toNat := by
    simp only [Char.isDigit, Bool.and_eq_true, decide_eq_true_eq] at hd
    exact UInt32.le_iff_toNat_le.mp hd.1
  have hn : number time = c.toNat - 48 := by simp [number, h, Nat.ofDigitChars]
  omega

theorem digits_ne_nil (h : validateTimeSpec time = .ok ()) : digits time ≠ [] := by
  intro hnil
  have hsplit := takeWhile_append_dropWhile (p := Char.isDigit) (l := time.dropWhile isSpace)
  rw [← digits, hnil, nil_append] at hsplit
  rw [validateTimeSpec, hsplit, if_pos rfl] at h
  cases h

theorem exact_convert_iff (h : validateTimeSpec time = .ok ()) (factor : ℕ) :
    Exact T (number time) factor (convert T time factor) ↔ Agrees T time factor := by
  have hmul := @lt_mul_iff T (number time) factor
  rw [Agrees, convert, takeWhile_isDigit_eq]
  unfold lexicalCast
  cases time.head?.any isSpace with
  | true => cases T.isCharacter <;> exact exact_badLexicalCast.trans (by simp)
  | false =>
    simp only [Bool.false_eq_true, if_false, true_and]
    cases T.isCharacter with
    | true =>
      split
      next c _ hdigits =>
        -- The value is the code of the character.
        have hn := number_lt_toNat hdigits
        refine (exact_mulChecked hn.le).trans ?_
        simp [hdigits, hn.ne']
        tauto
      next hdigits =>
        refine exact_badLexicalCast.trans ?_
        simp [length_eq_one_iff]
        tauto
      next hc => cases hc
    | false =>
      dsimp only
      split
      next hn =>
        exact exact_badLexicalCast.trans (by simp [number, hn.resolve_left (digits_ne_nil h)])
      next hn =>
        have hmax := T.max_nonneg
        have hmul' := @lt_mul_iff T factor (number time)
        refine (exact_mulChecked le_rfl).trans ?_
        grind [number]

theorem timeUnitMultiplier_le (unit : List Char) : timeUnitMultiplier unit ≤ 604800 := by
  rw [timeUnitMultiplier]
  split <;> decide

/-- On an accepted text both functions are exact if and only if no blank stands in front, the type
is no character type and a multiplier beyond it does not meet zero, or an error is due anyway. -/
theorem decodeTime_exact_iff (h : validateTimeSpec time = .ok ()) :
    (∀ factor : UInt32, seconds time [] * factor.toNat < 2 ^ 63 ∧
      (Exact T (number time) (seconds time [] * factor.toNat) (decodeTime T time factor) ↔
        Agrees T time (seconds time [] * factor.toNat))) ∧
    ∀ unit, Exact T (number time) (seconds time unit) (stoxAsTimeSec T time unit) ↔
      Agrees T time (seconds time unit) := by
  refine ⟨fun factor => ⟨?_, ?_⟩, fun unit => ?_⟩
  · have hfactor := factor.toNat_lt
    have hprod : seconds time [] * factor.toNat ≤ 604800 * 2 ^ 32 :=
      Nat.mul_le_mul (timeUnitMultiplier_le _) hfactor.le
    omega
  · rw [decodeTime_eq T h]
    exact exact_convert_iff T h _
  · rw [stoxAsTimeSec_eq T h]
    exact exact_convert_iff T h _

theorem decodeTime_exact_iff_weeks :
    validateTimeSpec ['2', 'w'] = .ok () ∧
      Exact ⟨31, true, false⟩ 2 604800 (stoxAsTimeSec ⟨31, true, false⟩ ['2', 'w'] []) :=
  ⟨rfl, ((@decodeTime_exact_iff ⟨31, true, false⟩ ['2', 'w'] rfl).2 []).mpr
    (.inr ⟨rfl, by decide⟩)⟩

theorem decodeTime_inexact :
    validateTimeSpec " 5m".toList = .ok () ∧
      decodeTime ⟨31, true, false⟩ " 5m".toList 1 = .error .badLexicalCast ∧
      stoxAsTimeSec ⟨31, true, false⟩ " 5m".toList [] = .error .badLexicalCast ∧
      decodeTime ⟨15, true, false⟩ "0d".toList 1 = .error (tooLarge "0d".toList) ∧
      decodeTime ⟨7, true, true⟩ "5".toList 1 = .ok 53 := by
  decide +kernel

end Nscp.Str.Format
