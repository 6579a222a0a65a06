import Nscp.Cron.FindNext
import Nscp.Library.Fallible

/-!
# The texts of schedules

Five fields with single spaces between them, each a star or a list of decimal integers within
the range of the field.  The parser also takes a last space, and pieces that only start with a
number.
-/

namespace Nscp.Cron

open Fallible Text List

def integer? (piece : List Char) : Option ℤ :=
  match piece with
  | '-' :: digits => (natural? digits).map fun n : ℕ => -(n : ℤ)
  | '+' :: digits => (natural? digits).map Int.ofNat
  | digits => (natural? digits).map Int.ofNat
where
  natural? (digits : List Char) : Option ℕ :=
    if digits ≠ [] ∧ digits.all Char.isDigit then some (Nat.ofDigitChars 10 digits 0) else none

section

variable (read : List Char → Option ℤ)

def isField (min max : ℤ) (field : List Char) : Bool :=
  field = ['*'] ∨ (field.splitOn ',').all fun piece => (read piece).any fun v => min ≤ v ∧ v ≤ max

def areFields : List (List Char) → Bool
  | [min, hour, dom, mon, dow] => isField read 0 59 min && isField read 0 23 hour &&
      isField read 1 31 dom && isField read 1 12 mon && isField read 0 6 dow
  | _ => false

end

def Grammar (text : List Char) : Prop := areFields integer? (text.splitOn ' ') = true

/-- What is read as five fields, with what may stand behind them and their numbers. -/
def Lenient (text : List Char) : Prop := areFields stoll (getlines ' ' text) = true

/-- Something other than a sign and digits stands in a piece, or a space at the end. -/
def Litters (text : List Char) : Prop :=
  text.getLast? = some ' ' ∨ ∃ field ∈ getlines ' ' text, field ≠ ['*'] ∧
    ∃ piece ∈ field.splitOn ',', integer? piece = none

/-! ## What the parser accepts -/

section Items

variable {min max : ℤ} {field : List Char} {pieces : List (List Char)}

theorem parseValues_ok_iff : (∃ vs, parseValues min max field pieces = .ok vs) ↔
    pieces.all (fun piece => (stoll piece).any fun v => min ≤ v ∧ v ≤ max) = true := by
  induction pieces with
  | nil => simp [parseValues]
  | cons piece pieces ih =>
    rw [all_cons, Bool.and_eq_true, ← ih, parseValues]
    cases stoll piece with
    | none => simp
    | some v =>
      by_cases hv : v < min ∨ max < v
      · simp [hv]
        omega
      · cases parseValues min max field pieces <;> simp [hv, Except.map]
        omega

theorem ScheduleItem.parse_of_ne (hfield : field ≠ ['*']) {vs : List ℤ}
    (h : parseValues min max field (field.splitOn ',') = .ok vs) :
    ∃ item, parse min max field = .ok item ∧ item.star = false ∧ item.values = vs := by
  rw [parse, if_neg hfield]
  split
  · next he => cases h.symm.trans he
  · next hws =>
      cases h.symm.trans hws
      exact ⟨_, rfl, rfl, rfl⟩

theorem ScheduleItem.parse_ok_iff :
    (∃ item, parse min max field = .ok item) ↔ isField stoll min max field = true := by
  have hvalues : (∃ vs, parseValues min max field (field.splitOn ',') = .ok vs) ↔ _ :=
    parseValues_ok_iff
  rw [isField, decide_eq_true_iff, ← hvalues]
  by_cases hfield : field = ['*']
  · exact iff_of_true ⟨_, if_pos hfield⟩ (.inl hfield)
  · refine ⟨fun ⟨item, h⟩ => .inr ?_, ?_⟩
    · rw [parse, if_neg hfield] at h
      split at h
      · cases h
      · next vs hvs => exact ⟨vs, hvs⟩
    · rintro (h | ⟨vs, hvs⟩)
      · exact absurd h hfield
      · obtain ⟨item, hitem, -⟩ := parse_of_ne hfield hvs
        exact ⟨item, hitem⟩

end Items

theorem parse_ok_iff {text : List Char} : (∃ s, parse text = .ok s) ↔ Lenient text := by
  rw [Lenient, parse]
  split
  · next hfields =>
      rw [hfields]
      simp only [areFields, Bool.and_eq_true, ← ScheduleItem.parse_ok_iff]
      constructor
      · rintro ⟨s, h⟩
        obtain ⟨min, hmin, h⟩ := bind_eq_ok h
        obtain ⟨hour, hhour, h⟩ := bind_eq_ok h
        obtain ⟨dom, hdom, h⟩ := bind_eq_ok h
        obtain ⟨mon, hmon, h⟩ := bind_eq_ok h
        obtain ⟨dow, hdow, -⟩ := bind_eq_ok h
        exact ⟨⟨⟨⟨⟨min, hmin⟩, hour, hhour⟩, dom, hdom⟩, mon, hmon⟩, dow, hdow⟩
      · rintro ⟨⟨⟨⟨⟨min, hmin⟩, hour, hhour⟩, dom, hdom⟩, mon, hmon⟩, dow, hdow⟩
        exact ⟨⟨min, hour, dom, mon, dow⟩, by rw [hmin, hhour, hdom, hmon, hdow]; rfl⟩
  · next hfive =>
      refine iff_of_false (by rintro ⟨s, h⟩; cases h) fun h => ?_
      unfold areFields at h
      split at h
      · exact hfive _ _ _ _ _ ‹_›
      · cases h

/-! ## The grammar in what the parser accepts -/

theorem leadingInteger_of_integer? {piece : List Char} {v : ℤ} (h : integer? piece = some v) :
    leadingInteger piece = some v := by
  have hnatural : ∀ {digits : List Char} {n : ℕ}, integer?.natural? digits = some n →
      leadingNatural digits = some n ∧ ∃ c cs, digits = c :: cs ∧ c.isDigit = true := by
    intro digits n hn
    rw [integer?.natural?] at hn
    split_ifs at hn with hdigits
    obtain ⟨c, cs, rfl⟩ := exists_cons_of_ne_nil hdigits.1
    have hall := all_eq_true.mp hdigits.2
    rw [leadingNatural, takeWhile_eq_self_iff.mpr hall]
    exact ⟨hn, c, cs, rfl, hall c mem_cons_self⟩
  unfold integer? at h
  split at h
  all_goals obtain ⟨n, hn, rfl⟩ := Option.map_eq_some_iff.mp h
  iterate 2
    · rw [leadingInteger, dropWhile_cons_of_neg (by decide)]
      simp [(hnatural hn).1]
  · obtain ⟨hread, c, cs, rfl, hc⟩ := hnatural hn
    rw [leadingInteger_of_isDigit hc, hread, Option.map_some]

theorem isField_integer?_iff {min max : ℤ} (hmin : -2 ^ 63 ≤ min) (hmax : max < 2 ^ 63)
    {field : List Char} :
    isField integer? min max field = true ↔ isField stoll min max field = true ∧
      (field ≠ ['*'] → ∀ piece ∈ field.splitOn ',', integer? piece ≠ none) := by
  have hpiece : ∀ piece, (integer? piece).any (fun v => decide (min ≤ v ∧ v ≤ max)) = true ↔
      (stoll piece).any (fun v => decide (min ≤ v ∧ v ≤ max)) = true ∧ integer? piece ≠ none := by
    intro piece
    cases hread : integer? piece with
    | none => simp
    | some v =>
      simp only [stoll, leadingInteger_of_integer? hread, Option.any_some, decide_eq_true_iff]
      split_ifs with h64
      · simp
      · simp only [Option.any_none, Bool.false_eq_true, false_and, iff_false]
        omega
  simp only [isField, decide_eq_true_iff, all_eq_true, hpiece]
  by_cases hfield : field = ['*']
  · simp [hfield]
  · simp [hfield, forall_and]

theorem areFields_integer?_iff {fields : List (List Char)} :
    areFields integer? fields = true ↔ areFields stoll fields = true ∧
      ∀ field ∈ fields, field ≠ ['*'] → ∀ piece ∈ field.splitOn ',', integer? piece ≠ none := by
  unfold areFields
  split
  · simp (disch := decide) only [Bool.and_eq_true, forall_mem_cons, isField_integer?_iff]
    simp only [not_mem_nil, IsEmpty.forall_iff, implies_true, and_true]
    tauto
  · simp

theorem grammar_iff {text : List Char} : Grammar text ↔ Lenient text ∧ ¬ Litters text := by
  rw [Grammar, Lenient, Litters]
  by_cases hlast : text.getLast? = some ' '
  · -- the last of the five fields would be empty
    obtain ⟨xs, rfl⟩ := getLast?_eq_some_iff.mp hlast
    refine iff_of_false (fun h => ?_) fun h => h.2 (.inl hlast)
    rw [splitOn_eq_getlines, append_assoc, singleton_append, getlines_append_delimiter] at h
    exact (areFields_integer?_iff.mp h).2 [] (by simp) (by decide) [] (by simp) rfl
  · have hcut : areFields integer? (text.splitOn ' ') = areFields integer? (getlines ' ' text) := by
      cases text with
      | nil => rfl
      | cons c cs => rw [getlines_eq_splitOn (cons_ne_nil _ _) hlast]
    rw [hcut, areFields_integer?_iff]
    simp [hlast]

/-! ## Reading a schedule back -/

section Items

variable {min max : ℤ} (item : ScheduleItem min max)

theorem ScheduleItem.toText_spec : item.toText ≠ [] ∧ ' ' ∉ item.toText := by
  rw [toText]
  split_ifs with hstar
  · decide
  · obtain ⟨v, vs, hvs⟩ := exists_cons_of_ne_nil (item.notEmpty.resolve_left hstar)
    rw [hvs, map_cons, intercalate_cons_eq_flatMap]
    refine ⟨fun h => ?_, fun h => ?_⟩
    · have hdecimal := leadingInteger_decimal v
      rw [(append_eq_nil_iff.mp h).1] at hdecimal
      cases hdecimal
    · simp [not_mem_decimal (c := ' ') (by decide)] at h

theorem parseValues_decimal (hmin : -2 ^ 63 ≤ min) (hmax : max < 2 ^ 63) (field : List Char)
    {vs : List ℤ} (hvs : ∀ v ∈ vs, min ≤ v ∧ v ≤ max) :
    parseValues min max field (vs.map decimal) = .ok vs := by
  induction vs with
  | nil => rfl
  | cons v vs ih =>
    obtain ⟨hv, hvs⟩ := forall_mem_cons.mp hvs
    have hread : stoll (decimal v) = some v := by
      simp only [stoll, leadingInteger_decimal]
      exact if_pos (by omega)
    rw [map_cons, parseValues, hread, ih hvs]
    exact if_neg (by omega)

theorem ScheduleItem.parse_toText (hmin : -2 ^ 63 ≤ min) (hmax : max < 2 ^ 63) :
    ∃ item', parse min max item.toText = .ok item' ∧ item'.isValidFor = item.isValidFor := by
  by_cases hstar : item.star = true
  · exact ⟨_, if_pos (if_pos hstar), by simp [funext_iff, isValidFor, hstar]⟩
  have hsplit : item.toText.splitOn ',' = item.values.map decimal := by
    rw [toText, if_neg hstar]
    refine splitOn_intercalate ',' ?_ (by simpa using item.notEmpty.resolve_left hstar)
    exact forall_mem_map.mpr fun v _ => not_mem_decimal (by decide) v
  have hne : item.toText ≠ ['*'] := by
    intro h
    rw [h] at hsplit
    have hmem : ['*'] ∈ item.values.map decimal := by
      rw [← hsplit, splitOn_of_not_mem (by decide)]
      exact mem_singleton_self _
    obtain ⟨v, -, hv⟩ := mem_map.mp hmem
    exact not_mem_decimal (c := '*') (by decide) v (by simp [hv])
  have hread := parseValues_decimal hmin hmax item.toText item.inRange
  rw [← hsplit] at hread
  obtain ⟨item', hitem, hstar', hvalues⟩ := parse_of_ne hne hread
  exact ⟨item', hitem, by simp [funext_iff, isValidFor, hstar, hstar', hvalues]⟩

end Items

theorem Schedule.parse_toText (s : Schedule) :
    ∃ s', parse s.toText = .ok s' ∧ ∀ t, s'.isValidFor t = s.isValidFor t := by
  have hfields : getlines ' ' s.toText =
      [s.min.toText, s.hour.toText, s.dom.toText, s.mon.toText, s.dow.toText] := by
    have htext : s.toText = [' '].intercalate
        [s.min.toText, s.hour.toText, s.dom.toText, s.mon.toText, s.dow.toText] := by
      simp [Schedule.toText, List.intercalate]
    rw [htext]
    apply getlines_intercalate <;> simp [ScheduleItem.toText_spec]
  obtain ⟨min, hmin, hmin'⟩ := s.min.parse_toText (by decide) (by decide)
  obtain ⟨hour, hhour, hhour'⟩ := s.hour.parse_toText (by decide) (by decide)
  obtain ⟨dom, hdom, hdom'⟩ := s.dom.parse_toText (by decide) (by decide)
  obtain ⟨mon, hmon, hmon'⟩ := s.mon.parse_toText (by decide) (by decide)
  obtain ⟨dow, hdow, hdow'⟩ := s.dow.parse_toText (by decide) (by decide)
  refine ⟨⟨min, hour, dom, mon, dow⟩, ?_, fun t => ?_⟩
  · rw [parse, hfields]
    simp only [hmin, hhour, hdom, hmon, hdow]
    rfl
  · simp [isValidFor, hmin', hhour', hdom', hmon', hdow']

/-- The parser accepts a text as the grammar does, and reads back what it has accepted, exactly
when nothing it passes over stands in the text. -/
theorem parse_exact_iff (text : List Char) :
    (((∃ s, parse text = .ok s) ↔ Grammar text) ∧ ∀ s, parse text = .ok s →
      ∃ s', parse s.toText = .ok s' ∧ ∀ t, s'.isValidFor t = s.isValidFor t) ↔
      ¬ (Lenient text ∧ Litters text) := by
  rw [parse_ok_iff, grammar_iff, and_iff_left fun s _ => s.parse_toText]
  tauto

/-- A range is read as its first value. -/
theorem parse_range :
    (parse "1-5 * * * *".toList).toOption.map (·.min.values) = some [1] ∧
      ¬ Grammar "1-5 * * * *".toList := by
  refine ⟨by decide +kernel, ?_⟩
  rw [Grammar]
  decide +kernel

end Nscp.Cron
