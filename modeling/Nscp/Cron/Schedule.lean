import Nscp.Library.First
import Nscp.Library.Text

/-!
# Cron schedules

A schedule has five fields, each a star or a list of values within the range of the field.  Its
text is split at spaces and commas; what `std::stoll` makes of a piece is the value.
-/

namespace Nscp.Cron

open List

/-! ## Fields -/

/-- A field with its range; a list of values is neither empty nor out of range. -/
structure ScheduleItem (min max : ℤ) where
  values : List ℤ
  star : Bool
  inRange : ∀ v ∈ values, min ≤ v ∧ v ≤ max
  notEmpty : star = true ∨ values ≠ []

def stoll (text : List Char) : Option ℤ :=
  match Text.leadingInteger text with
  | some v => if -2 ^ 63 ≤ v ∧ v < 2 ^ 63 then some v else none
  | none => none

def parseValues (min max : ℤ) (field : List Char) :
    List (List Char) → Except (List Char) (List ℤ)
  | [] => .ok []
  | piece :: pieces =>
    match stoll piece with
    | none => .error ("Invalid value: ".toList ++ field)
    | some v =>
      if v < min ∨ max < v then .error ("Value out of range: ".toList ++ field)
      else (parseValues min max field pieces).map (v :: ·)

theorem mem_of_parseValues {min max : ℤ} {field : List Char} {pieces : List (List Char)}
    {vs : List ℤ} (h : parseValues min max field pieces = .ok vs) :
    (∀ v ∈ vs, min ≤ v ∧ v ≤ max) ∧ vs.length = pieces.length := by
  induction pieces generalizing vs with
  | nil =>
    cases h
    exact ⟨forall_mem_nil _, rfl⟩
  | cons piece pieces ih =>
    rw [parseValues] at h
    split at h
    · cases h
    · rename_i v _
      split at h
      · cases h
      · rename_i hrange
        cases hrest : parseValues min max field pieces with
        | error e =>
          rw [hrest] at h
          cases h
        | ok ws =>
          rw [hrest] at h
          obtain rfl : v :: ws = vs := Except.ok.inj h
          obtain ⟨hall, hlength⟩ := ih hrest
          refine ⟨forall_mem_cons.mpr ⟨by omega, hall⟩, ?_⟩
          rw [length_cons, length_cons, hlength]

theorem ne_nil_of_parseValues {min max : ℤ} {field : List Char} {vs : List ℤ}
    (h : parseValues min max field (field.splitOn ',') = .ok vs) : vs ≠ [] := by
  rintro rfl
  have hlength := (mem_of_parseValues h).2
  rw [length_nil, eq_comm, length_eq_zero_iff, splitOn_eq_splitOnP] at hlength
  exact splitOnP_ne_nil _ _ hlength

def ScheduleItem.parse (min max : ℤ) (field : List Char) :
    Except (List Char) (ScheduleItem min max) :=
  if field = ['*'] then .ok ⟨[], true, forall_mem_nil _, Or.inl rfl⟩
  else
    match h : parseValues min max field (field.splitOn ',') with
    | .error e => .error e
    | .ok vs => .ok ⟨vs, false, (mem_of_parseValues h).1, Or.inr (ne_nil_of_parseValues h)⟩

section Items

variable {min max : ℤ} (item : ScheduleItem min max)

def ScheduleItem.isValidFor (v : ℤ) : Bool :=
  item.star || v ∈ item.values

structure NextValue where
  value : ℤ
  overflow : Bool

def ScheduleItem.findNext (value : ℤ) : Except (List Char) NextValue :=
  match First.scan item.isValidFor value (max + 1 - value).toNat with
  | some i => .ok ⟨i, false⟩
  | none =>
    match First.scan item.isValidFor min (value - min).toNat with
    | some i => .ok ⟨i, true⟩
    | none => .error ("Failed to find match for: ".toList ++ Text.decimal value)

def ScheduleItem.toText : List Char :=
  if item.star then ['*'] else [','].intercalate (item.values.map Text.decimal)

end Items

/-! ## Schedules -/

structure Schedule where
  min : ScheduleItem 0 59
  hour : ScheduleItem 0 23
  dom : ScheduleItem 1 31
  mon : ScheduleItem 1 12
  dow : ScheduleItem 0 6

def Schedule.toText (s : Schedule) : List Char :=
  s.min.toText ++ [' '] ++ s.hour.toText ++ [' '] ++ s.dom.toText ++ [' '] ++ s.mon.toText ++
    [' '] ++ s.dow.toText

/-- `str::utils::split` at spaces drops an empty piece at the end only. -/
def parse (text : List Char) : Except (List Char) Schedule :=
  match Text.getlines ' ' text with
  | [min, hour, dom, mon, dow] => do
      let min ← ScheduleItem.parse 0 59 min
      let hour ← ScheduleItem.parse 0 23 hour
      let dom ← ScheduleItem.parse 1 31 dom
      let mon ← ScheduleItem.parse 1 12 mon
      let dow ← ScheduleItem.parse 0 6 dow
      return ⟨min, hour, dom, mon, dow⟩
  | _ => .error ("invalid cron syntax: ".toList ++ text)

end Nscp.Cron
