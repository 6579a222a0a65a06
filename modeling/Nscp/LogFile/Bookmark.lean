import Nscp.Library.Eviction
import Nscp.Library.Text

/-!
# Bookmarks of log files

A bookmark is the position behind the last complete record a check has read, with a fingerprint of
the first bytes of the file.  Positions are kept as texts in a table that forgets the one not used
for the longest time when it is full.
-/

namespace Nscp.LogFile

open Nat

/-! ## Positions -/

structure Position where
  valid : Bool := false
  offset : ℕ := 0
  fingerprintLen : ℕ := 0
  fingerprint : ℕ := 0
  deriving DecidableEq

/-- Where reading goes on, if the file is still the same. -/
def Position.resumeOffset (pos : Position) : ℕ :=
  if pos.valid then pos.offset else 0

def maxFingerprintLen : ℕ := 256

def fnv1a (data : List Char) : ℕ :=
  data.foldl (fun hash c => (hash ^^^ c.toNat) * 1099511628211 % 2 ^ 64) 14695981039346656037

def format (pos : Position) : List Char :=
  if pos.valid then
    ['|'].intercalate ["1".toList, toDigits 10 pos.offset, toDigits 10 pos.fingerprintLen,
      toDigits 10 pos.fingerprint]
  else []

def isNumber (chunk : List Char) : Bool :=
  !chunk.isEmpty && chunk.all Char.isDigit

def parse (data : List Char) : Position :=
  match data.splitOn '|' with
  | [version, offset, len, fingerprint] =>
    if version = "1".toList && isNumber offset && isNumber len && isNumber fingerprint then
      ⟨true, ofDigitChars 10 offset 0, ofDigitChars 10 len 0, ofDigitChars 10 fingerprint 0⟩
    else {}
  | _ => {}

theorem isNumber_toDigits (n : ℕ) : isNumber (toDigits 10 n) = true := by
  rw [isNumber, Bool.and_eq_true, List.all_eq_true]
  constructor
  · cases h : toDigits 10 n with
    | nil => exact absurd h toDigits_ne_nil
    | cons c cs => rfl
  · exact fun c hc => Text.isDigit_of_mem_toDigits hc

theorem parse_format (pos : Position) (h : pos.valid = true) : parse (format pos) = pos := by
  have hdigit : ∀ n, '|' ∉ toDigits 10 n := by
    intro n hmem
    exact absurd (Text.isDigit_of_mem_toDigits hmem) (by decide)
  have hsplit : (format pos).splitOn '|' = ["1".toList, toDigits 10 pos.offset,
      toDigits 10 pos.fingerprintLen, toDigits 10 pos.fingerprint] := by
    rw [format, if_pos h]
    apply List.splitOn_intercalate
    · simp [hdigit]
    · exact List.cons_ne_nil _ _
  rw [parse, hsplit]
  simp only [isNumber_toDigits, ofDigitChars_ten_toDigits, Bool.and_true, decide_true, if_true]
  rw [← h]

/-! ## Where to go on -/

structure Resume where
  skip : Bool
  offset : ℕ
  restarted : Bool
  deriving DecidableEq

section

variable (prev : Position) (curSize headFingerprint : ℕ) (headValid : Bool)

def rotated : Bool :=
  curSize < prev.offset ||
    0 < prev.fingerprintLen && (!headValid || headFingerprint ≠ prev.fingerprint)

def computeResume : Resume :=
  if curSize = 0 then ⟨true, 0, prev.valid && prev.offset ≠ 0⟩
  else if !prev.valid then ⟨false, 0, false⟩
  else if rotated prev curSize headFingerprint headValid then ⟨false, 0, true⟩
  else if curSize = prev.offset then ⟨true, prev.offset, false⟩
  else ⟨false, prev.offset, false⟩

end

/-! ## The table of positions -/

structure Entry where
  value : List Char
  used : ℕ

structure Store where
  entries : Table (List Char) Entry := ∅
  clock : ℕ := 0

def maxPositions : ℕ := 1000

namespace Store

def value (s : Store) (key : List Char) : Option (List Char) :=
  (s.entries.lookup key).map Entry.value

def put (s : Store) (key value : List Char) : Store :=
  ⟨Eviction.dropOldest Entry.used (maxPositions + 1) (s.entries.insert key ⟨value, s.clock + 1⟩),
    s.clock + 1⟩

def touch (s : Store) (key : List Char) : Store :=
  match s.entries.lookup key with
  | none => s
  | some entry => ⟨s.entries.insert key { entry with used := s.clock + 1 }, s.clock + 1⟩

theorem value_touch (s : Store) (key k : List Char) : (s.touch key).value k = s.value k := by
  rw [touch]
  split
  · rfl
  · next entry hentry =>
      rw [value, value, Table.lookup_insert_eq_if]
      split_ifs with hk
      · rw [hk, hentry]
        rfl
      · rfl

theorem value_put {s : Store} {key v k w : List Char} (h : (s.put key v).value k = some w) :
    k = key ∧ w = v ∨ s.value k = some w := by
  obtain ⟨entry, hlookup, rfl⟩ := Option.map_eq_some_iff.mp h
  have hkept := (Eviction.evicted_dropOldest Entry.used (maxPositions + 1)
    (s.entries.insert key ⟨v, s.clock + 1⟩)).kept hlookup
  rw [Table.lookup_insert_eq_if] at hkept
  split_ifs at hkept with hk
  · cases hkept
    exact .inl ⟨hk, rfl⟩
  · exact .inr (Option.map_eq_some_iff.mpr ⟨entry, hkept, rfl⟩)

end Store

end Nscp.LogFile
