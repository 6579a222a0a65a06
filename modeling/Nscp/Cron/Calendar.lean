import Mathlib

/-!
# Dates and times of day

The Gregorian calendar in the years that `boost::gregorian` knows.  A date is one that exists; a
time also has the hours and minutes of a day and what is left below the minute.  Times are ordered
field by field.
-/

namespace Nscp.Cron

open Option

/-! ## Dates -/

def isLeapYear (year : ℤ) : Bool :=
  year % 4 = 0 ∧ (year % 100 ≠ 0 ∨ year % 400 = 0)

def endOfMonth (year month : ℤ) : ℤ :=
  if month = 2 then if isLeapYear year then 29 else 28
  else if month = 4 ∨ month = 6 ∨ month = 9 ∨ month = 11 then 30
  else 31

def Exists (year month day : ℤ) : Prop :=
  1400 ≤ year ∧ year ≤ 9999 ∧ 1 ≤ month ∧ month ≤ 12 ∧ 1 ≤ day ∧ day ≤ endOfMonth year month

instance (year month day : ℤ) : Decidable (Exists year month day) :=
  inferInstanceAs (Decidable (1400 ≤ year ∧ year ≤ 9999 ∧ 1 ≤ month ∧ month ≤ 12 ∧ 1 ≤ day ∧
    day ≤ endOfMonth year month))

@[ext]
structure Date where
  year : ℤ
  month : ℤ
  day : ℤ
  isReal : Exists year month day
  deriving DecidableEq

def date? (year month day : ℤ) : Option Date :=
  if h : Exists year month day then some ⟨year, month, day, h⟩ else none

def Date.dayOfWeek (d : Date) : ℤ :=
  let a := (14 - d.month) / 12
  let y := d.year - a
  let m := d.month + 12 * a - 2
  (d.day + y + y / 4 - y / 100 + y / 400 + 31 * m / 12) % 7

def Date.succ? (d : Date) : Option Date :=
  match date? d.year d.month (d.day + 1) with
  | some d' => some d'
  | none =>
    match date? d.year (d.month + 1) 1 with
    | some d' => some d'
    | none => date? (d.year + 1) 1 1

variable {year month day : ℤ} {d : Date}

theorem date?_eq_some (h : date? year month day = some d) :
    d.year = year ∧ d.month = month ∧ d.day = day := by
  rw [date?] at h
  split at h
  · cases h
    exact ⟨rfl, rfl, rfl⟩
  · cases h

theorem date?_eq_none (h : date? year month day = none) : ¬ Exists year month day := by
  rw [date?] at h
  split at h
  · cases h
  · assumption

theorem endOfMonth_le (year month : ℤ) :
    28 ≤ endOfMonth year month ∧ endOfMonth year month ≤ 31 := by
  unfold endOfMonth
  split_ifs <;> omega

theorem Date.of_succ? {d' : Date} (h : d.succ? = some d') :
    (d'.year = d.year ∧ d'.month = d.month ∧ d'.day = d.day + 1) ∨
    (d'.year = d.year ∧ d'.month = d.month + 1 ∧ d'.day = 1 ∧ d.day = endOfMonth d.year d.month) ∨
    (d'.year = d.year + 1 ∧ d'.month = 1 ∧ d'.day = 1 ∧ d.month = 12 ∧
      d.day = endOfMonth d.year d.month) := by
  have hreal := d.isReal
  have hnext := endOfMonth_le d.year (d.month + 1)
  rw [Date.succ?] at h
  split at h
  · rename_i hday
    cases h
    exact .inl (date?_eq_some hday)
  · rename_i hday
    have hday := date?_eq_none hday
    unfold Exists at hday hreal
    refine .inr ?_
    split at h
    · rename_i hmonth
      cases h
      obtain ⟨hy, hm, hd⟩ := date?_eq_some hmonth
      exact .inl ⟨hy, hm, hd, by omega⟩
    · rename_i hmonth
      have hmonth := date?_eq_none hmonth
      unfold Exists at hmonth
      obtain ⟨hy, hm, hd⟩ := date?_eq_some h
      exact .inr ⟨hy, hm, hd, by omega, by omega⟩

theorem Date.of_succ?_eq_none (h : d.succ? = none) :
    d.year = 9999 ∧ d.month = 12 ∧ d.day = endOfMonth d.year d.month := by
  have hreal := d.isReal
  have hnext := endOfMonth_le d.year (d.month + 1)
  have hfirst := endOfMonth_le (d.year + 1) 1
  rw [Date.succ?] at h
  split at h
  · cases h
  · rename_i hday
    have hday := date?_eq_none hday
    split at h
    · cases h
    · rename_i hmonth
      have hmonth := date?_eq_none hmonth
      have hyear := date?_eq_none h
      unfold Exists at hday hmonth hyear hreal
      omega

def Date.Before (d e : Date) : Prop :=
  d.year < e.year ∨ d.year = e.year ∧ (d.month < e.month ∨ d.month = e.month ∧ d.day < e.day)

/-! ## Times -/

structure Time where
  date : Date
  hours : ℤ
  minutes : ℤ
  /-- Seconds and fractions. -/
  ticks : ℕ
  deriving DecidableEq

namespace Time

/-- The hours and minutes are those of a day. -/
def OnClock (t : Time) : Prop :=
  0 ≤ t.hours ∧ t.hours ≤ 23 ∧ 0 ≤ t.minutes ∧ t.minutes ≤ 59

def Aligned (t : Time) : Prop := t.ticks = 0

def MinuteLe (t u : Time) : Prop :=
  t.date.year < u.date.year ∨ t.date.year = u.date.year ∧
    (t.date.month < u.date.month ∨ t.date.month = u.date.month ∧
      (t.date.day < u.date.day ∨ t.date.day = u.date.day ∧
        (t.hours < u.hours ∨ t.hours = u.hours ∧ t.minutes ≤ u.minutes)))

theorem MinuteLe.refl (t : Time) : MinuteLe t t := by
  unfold MinuteLe
  omega

theorem MinuteLe.trans {t u v : Time} (htu : MinuteLe t u) (huv : MinuteLe u v) :
    MinuteLe t v := by
  unfold MinuteLe at *
  omega

theorem MinuteLe.total (t u : Time) : MinuteLe t u ∨ MinuteLe u t := by
  unfold MinuteLe
  omega

variable {t u now : Time}

theorem MinuteLe.antisymm (htu : MinuteLe t u) (hut : MinuteLe u t) :
    t.date = u.date ∧ t.hours = u.hours ∧ t.minutes = u.minutes := by
  obtain ⟨⟨ty, tm, td, ht⟩, th, tmin, tk⟩ := t
  obtain ⟨⟨uy, um, ud, hu⟩, uh, umin, uk⟩ := u
  simp only [MinuteLe] at htu hut
  simp only [Date.mk.injEq]
  omega

instance : PartialOrder Time where
  le t u := MinuteLe t u ∧ (MinuteLe u t → t.ticks ≤ u.ticks)
  le_refl t := ⟨MinuteLe.refl t, fun _ => le_rfl⟩
  le_trans t u v htu huv := by
    refine ⟨htu.1.trans huv.1, fun hvt => ?_⟩
    exact (htu.2 (huv.1.trans hvt)).trans (huv.2 (hvt.trans htu.1))
  le_antisymm t u htu hut := by
    obtain ⟨hdate, hhours, hminutes⟩ := htu.1.antisymm hut.1
    have hticks := le_antisymm (htu.2 hut.1) (hut.2 htu.1)
    cases t
    cases u
    simp_all only

theorem le_iff_of_aligned (ht : t.Aligned) : t ≤ u ↔ MinuteLe t u := by
  refine ⟨fun h => h.1, fun h => ⟨h, fun _ => ?_⟩⟩
  rw [show t.ticks = 0 from ht]
  exact Nat.zero_le _

theorem lt_iff_of_aligned (hu : u.Aligned) : t < u ↔ ¬ MinuteLe u t := by
  rw [lt_iff_le_not_ge, le_iff_of_aligned hu]
  refine ⟨fun h => h.2, fun h => ⟨?_, h⟩⟩
  exact ⟨(MinuteLe.total t u).resolve_right h, fun hut => absurd hut h⟩

/-! ## One minute later -/

def addMinute (t : Time) : Option Time :=
  if t.minutes < 59 then some { t with minutes := t.minutes + 1 }
  else if t.hours < 23 then some { t with hours := t.hours + 1, minutes := 0 }
  else t.date.succ?.map fun d => { t with date := d, hours := 0, minutes := 0 }

theorem onClock_of_addMinute (ht : t.OnClock) (h : t.addMinute = some now) : now.OnClock := by
  unfold OnClock at *
  rw [addMinute] at h
  split_ifs at h with hminutes hhours
  · cases h
    exact ⟨ht.1, ht.2.1, by dsimp only; omega, by dsimp only; omega⟩
  · cases h
    exact ⟨by dsimp only; omega, by dsimp only; omega, le_rfl, show (0 : ℤ) ≤ 59 by decide⟩
  · obtain ⟨d, -, rfl⟩ := map_eq_some_iff.mp h
    exact ⟨le_rfl, show (0 : ℤ) ≤ 23 by decide, le_rfl, show (0 : ℤ) ≤ 59 by decide⟩

theorem day_le_endOfMonth (hy : u.date.year = t.date.year) (hm : u.date.month = t.date.month) :
    u.date.day ≤ endOfMonth t.date.year t.date.month :=
  hy ▸ hm ▸ u.date.isReal.2.2.2.2.2

theorem minuteLe_of_addMinute (ht : t.OnClock) (hu : u.OnClock) (h : t.addMinute = some now) :
    MinuteLe now u ↔ ¬ MinuteLe u t := by
  obtain ⟨-, -, hmonth, hmonth', hday, -⟩ := u.date.isReal
  have hsame := day_le_endOfMonth (t := t) (u := u)
  unfold OnClock at ht hu
  unfold MinuteLe
  rw [addMinute] at h
  split_ifs at h with hminutes hhours
  · cases h
    dsimp only
    omega
  · cases h
    dsimp only
    omega
  · obtain ⟨d, hd, rfl⟩ := map_eq_some_iff.mp h
    dsimp only
    obtain h | h | h := Date.of_succ? hd <;> omega

theorem minuteLe_of_addMinute_eq_none (ht : t.OnClock) (hu : u.OnClock) (h : t.addMinute = none) :
    MinuteLe u t := by
  obtain ⟨-, hyear, hmonth, hmonth', hday, -⟩ := u.date.isReal
  have hsame := day_le_endOfMonth (t := t) (u := u)
  unfold OnClock at ht hu
  unfold MinuteLe
  rw [addMinute] at h
  split_ifs at h with hminutes hhours
  obtain ⟨hy, hm, hd⟩ := Date.of_succ?_eq_none (map_eq_none_iff.mp h)
  omega

/-- The year changes in the last minute of the last day only. -/
def EndsYear (t : Time) : Prop :=
  t.date.month = 12 ∧ t.date.day = 31 ∧ t.hours = 23 ∧ t.minutes = 59

instance (t : Time) : Decidable t.EndsYear :=
  inferInstanceAs (Decidable (t.date.month = 12 ∧ t.date.day = 31 ∧ t.hours = 23 ∧ t.minutes = 59))

theorem year_of_addMinute (ht : t.OnClock) (h : t.addMinute = some now) :
    now.date.year = if t.EndsYear then t.date.year + 1 else t.date.year := by
  have hdecember : endOfMonth t.date.year 12 = 31 := rfl
  unfold OnClock at ht
  rw [addMinute] at h
  split_ifs at h with hminutes hhours
  · cases h
    rw [if_neg]
    rintro ⟨-, -, hh, hmin⟩
    omega
  · cases h
    rw [if_neg]
    rintro ⟨-, -, hh, hmin⟩
    omega
  · obtain ⟨d, hd, rfl⟩ := map_eq_some_iff.mp h
    dsimp only
    obtain ⟨hy, hm, hd⟩ | ⟨hy, hm, -, hd⟩ | ⟨hy, -, -, hm, hd⟩ := Date.of_succ? hd
    · have hlast := d.isReal.2.2.2.2.2
      rw [hy, hm, hd] at hlast
      rw [hy, if_neg]
      rintro ⟨hm', hd', -⟩
      rw [hm', hdecember] at hlast
      omega
    · have hlast := d.isReal.2.2.2.1
      rw [hy, if_neg]
      rintro ⟨hm', -⟩
      omega
    · rw [hm, hdecember] at hd
      rw [hy, if_pos ⟨hm, hd, by omega, by omega⟩]

end Time

end Nscp.Cron
