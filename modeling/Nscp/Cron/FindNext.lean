import Nscp.Cron.Calendar
import Nscp.Cron.Schedule

/-!
# The next time of a schedule

The search goes through years, months, days and hours in nested loops, each of which asks its
field for the next value.  It finds the first time that the schedule is valid for.
-/

namespace Nscp.Cron

open Except First Set Time

/-! ## The values of a field -/

section Items

variable {min max start : ℤ} (item : ScheduleItem min max)

theorem ScheduleItem.exists_valid (hle : min ≤ max) :
    ∃ v, min ≤ v ∧ v ≤ max ∧ item.isValidFor v = true := by
  rcases item.notEmpty with hstar | hvalues
  · exact ⟨min, le_rfl, hle, by rw [isValidFor, hstar, Bool.true_or]⟩
  · obtain ⟨v, hv⟩ := List.exists_mem_of_ne_nil _ hvalues
    obtain ⟨hlow, hhigh⟩ := item.inRange v hv
    refine ⟨v, hlow, hhigh, ?_⟩
    rw [isValidFor, decide_eq_true hv, Bool.or_true]

def ScheduleItem.From (start : ℤ) : Set ℤ :=
  {v | start ≤ v ∧ v ≤ max ∧ item.isValidFor v = true}

theorem ScheduleItem.scan_first (start : ℤ) :
    First (item.From start) (scan item.isValidFor start (max + 1 - start).toNat) := by
  refine (First.scan_first item.isValidFor start _).congr fun v => ?_
  constructor
  all_goals
    rintro ⟨hlow, hhigh, hv⟩
    exact ⟨hlow, by omega, hv⟩

theorem ScheduleItem.range_of_findNext {n : NextValue} (h : item.findNext start = .ok n)
    (hover : ¬ n.overflow = true) : start ≤ n.value ∧ n.value ≤ max := by
  have hfirst := item.scan_first start
  rw [findNext] at h
  split at h
  · rename_i i hscan
    cases h
    rw [hscan] at hfirst
    exact ⟨hfirst.1.1, hfirst.1.2.1⟩
  · split at h
    · cases h
      exact absurd rfl hover
    · cases h

theorem ScheduleItem.findNext_spec (hle : min ≤ max) (hstart : min ≤ start) :
    ∃ n, item.findNext start = .ok n ∧
      First (item.From start) (if n.overflow then none else some n.value) := by
  have hfirst := item.scan_first start
  rw [findNext]
  cases hscan : scan item.isValidFor start (max + 1 - start).toNat with
  | some i =>
    rw [hscan] at hfirst
    exact ⟨⟨i, false⟩, rfl, hfirst⟩
  | none =>
    rw [hscan] at hfirst
    have hwrap := First.scan_first item.isValidFor min (start - min).toNat
    cases hscan' : scan item.isValidFor min (start - min).toNat with
    | some i => exact ⟨⟨i, true⟩, rfl, hfirst⟩
    | none =>
      -- the field has a value, so one of the two loops meets it
      rw [hscan'] at hwrap
      obtain ⟨v, hlow, hhigh, hv⟩ := item.exists_valid hle
      exfalso
      rcases le_or_gt start v with hv' | hv'
      · exact eq_empty_iff_forall_notMem.mp hfirst v ⟨hv', hhigh, hv⟩
      · exact eq_empty_iff_forall_notMem.mp hwrap v ⟨hlow, by omega, hv⟩

end Items

/-! ## A loop over the values of a field -/

/-- How the body of a loop ends: `continue`, `break` or `return`. -/
inductive Step (α : Type) where
  | next
  | stop
  | found (a : α)

def Step.ofOption {α : Type} : Option α → Step α
  | none => .next
  | some a => .found a

section Loops

variable {min max : ℤ} {α : Type}

def forEach (item : ScheduleItem min max) (body : ℤ → Except (List Char) (Step α)) (start : ℤ) :
    Except (List Char) (Option α) :=
  match _hnext : item.findNext start with
  | .error e => .error e
  | .ok n =>
    if _hover : n.overflow = true then .ok none
    else
      match body n.value with
      | .error e => .error e
      | .ok .next => forEach item body (n.value + 1)
      | .ok .stop => .ok none
      | .ok (.found a) => .ok (some a)
termination_by (max + 1 - start).toNat
decreasing_by
  have hrange := item.range_of_findNext _hnext _hover
  omega

variable [Preorder α]

/-- What the body has to say about the candidates with one value. -/
def Step.Covers (C : Set α) (f : α → ℤ) (v : ℤ) : Step α → Prop
  | .next => ∀ b ∈ C, f b ≠ v
  | .stop => ∀ b ∈ C, f b < v
  | .found a => IsLeast {b | b ∈ C ∧ f b = v} a

variable {f : α → ℤ} {C : Set α}

theorem Step.covers_ofOption {v : ℤ} {r : Option α} (h : First {b | b ∈ C ∧ f b = v} r) :
    (Step.ofOption r).Covers C f v := by
  cases r with
  | none =>
    intro b hb hbv
    exact eq_empty_iff_forall_notMem.mp h b ⟨hb, hbv⟩
  | some a => exact h

/-- A loop returns the first candidate as soon as its body covers the candidates of each value;
the values ascend, so none before them is missed. -/
theorem forEach_first {item : ScheduleItem min max} {body : ℤ → Except (List Char) (Step α)}
    (hle : min ≤ max) (hmono : ∀ a ∈ C, ∀ b ∈ C, f a < f b → a ≤ b) {start : ℤ}
    (hstart : min ≤ start) (hC : ∀ a ∈ C, f a ∈ item.From start)
    (hbody : ∀ v ∈ item.From start, ∃ st, body v = .ok st ∧ st.Covers C f v) :
    ∃ r, forEach item body start = .ok r ∧ First C r := by
  induction hk : (max + 1 - start).toNat using Nat.strong_induction_on generalizing start with
  | _ k ih =>
    obtain ⟨n, hn, hfirst⟩ := item.findNext_spec hle hstart
    rw [forEach]
    split
    · rename_i e he
      rw [hn] at he
      cases he
    · rename_i m hm
      obtain rfl : n = m := ok.inj (hn.symm.trans hm)
      cases hover : n.overflow with
      | true =>
        rw [hover, if_pos rfl] at hfirst
        rw [dif_pos rfl]
        refine ⟨none, rfl, eq_empty_of_forall_notMem fun a ha => ?_⟩
        exact eq_empty_iff_forall_notMem.mp hfirst _ (hC a ha)
      | false =>
        rw [hover, if_neg Bool.false_ne_true] at hfirst
        rw [dif_neg Bool.false_ne_true]
        obtain ⟨st, hst, hcovers⟩ := hbody n.value hfirst.1
        rw [hst]
        cases st with
        | next =>
          -- the candidates lie behind the value
          have hrange := hfirst.1.2.1
          have hfrom := hfirst.1.1
          refine ih _ (by omega) (by omega) ?_ ?_ rfl
          · intro a ha
            have hlow := hfirst.2 (hC a ha)
            have hne := hcovers a ha
            exact ⟨by omega, (hC a ha).2⟩
          · rintro v ⟨hlow, hv⟩
            exact hbody v ⟨by omega, hv⟩
        | stop =>
          refine ⟨none, rfl, eq_empty_of_forall_notMem fun a ha => ?_⟩
          have hlow := hfirst.2 (hC a ha)
          have hhigh := hcovers a ha
          omega
        | found a =>
          refine ⟨some a, rfl, of_isLeast hcovers (fun b hb => hb.1) ?_⟩
          intro b hb hne
          have hlow := hfirst.2 (hC b hb)
          have hfa := hcovers.1.2
          refine hmono a hcovers.1.1 b hb ?_
          have hfb : f b ≠ n.value := fun h => hne ⟨hb, h⟩
          omega

end Loops

/-! ## The search -/

namespace Schedule

variable (s : Schedule)

def isValidFor (t : Time) : Bool :=
  s.mon.isValidFor t.date.month && s.dom.isValidFor t.date.day &&
    s.dow.isValidFor t.date.dayOfWeek && s.hour.isValidFor t.hours &&
    s.min.isValidFor t.minutes

variable {t : Time}

theorem isValidFor_iff : s.isValidFor t = true ↔
    s.mon.isValidFor t.date.month = true ∧ s.dom.isValidFor t.date.day = true ∧
      s.dow.isValidFor t.date.dayOfWeek = true ∧ s.hour.isValidFor t.hours = true ∧
      s.min.isValidFor t.minutes = true := by
  simp [isValidFor, and_assoc]

/-- The first values that a loop asks its field for: those of `now` as long as all outer fields
are still those of `now`. -/
def minStart (now : Time) (d : Date) (hour : ℤ) : ℤ :=
  if d = now.date ∧ hour = now.hours then now.minutes else 0

section

variable (now : Time)

@[inherit_doc minStart]
def hourStart (d : Date) : ℤ :=
  if d = now.date then now.hours else 0

@[inherit_doc minStart]
def domStart (year month : ℤ) : ℤ :=
  if year = now.date.year ∧ month = now.date.month then now.date.day else 1

@[inherit_doc minStart]
def monStart (year : ℤ) : ℤ :=
  if year = now.date.year then now.date.month else 1

def searchMinute (d : Date) (hour : ℤ) : Except (List Char) (Step Time) :=
  match s.min.findNext (minStart now d hour) with
  | .error e => .error e
  | .ok n => .ok (if n.overflow then .next else .found ⟨d, hour, n.value, 0⟩)

def searchHours (d : Date) : Except (List Char) (Option Time) :=
  forEach s.hour (s.searchMinute now d) (hourStart now d)

/-- A day that the month does not have ends the loop. -/
def searchDay (year month day : ℤ) : Except (List Char) (Step Time) :=
  match date? year month day with
  | none => .ok .stop
  | some d =>
    if s.dow.isValidFor d.dayOfWeek then (s.searchHours now d).map Step.ofOption
    else .ok .next

def searchDays (year month : ℤ) : Except (List Char) (Option Time) :=
  forEach s.dom (s.searchDay now year month) (domStart now year month)

def searchMonths (year : ℤ) : Except (List Char) (Option Time) :=
  forEach s.mon (fun month => (s.searchDays now year month).map Step.ofOption) (monStart now year)

end

def searchYears (now : Time) : ℕ → ℤ → Except (List Char) (Option Time)
  | 0, _ => .ok none
  | n + 1, year =>
    match s.searchMonths now year with
    | .error e => .error e
    | .ok (some u) => .ok (some u)
    | .ok none => searchYears now n (year + 1)

/-- The search never starts in a minute that the schedule is valid for; `boost` throws where the
calendar ends. -/
def searchStart (t : Time) : Except (List Char) Time :=
  if s.isValidFor t then
    match t.addMinute with
    | some now => .ok now
    | none => .error "Year is out of valid range: 1400..9999".toList
  else .ok t

def findNext (t : Time) : Except (List Char) Time :=
  match s.searchStart t with
  | .error e => .error e
  | .ok now =>
    match s.searchYears now 5 now.date.year with
    | .error e => .error e
    | .ok (some u) => .ok u
    | .ok none => .error "Failed to find next schedule match within 4 years".toList

/-! ## What each loop finds -/

structure Candidate (now u : Time) : Prop where
  aligned : u.Aligned
  onClock : u.OnClock
  valid : s.isValidFor u = true
  notBefore : Time.MinuteLe now u

variable {s} {now : Time}

theorem Candidate.le {u v : Time} (hu : s.Candidate now u) (h : Time.MinuteLe u v) : u ≤ v :=
  (le_iff_of_aligned hu.aligned).mpr h

variable {u : Time}

section

variable (hu : s.Candidate now u)
include hu

theorem Candidate.minutes_mem : u.minutes ∈ s.min.From (minStart now u.date u.hours) := by
  refine ⟨?_, hu.onClock.2.2.2, (s.isValidFor_iff.mp hu.valid).2.2.2.2⟩
  have hbefore := hu.notBefore
  unfold minStart
  split_ifs with hsame
  · rw [Time.MinuteLe, hsame.1, hsame.2] at hbefore
    omega
  · exact hu.onClock.2.2.1

theorem Candidate.hours_mem : u.hours ∈ s.hour.From (hourStart now u.date) := by
  refine ⟨?_, hu.onClock.2.1, (s.isValidFor_iff.mp hu.valid).2.2.2.1⟩
  have hbefore := hu.notBefore
  unfold hourStart
  split_ifs with hsame
  · rw [Time.MinuteLe, hsame] at hbefore
    omega
  · exact hu.onClock.1

theorem Candidate.day_mem : u.date.day ∈ s.dom.From (domStart now u.date.year u.date.month) := by
  obtain ⟨-, -, -, -, hlow, hhigh⟩ := u.date.isReal
  have hlast := endOfMonth_le u.date.year u.date.month
  refine ⟨?_, by omega, (s.isValidFor_iff.mp hu.valid).2.1⟩
  have hbefore := hu.notBefore
  unfold domStart
  split_ifs with hsame
  · rw [Time.MinuteLe, hsame.1, hsame.2] at hbefore
    omega
  · exact hlow

theorem Candidate.month_mem : u.date.month ∈ s.mon.From (monStart now u.date.year) := by
  obtain ⟨-, -, hlow, hhigh, -⟩ := u.date.isReal
  refine ⟨?_, hhigh, (s.isValidFor_iff.mp hu.valid).1⟩
  have hbefore := hu.notBefore
  unfold monStart
  split_ifs with hsame
  · rw [Time.MinuteLe, hsame] at hbefore
    omega
  · exact hlow

end

structure OpenDate (s : Schedule) (now : Time) (d : Date) : Prop where
  mon : s.mon.isValidFor d.month = true
  dom : s.dom.isValidFor d.day = true
  dow : s.dow.isValidFor d.dayOfWeek = true
  notBefore : d = now.date ∨ now.date.Before d

theorem searchMinute_covers (hnow : now.OnClock) {d : Date} (hd : s.OpenDate now d) {hour : ℤ}
    (hhour : hour ∈ s.hour.From (hourStart now d)) :
    ∃ st, s.searchMinute now d hour = .ok st ∧
      st.Covers {u | s.Candidate now u ∧ u.date = d} hours hour := by
  obtain ⟨hstart, hhigh, hvalid⟩ := hhour
  obtain ⟨hclock, -, hclock', -⟩ := hnow
  have hpositive : 0 ≤ minStart now d hour := by
    unfold minStart
    split_ifs <;> omega
  obtain ⟨n, hn, hfirst⟩ := s.min.findNext_spec (by decide) hpositive
  rw [searchMinute, hn]
  refine ⟨_, rfl, ?_⟩
  cases hover : n.overflow with
  | true =>
    rw [hover, if_pos rfl] at hfirst
    rw [if_pos rfl]
    rintro u ⟨hu, rfl⟩ rfl
    exact eq_empty_iff_forall_notMem.mp hfirst _ hu.minutes_mem
  | false =>
    rw [hover, if_neg Bool.false_ne_true] at hfirst
    rw [if_neg Bool.false_ne_true]
    obtain ⟨⟨hlow, hlast, hmin⟩, hleast⟩ := hfirst
    refine ⟨⟨⟨⟨rfl, ?_, ?_, ?_⟩, rfl⟩, rfl⟩, ?_⟩
    · refine ⟨?_, hhigh, hpositive.trans hlow, hlast⟩
      unfold hourStart at hstart
      split_ifs at hstart <;> dsimp only <;> omega
    · exact s.isValidFor_iff.mpr ⟨hd.mon, hd.dom, hd.dow, hvalid, hmin⟩
    · unfold Time.MinuteLe
      unfold minStart at hlow
      unfold hourStart at hstart
      rcases hd.notBefore with rfl | hbefore
      · rw [if_pos rfl] at hstart
        rcases eq_or_ne hour now.hours with rfl | hne
        · rw [if_pos ⟨rfl, rfl⟩] at hlow
          dsimp only
          omega
        · dsimp only
          omega
      · unfold Date.Before at hbefore
        dsimp only
        omega
    · rintro u ⟨⟨hu, rfl⟩, rfl⟩
      have hle := hleast hu.minutes_mem
      have hminute : Time.MinuteLe ⟨u.date, u.hours, n.value, 0⟩ u := by
        unfold Time.MinuteLe
        dsimp only
        omega
      exact ⟨hminute, fun _ => Nat.zero_le _⟩

theorem searchHours_first (hnow : now.OnClock) {d : Date} (hd : s.OpenDate now d) :
    ∃ r, s.searchHours now d = .ok r ∧ First {u | s.Candidate now u ∧ u.date = d} r := by
  refine forEach_first (f := hours) (by decide) ?_ ?_ ?_ ?_
  · rintro u ⟨hu, rfl⟩ v ⟨hv, hdate⟩ hlt
    refine hu.le ?_
    rw [Time.MinuteLe, hdate]
    omega
  · unfold hourStart
    split_ifs
    · exact hnow.1
    · exact le_rfl
  · rintro u ⟨hu, rfl⟩
    exact hu.hours_mem
  · intro hour hhour
    exact searchMinute_covers hnow hd hhour

structure OpenMonth (s : Schedule) (now : Time) (year month : ℤ) : Prop where
  mon : s.mon.isValidFor month = true
  fromYear : now.date.year ≤ year
  fromMonth : year = now.date.year → now.date.month ≤ month

variable {year month : ℤ}

section

variable (hnow : now.OnClock)
include hnow

theorem searchDay_covers (hm : s.OpenMonth now year month) {day : ℤ}
    (hday : day ∈ s.dom.From (domStart now year month)) :
    ∃ st, s.searchDay now year month day = .ok st ∧
      st.Covers {u | s.Candidate now u ∧ u.date.year = year ∧ u.date.month = month}
        (fun u => u.date.day) day := by
  obtain ⟨hstart, -, hvalid⟩ := hday
  unfold domStart at hstart
  have hfirst := now.date.isReal.2.2.2.2.1
  have hpositive : 1 ≤ day := by
    split_ifs at hstart <;> omega
  rw [searchDay]
  cases hdate : date? year month day with
  | none =>
    refine ⟨.stop, rfl, ?_⟩
    rintro u ⟨hu, rfl, rfl⟩
    have hreal := u.date.isReal
    have hnot := date?_eq_none hdate
    unfold Exists at hreal hnot
    change u.date.day < day
    omega
  | some d =>
    obtain ⟨rfl, rfl, rfl⟩ := date?_eq_some hdate
    -- a date is known by its year, month and day
    have hsame : ∀ u : Time, (s.Candidate now u ∧ u.date = d) ↔
        (s.Candidate now u ∧ u.date.year = d.year ∧ u.date.month = d.month) ∧
          u.date.day = d.day := by
      intro u
      rw [Date.ext_iff, and_assoc, and_assoc]
    dsimp only
    split_ifs with hdow
    · have hd : s.OpenDate now d := by
        refine ⟨hm.mon, hvalid, hdow, ?_⟩
        have hyear := hm.fromYear
        have hmonth := hm.fromMonth
        rw [Date.Before, Date.ext_iff]
        split_ifs at hstart <;> omega
      obtain ⟨r, hr, hfirst⟩ := searchHours_first hnow hd
      rw [hr]
      exact ⟨_, rfl, Step.covers_ofOption (hfirst.congr hsame)⟩
    · refine ⟨.next, rfl, ?_⟩
      intro u hmonth hday
      obtain ⟨hu, rfl⟩ := (hsame u).mpr ⟨hmonth, hday⟩
      exact hdow (s.isValidFor_iff.mp hu.valid).2.2.1

theorem searchDays_first (hm : s.OpenMonth now year month) :
    ∃ r, s.searchDays now year month = .ok r ∧
      First {u | s.Candidate now u ∧ u.date.year = year ∧ u.date.month = month} r := by
  refine forEach_first (f := fun u => u.date.day) (by decide) ?_ ?_ ?_ ?_
  · rintro u ⟨hu, rfl, rfl⟩ v ⟨hv, hy, hm⟩ hlt
    refine hu.le ?_
    rw [Time.MinuteLe, hy, hm]
    omega
  · unfold domStart
    split_ifs
    · exact now.date.isReal.2.2.2.2.1
    · exact le_rfl
  · rintro u ⟨hu, rfl, rfl⟩
    exact hu.day_mem
  · intro day hday
    exact searchDay_covers hnow hm hday

theorem searchMonths_first (hyear : now.date.year ≤ year) : ∃ r, s.searchMonths now year = .ok r ∧
      First {u | s.Candidate now u ∧ u.date.year = year} r := by
  have hstart : 1 ≤ monStart now year := by
    unfold monStart
    split_ifs
    · exact now.date.isReal.2.2.1
    · exact le_rfl
  refine forEach_first (f := fun u => u.date.month) (by decide) ?_ hstart ?_ ?_
  · rintro u ⟨hu, rfl⟩ v ⟨hv, hy⟩ hlt
    refine hu.le ?_
    rw [Time.MinuteLe, hy]
    omega
  · rintro u ⟨hu, rfl⟩
    exact hu.month_mem
  · rintro month ⟨hlow, -, hvalid⟩
    have hm : s.OpenMonth now year month := by
      refine ⟨hvalid, hyear, ?_⟩
      rintro rfl
      rwa [monStart, if_pos rfl] at hlow
    obtain ⟨r, hr, hfirst⟩ := searchDays_first hnow hm
    rw [hr]
    refine ⟨_, rfl, Step.covers_ofOption (hfirst.congr fun u => ?_)⟩
    exact and_assoc.symm

theorem searchYears_first (n : ℕ) (hyear : now.date.year ≤ year) :
    ∃ r, s.searchYears now n year = .ok r ∧
      First {u | s.Candidate now u ∧ year ≤ u.date.year ∧ u.date.year < year + n} r := by
  induction n generalizing year with
  | zero =>
    refine ⟨none, rfl, eq_empty_of_forall_notMem ?_⟩
    rintro u ⟨-, hlow, hhigh⟩
    omega
  | succ n ih =>
    obtain ⟨r, hr, hfirst⟩ := searchMonths_first (s := s) hnow hyear
    rw [searchYears, hr]
    cases r with
    | some u =>
      refine ⟨some u, rfl, of_isLeast hfirst ?_ ?_⟩
      · rintro v ⟨hv, rfl⟩
        exact ⟨hv, le_rfl, by omega⟩
      · rintro v ⟨hv, hlow, -⟩ hne
        obtain ⟨hu, rfl⟩ := hfirst.1
        have hyear' : v.date.year ≠ u.date.year := fun h => hne ⟨hv, h⟩
        refine hu.le (.inl ?_)
        omega
    | none =>
      obtain ⟨r, hr, hrest⟩ := ih (show now.date.year ≤ year + 1 by omega)
      refine ⟨r, hr, hrest.congr fun v => ?_⟩
      constructor
      · rintro ⟨hv, hlow, hhigh⟩
        exact ⟨hv, by omega, by omega⟩
      · rintro ⟨hv, hlow, hhigh⟩
        have hyear' : v.date.year ≠ year := fun h =>
          eq_empty_iff_forall_notMem.mp hfirst v ⟨hv, h⟩
        exact ⟨hv, by omega, by omega⟩

end

/-! ## The next due time -/

/-- The times that `find_next` is to look for. -/
structure Due (s : Schedule) (t u : Time) : Prop where
  aligned : u.Aligned
  onClock : u.OnClock
  valid : s.isValidFor u = true
  later : t < u

/-- The year in which the search starts. -/
def firstYear (s : Schedule) (t : Time) : ℤ :=
  if s.isValidFor t = true ∧ t.EndsYear then t.date.year + 1 else t.date.year

theorem isValidFor_congr (htu : t.MinuteLe u) (hut : u.MinuteLe t) :
    s.isValidFor t = s.isValidFor u := by
  obtain ⟨hdate, hhours, hminutes⟩ := htu.antisymm hut
  rw [isValidFor, isValidFor, hdate, hhours, hminutes]

theorem searchStart_spec (ht : t.OnClock) (hstart : s.searchStart t = .ok now) :
    now.OnClock ∧ now.date.year = s.firstYear t ∧ ∀ u, s.Candidate now u ↔ s.Due t u := by
  rw [searchStart] at hstart
  split at hstart
  · rename_i hvalid
    cases hadd : t.addMinute with
    | none =>
      rw [hadd] at hstart
      cases hstart
    | some now' =>
      rw [hadd] at hstart
      cases hstart
      refine ⟨onClock_of_addMinute ht hadd, ?_, fun u => ⟨fun h => ?_, fun h => ?_⟩⟩
      · rw [year_of_addMinute ht hadd, firstYear]
        simp [hvalid]
      · refine ⟨h.aligned, h.onClock, h.valid, ?_⟩
        rw [lt_iff_of_aligned h.aligned]
        exact (minuteLe_of_addMinute ht h.onClock hadd).mp h.notBefore
      · refine ⟨h.aligned, h.onClock, h.valid, ?_⟩
        rw [minuteLe_of_addMinute ht h.onClock hadd]
        exact (lt_iff_of_aligned h.aligned).mp h.later
  · rename_i hvalid
    cases hstart
    refine ⟨ht, ?_, fun u => ⟨fun h => ?_, fun h => ?_⟩⟩
    · rw [firstYear, if_neg fun h => hvalid h.1]
    · refine ⟨h.aligned, h.onClock, h.valid, ?_⟩
      rw [lt_iff_of_aligned h.aligned]
      intro hut
      exact hvalid ((isValidFor_congr h.notBefore hut).trans h.valid)
    · refine ⟨h.aligned, h.onClock, h.valid, ?_⟩
      have hlater := (lt_iff_of_aligned h.aligned).mp h.later
      exact (Time.MinuteLe.total t u).resolve_right hlater

theorem searchStart_error (ht : t.OnClock) {e : List Char} (hstart : s.searchStart t = .error e)
    (u : Time) : ¬ s.Due t u := by
  intro h
  rw [searchStart] at hstart
  split at hstart
  · cases hadd : t.addMinute with
    | none =>
      have hnot := (lt_iff_of_aligned h.aligned).mp h.later
      exact hnot (minuteLe_of_addMinute_eq_none ht h.onClock hadd)
    | some now' =>
      rw [hadd] at hstart
      cases hstart
  · cases hstart

theorem findNext_spec (ht : t.OnClock) :
    (∃ u, s.findNext t = .ok u ∧ IsLeast {u | s.Due t u ∧ u.date.year ≤ s.firstYear t + 4} u) ∨
    (∃ e, s.findNext t = .error e) ∧ ∀ u, s.Due t u → s.firstYear t + 4 < u.date.year := by
  rw [findNext]
  cases hstart : s.searchStart t with
  | error e =>
    refine .inr ⟨⟨e, rfl⟩, fun u hu => ?_⟩
    exact absurd hu (searchStart_error ht hstart u)
  | ok now =>
    obtain ⟨hnow, hyear, hcandidate⟩ := searchStart_spec ht hstart
    obtain ⟨r, hr, hfirst⟩ := searchYears_first (s := s) hnow 5 le_rfl
    have hfirst : First {u | s.Due t u ∧ u.date.year ≤ s.firstYear t + 4} r := by
      refine hfirst.congr fun u => ?_
      constructor
      · rintro ⟨hu, -, hlast⟩
        exact ⟨(hcandidate u).mp hu, by omega⟩
      · rintro ⟨hu, hlast⟩
        have hu := (hcandidate u).mpr hu
        have hbefore := hu.notBefore
        unfold Time.MinuteLe at hbefore
        exact ⟨hu, by omega, by push_cast; omega⟩
    dsimp only
    rw [hr]
    cases r with
    | some u => exact .inl ⟨u, rfl, hfirst⟩
    | none =>
      refine .inr ⟨⟨_, rfl⟩, fun u hu => ?_⟩
      by_contra hlast
      exact eq_empty_iff_forall_notMem.mp hfirst u ⟨hu, by omega⟩

theorem isLeast_due {last : ℤ} (h : IsLeast {u | s.Due t u ∧ u.date.year ≤ last} u) :
    IsLeast {u | s.Due t u} u := by
  refine ⟨h.1.1, fun v hv => ?_⟩
  by_cases hlast : v.date.year ≤ last
  · exact h.2 ⟨hv, hlast⟩
  · refine (le_iff_of_aligned h.1.1.aligned).mpr (.inl ?_)
    have hu := h.1.2
    omega

/-- `find_next` returns the least time that is due, if one is within five calendar years, the
first of which is that of `t`, or the next one if the schedule is valid for `t` and `t` is in the
last minute of its year.  It throws if there is none. -/
theorem findNext_earliest (s : Schedule) (t : Time) (ht : t.OnClock) :
    (∀ u, s.findNext t = .ok u ↔ IsLeast {u | s.Due t u} u ∧ u.date.year ≤ s.firstYear t + 4) ∧
    ((∃ e, s.findNext t = .error e) ↔ ¬ ∃ u, s.Due t u ∧ u.date.year ≤ s.firstYear t + 4) := by
  obtain ⟨u, hu, hleast⟩ | ⟨⟨e, he⟩, hnone⟩ := findNext_spec (s := s) ht
  · rw [hu]
    refine ⟨fun v => ⟨?_, ?_⟩, ⟨?_, ?_⟩⟩
    · intro h
      cases h
      exact ⟨isLeast_due hleast, hleast.1.2⟩
    · rintro ⟨hv, -⟩
      rw [(isLeast_due hleast).unique hv]
    · rintro ⟨e, he⟩
      cases he
    · intro hnone
      exact absurd ⟨u, hleast.1⟩ hnone
  · rw [he]
    have hnot : ¬ ∃ u, s.Due t u ∧ u.date.year ≤ s.firstYear t + 4 := by
      rintro ⟨u, hu, hlast⟩
      have hlate := hnone u hu
      omega
    refine ⟨fun v => ⟨?_, ?_⟩, ⟨fun _ => hnot, fun _ => ⟨e, rfl⟩⟩⟩
    · intro h
      cases h
    · rintro ⟨hv, hlast⟩
      exact absurd ⟨v, hv.1, hlast⟩ hnot

/-- Noon, each day: the schedule is not valid for midnight, and noon is next. -/
theorem findNext_earliest_noon :
    let s : Schedule := ⟨⟨[0], false, by decide, by decide⟩, ⟨[12], false, by decide, by decide⟩,
      ⟨[], true, by decide, by decide⟩, ⟨[], true, by decide, by decide⟩,
      ⟨[], true, by decide, by decide⟩⟩
    let t : Time := ⟨⟨2024, 2, 29, by decide⟩, 0, 0, 0⟩
    t.OnClock ∧ ∀ u, s.findNext t = .ok u ↔
      IsLeast {u | s.Due t u} u ∧ u.date.year ≤ s.firstYear t + 4 :=
  ⟨⟨by decide, by decide, by decide, by decide⟩,
    (findNext_earliest _ _ ⟨by decide, by decide, by decide, by decide⟩).1⟩

/-- The last minute of a year that ends on a Saturday. -/
def saturdays : Schedule :=
  ⟨⟨[59], false, by decide, by decide⟩, ⟨[23], false, by decide, by decide⟩,
    ⟨[31], false, by decide, by decide⟩, ⟨[12], false, by decide, by decide⟩,
    ⟨[6], false, by decide, by decide⟩⟩

/-- Nothing is due up to the fourth year after `t`, and yet a time is found: the search starts
with the year behind `t`. -/
theorem findNext_saturdays :
    parse "59 23 31 12 6".toList = .ok saturdays ∧
      ∃ t : Time, t.OnClock ∧ (¬ ∃ u, saturdays.Due t u ∧ u.date.year ≤ t.date.year + 4) ∧
        ∃ u, saturdays.findNext t = .ok u := by
  have hclock : Time.OnClock ⟨⟨2011, 12, 31, by decide⟩, 23, 59, 0⟩ := by
    refine ⟨?_, ?_, ?_, ?_⟩ <;> decide
  refine ⟨by rfl, _, hclock, ?_, ?_⟩
  · rintro ⟨u, hu, hyear⟩
    obtain ⟨hmon, hdom, hdow, hhour, hmin⟩ := saturdays.isValidFor_iff.mp hu.valid
    have hlater := (lt_iff_of_aligned hu.aligned).mp hu.later
    simp only [saturdays, ScheduleItem.isValidFor, Bool.false_or, decide_eq_true_eq,
      List.mem_singleton] at hmon hdom hdow hhour hmin
    simp only [Time.MinuteLe, hmon, hdom, hhour, hmin, true_and] at hlater hyear
    simp only [Date.dayOfWeek, hmon, hdom] at hdow
    have hyears : u.date.year = 2012 ∨ u.date.year = 2013 ∨ u.date.year = 2014 ∨
        u.date.year = 2015 := by omega
    rcases hyears with h | h | h | h <;> rw [h] at hdow <;> exact absurd hdow (by decide)
  · obtain ⟨u, hu, -⟩ | ⟨-, hnone⟩ := findNext_spec (s := saturdays) hclock
    · exact ⟨u, hu⟩
    · refine absurd (hnone ⟨⟨2016, 12, 31, by decide⟩, 23, 59, 0⟩ ⟨rfl, ?_, rfl, ?_⟩) (by decide)
      · exact ⟨by decide, by decide, by decide, by decide⟩
      · refine (lt_iff_of_aligned ?_).mpr (by unfold Time.MinuteLe; decide)
        rfl

end Schedule

end Nscp.Cron
