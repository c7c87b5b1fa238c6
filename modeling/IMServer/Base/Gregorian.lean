import Mathlib.Algebra.Order.Ring.Int

/-!
# The Gregorian calendar

Library: days of the proleptic Gregorian calendar, their successor and their order, and the number
of days since 1 March of the year 0. Years are counted from March, so that the leap day is the last
day of its year; the months then start at days that follow a linear rule.
-/

namespace IMServer.Base.Gregorian

def IsLeap (year : Int) : Prop := year % 4 = 0 ∧ (year % 100 ≠ 0 ∨ year % 400 = 0)

instance (year : Int) : Decidable (IsLeap year) := inferInstanceAs (Decidable (_ ∧ _))

/-- The number of leap days of a year. -/
def leapDay (year : Int) : Int := if IsLeap year then 1 else 0

/-- There is at most one leap day. -/
theorem leapDay_bounds (year : Int) : 0 ≤ leapDay year ∧ leapDay year ≤ 1 := by
  unfold leapDay
  split <;> decide

/-- A day number of a year is below 365, or it is the leap day. -/
theorem lt_or_isLeap {n year : Int} (h : n < 365 + leapDay year) :
    n < 365 ∨ n = 365 ∧ IsLeap year := by
  unfold leapDay at h
  split at h
  · next hleap =>
    by_cases hn : n < 365
    · exact .inl hn
    · exact .inr ⟨by omega, hleap⟩
  · exact .inl (by omega)

def monthLength (year month : Int) : Int :=
  if month = 2 then 28 + leapDay year
  else if month = 4 ∨ month = 6 ∨ month = 9 ∨ month = 11 then 30
  else 31

/-- A month has up to 31 days. -/
theorem monthLength_bounds (year month : Int) :
    1 ≤ monthLength year month ∧ monthLength year month ≤ 31 := by
  have hleap := leapDay_bounds year
  unfold monthLength
  split
  · omega
  · split <;> omega

@[ext]
structure Day where
  year : Int
  month : Int
  day : Int
  deriving DecidableEq

namespace Day

/-- A day that the calendar has. -/
def Valid (d : Day) : Prop :=
  1 ≤ d.month ∧ d.month ≤ 12 ∧ 1 ≤ d.day ∧ d.day ≤ monthLength d.year d.month

instance (d : Day) : Decidable d.Valid := inferInstanceAs (Decidable (_ ∧ _))

/-- The following day. -/
def next (d : Day) : Day :=
  if d.day < monthLength d.year d.month then ⟨d.year, d.month, d.day + 1⟩
  else if d.month < 12 then ⟨d.year, d.month + 1, 1⟩
  else ⟨d.year + 1, 1, 1⟩

/-- The order of the calendar. -/
def Before (d e : Day) : Prop :=
  d.year < e.year ∨ d.year = e.year ∧ (d.month < e.month ∨ d.month = e.month ∧ d.day < e.day)

private theorem before_or_eq_or_before (d e : Day) : d.Before e ∨ d = e ∨ e.Before d := by
  simp only [Before, Day.ext_iff]
  omega

/-! ### Counting days -/

/-- The year from March on. -/
def marchYear (d : Day) : Int := if d.month ≤ 2 then d.year - 1 else d.year

/-- The month of that year, from 0 for March to 11 for February. -/
def marchMonth (d : Day) : Int := if d.month ≤ 2 then d.month + 9 else d.month - 3

end Day

/-- The days of a year before its month `m`. -/
def monthStart (m : Int) : Int := (153 * m + 2) / 5

/-- The days before a year. -/
def daysBefore (y : Int) : Int := 365 * y + y / 4 - y / 100 + y / 400

/-- A year from March on has a leap day when the calendar year in which it ends has. -/
theorem daysBefore_succ (y : Int) :
    daysBefore (y + 1) = daysBefore y + 365 + leapDay (y + 1) := by
  unfold daysBefore leapDay
  by_cases h : IsLeap (y + 1)
  · rw [if_pos h]
    unfold IsLeap at h
    omega
  · rw [if_neg h]
    unfold IsLeap at h
    omega

private theorem daysBefore_mono {y z : Int} (h : y ≤ z) : daysBefore y ≤ daysBefore z := by
  unfold daysBefore
  omega

namespace Day

/-- The number of the day in its year, from 0 for 1 March. -/
def marchDay (d : Day) : Int := monthStart d.marchMonth + d.day - 1

/-- The days since 1 March of the year 0. -/
def count (d : Day) : Int := daysBefore d.marchYear + d.marchDay

variable {d e : Day}

private theorem month_cases (h : d.Valid) :
    d.month = 1 ∨ d.month = 2 ∨ d.month = 3 ∨ d.month = 4 ∨
      d.month = 5 ∨ d.month = 6 ∨ d.month = 7 ∨ d.month = 8 ∨ d.month = 9 ∨ d.month = 10 ∨
    d.month = 11 ∨ d.month = 12 := by
  obtain ⟨hm, hm', -⟩ := h
  omega

/-- The day numbers of a month lie between its start and the start of the next one, and February
ends with the year. -/
theorem marchDay_bounds (h : d.Valid) :
    0 ≤ d.marchMonth ∧ d.marchMonth ≤ 11 ∧ monthStart d.marchMonth ≤ d.marchDay ∧
    d.marchDay < monthStart (d.marchMonth + 1) ∧
    d.marchDay < 365 + leapDay (d.marchYear + 1) := by
  have hmonth := month_cases h
  obtain ⟨year, month, day⟩ := d
  obtain ⟨-, -, hd, hd'⟩ := h
  have hleap := leapDay_bounds year
  have hleap' := leapDay_bounds (year + 1)
  simp only [marchMonth, marchYear, marchDay, monthStart, monthLength] at *
  rcases hmonth with rfl | rfl | rfl | rfl | rfl | rfl | rfl | rfl | rfl | rfl | rfl | rfl <;>
    simp at hd' ⊢ <;> omega

/-- The count goes up by one with each day. -/
theorem count_next (h : d.Valid) : d.next.count = d.count + 1 := by
  have hmonth := month_cases h
  obtain ⟨year, month, day⟩ := d
  obtain ⟨-, -, hd, hd'⟩ := h
  have hstep := daysBefore_succ (year - 1)
  rw [Int.sub_add_cancel] at hstep
  unfold next
  split
  · simp only [count, marchYear, marchMonth, marchDay]
    omega
  · next hlast =>
    simp only [monthLength] at hlast hd'
    rcases hmonth with rfl | rfl | rfl | rfl | rfl | rfl | rfl | rfl | rfl | rfl | rfl | rfl <;>
      simp [count, marchYear, marchMonth, marchDay, monthStart] at hlast hd' ⊢ <;> omega

/-- The day after a date is a date. -/
theorem valid_next (h : d.Valid) : d.next.Valid := by
  obtain ⟨hm, hm', hd, hd'⟩ := h
  unfold next
  split
  · next hlt => exact ⟨hm, hm', Int.le_add_one hd, Int.add_one_le_of_lt hlt⟩
  · split
    · next hlt =>
      exact ⟨Int.le_add_one hm, Int.add_one_le_of_lt hlt, Int.le_refl 1, (monthLength_bounds _ _).1⟩
    · exact ⟨Int.le_refl 1, show (1 : Int) ≤ 12 by decide, Int.le_refl 1,
        (monthLength_bounds _ _).1⟩

/-- A day of an earlier month of the same year comes earlier in it. -/
theorem count_lt_of_before (hd : d.Valid) (he : e.Valid) (h : d.Before e) : d.count < e.count := by
  obtain ⟨hdm, hdm', hdd, hdd', hdy⟩ := marchDay_bounds hd
  obtain ⟨hem, hem', hed, hed', hey⟩ := marchDay_bounds he
  have hyear : d.marchYear < e.marchYear ∨ d.marchYear = e.marchYear ∧
      (d.marchMonth < e.marchMonth ∨ d.marchMonth = e.marchMonth ∧ d.day < e.day) := by
    obtain ⟨hm, hm', -⟩ := hd
    obtain ⟨hn, hn', -⟩ := he
    simp only [Before] at h
    unfold marchYear marchMonth
    split <;> split <;> omega
  unfold count
  rcases hyear with hyear | ⟨hyear, hmonth | ⟨hmonth, hday⟩⟩
  · have hstep := daysBefore_succ d.marchYear
    have hmono := daysBefore_mono (Int.add_one_le_of_lt hyear)
    have hstart : 0 ≤ monthStart e.marchMonth := by
      unfold monthStart
      omega
    omega
  · have hstart : monthStart (d.marchMonth + 1) ≤ monthStart e.marchMonth := by
      unfold monthStart
      omega
    rw [hyear]
    omega
  · rw [hyear, marchDay, marchDay, hmonth]
    omega

/-- The count is the order of the calendar. -/
theorem count_lt_iff (hd : d.Valid) (he : e.Valid) : d.count < e.count ↔ d.Before e := by
  constructor
  · intro hlt
    rcases before_or_eq_or_before d e with h | rfl | h
    · exact h
    · exact absurd hlt (Int.lt_irrefl _)
    · exact absurd (count_lt_of_before he hd h) (Int.not_lt.mpr (Int.le_of_lt hlt))
  · exact count_lt_of_before hd he

/-- Dates are told apart by their count. -/
theorem count_eq_iff (hd : d.Valid) (he : e.Valid) : d.count = e.count ↔ d = e := by
  constructor
  · intro heq
    rcases before_or_eq_or_before d e with h | h | h
    · exact absurd (count_lt_of_before hd he h) (by omega)
    · exact h
    · exact absurd (count_lt_of_before he hd h) (by omega)
  · exact congrArg count

end Day

end IMServer.Base.Gregorian
