import IMServer.Base.CheckedInt
import IMServer.Base.Gregorian

/-!
# Dates

`server/src/Date.cc` and `Date.h`. A date is a Julian day number, computed from the year, month and
day by truncating divisions on `int` and computed back in the same way; a computation that
overflows is `none`.

For every day of the proleptic Gregorian calendar from the year -4799 to the year 1000000 nothing
overflows, the day comes back, and the numbers go up by one from day to day.
-/

namespace IMServer.Time

open IMServer.Base
open IMServer.Base.Gregorian

/-- `getJulianDayNumber`, `Date.cc:8–14`. -/
def getJulianDayNumber (year month day : Int) : Option Int := do
  let a ← div32 (← sub32 14 month) 12
  let y ← sub32 (← add32 year 4800) a
  let m ← sub32 (← add32 month (← mul32 12 a)) 3
  let days ← add32 day (← div32 (← add32 (← mul32 153 m) 2) 5)
  let days ← add32 days (← mul32 y 365)
  let days ← add32 days (← div32 y 4)
  let days ← sub32 days (← div32 y 100)
  let days ← add32 days (← div32 y 400)
  sub32 days 32045

/-- `getYearMonthDay`, `Date.cc:17–30`. -/
def getYearMonthDay (julianDayNumber : Int) : Option Day := do
  let a ← add32 julianDayNumber 32044
  let b ← div32 (← add32 (← mul32 4 a) 3) 146097
  let c ← sub32 a (← div32 (← mul32 b 146097) 4)
  let d ← div32 (← add32 (← mul32 4 c) 3) 1461
  let e ← sub32 c (← div32 (← mul32 1461 d) 4)
  let m ← div32 (← add32 (← mul32 5 e) 2) 153
  let day ← add32 (← sub32 e (← div32 (← add32 (← mul32 153 m) 2) 5)) 1
  let month ← sub32 (← add32 m 3) (← mul32 12 (← div32 m 10))
  let year ← add32 (← sub32 (← add32 (← mul32 b 100) d) 4800) (← div32 m 10)
  return ⟨year, month, day⟩

/-- `Date`, `Date.h:13–90`. -/
structure Date where
  julianDayNumber : Int

namespace Date

/-- `Date(int, int, int)`, `Date.cc:37–40`. -/
def ofYearMonthDay (year month day : Int) : Option Date :=
  (getJulianDayNumber year month day).map Date.mk

/-- `yearMonthDay`, `Date.cc:74–77`. -/
def yearMonthDay (x : Date) : Option Day := getYearMonthDay x.julianDayNumber

/-- `weekDay`, `Date.h:81–84`; the remainder has the sign of the dividend. -/
def weekDay (x : Date) : Option Int := do
  mod32 (← add32 x.julianDayNumber 1) 7

/-- `operator<`, `Date.h:95–98`. -/
def lt (x y : Date) : Bool := x.julianDayNumber < y.julianDayNumber

/-- `operator==`, `Date.h:100–103`. -/
def eq (x y : Date) : Bool := x.julianDayNumber = y.julianDayNumber

end Date

section Conversion

/-- An operation that does not overflow is carried out. -/
private theorem bind_of_eq {α β : Type} {x : Option α} {a : α} (h : x = some a)
    (f : α → Option β) : (x >>= f) = f a := by
  rw [h]
  rfl

/-- The formula of `getJulianDayNumber` without overflow. -/
theorem getJulianDayNumber_of {year month day a y m : Int} (hmonth : 1 ≤ month ∧ month ≤ 12)
    (hday : 1 ≤ day ∧ day ≤ 31) (ha : (14 - month) / 12 = a) (hy : year + 4800 - a = y)
    (hm : month + 12 * a - 3 = m) (hyr : 0 ≤ y ∧ y ≤ 1004801) :
    getJulianDayNumber year month day =
      some (day + monthStart m + daysBefore y - 32045) := by
  have hstart : 0 ≤ monthStart m ∧ monthStart m ≤ 340 := by
    unfold monthStart
    omega
  unfold getJulianDayNumber
  rw [bind_of_eq (sub32_eq (by omega) (by omega)),
    bind_of_eq (div32_eq (by omega) (by omega) (by decide)), ha,
    bind_of_eq (add32_eq (by omega) (by omega)), bind_of_eq (sub32_eq (by omega) (by omega)), hy,
    bind_of_eq (mul32_eq (by omega) (by omega)), bind_of_eq (add32_eq (by omega) (by omega)),
    bind_of_eq (sub32_eq (by omega) (by omega)), hm,
    bind_of_eq (mul32_eq (by omega) (by omega)), bind_of_eq (add32_eq (by omega) (by omega)),
    bind_of_eq (div32_eq (by omega) (by omega) (by decide)), ← monthStart,
    bind_of_eq (add32_eq (by omega) (by omega)), bind_of_eq (mul32_eq (by omega) (by omega)),
    bind_of_eq (add32_eq (by omega) (by omega)),
    bind_of_eq (div32_eq (by omega) (by omega) (by decide)),
    bind_of_eq (add32_eq (by omega) (by omega)),
    bind_of_eq (div32_eq (by omega) (by omega) (by decide)),
    bind_of_eq (sub32_eq (by omega) (by omega)),
    bind_of_eq (div32_eq (by omega) (by omega) (by decide)),
    bind_of_eq (add32_eq (by omega) (by omega)), sub32_eq (by omega) (by omega), daysBefore]
  exact congrArg some (by omega)

/-- The count of days by centuries. -/
theorem daysBefore_century (y : Int) :
    4 * daysBefore y = 146097 * (y / 100) - y / 100 % 4 + 4 * (365 * (y % 100) + y % 100 / 4) := by
  unfold daysBefore
  omega

/-- The last day of a leap year, within its century. -/
theorem leap_century {y : Int} (h : IsLeap (y + 1)) :
    y % 100 % 4 = 3 ∧ (y % 100 = 99 → y / 100 % 4 = 3) := by
  unfold IsLeap at h
  omega

/-- The century of a day, from the count of days. -/
theorem century_eq {y n : Int} (hn : 0 ≤ n) (hleap : n < 365 + leapDay (y + 1)) :
    (4 * (daysBefore y + n) + 3) / 146097 = y / 100 := by
  have hcount := daysBefore_century y
  have hlast : n < 365 ∨ n = 365 ∧ y % 100 % 4 = 3 ∧ (y % 100 = 99 → y / 100 % 4 = 3) :=
    (lt_or_isLeap hleap).imp_right fun h => ⟨h.1, leap_century h.2⟩
  -- 36524 days and the leap day of the fourth century
  have hrest : 0 ≤ 365 * (y % 100) + y % 100 / 4 + n ∧
      4 * (365 * (y % 100) + y % 100 / 4 + n) - y / 100 % 4 < 146094 := by
    omega
  omega

/-- The days of a century before a day. -/
theorem century_rest (y n : Int) :
    daysBefore y + n - y / 100 * 146097 / 4 = 365 * (y % 100) + y % 100 / 4 + n := by
  unfold daysBefore
  omega

/-- The year of the century, from the days before. -/
theorem yearOfCentury_eq {y n : Int} (hn : 0 ≤ n) (hleap : n < 365 + leapDay (y + 1)) :
    (4 * (365 * (y % 100) + y % 100 / 4 + n) + 3) / 1461 = y % 100 := by
  have hday := lt_or_isLeap hleap
  unfold IsLeap at hday
  omega

/-- The month of a day, from the number of the day in the year. -/
theorem month_eq {m n : Int} (hn : monthStart m ≤ n) (hn' : n < monthStart (m + 1)) :
    (5 * n + 2) / 153 = m := by
  unfold monthStart at hn hn'
  omega

/-- The formulas of `getYearMonthDay` without overflow: the century, the year of the century, the
month and the day are found one after the other. -/
theorem getYearMonthDay_of {y m n : Int} (hy : 0 ≤ y ∧ y ≤ 1004801) (hm : 0 ≤ m ∧ m ≤ 11)
    (hn : monthStart m ≤ n) (hn' : n < monthStart (m + 1)) (hleap : n < 365 + leapDay (y + 1)) :
    getYearMonthDay (daysBefore y + n - 32044) =
      some ⟨y - 4800 + m / 10, m + 3 - 12 * (m / 10), n - monthStart m + 1⟩ := by
  have hstart : 0 ≤ monthStart m ∧ monthStart m ≤ 340 := by
    unfold monthStart
    omega
  have hlast := (leapDay_bounds (y + 1)).2
  have hdays : 0 ≤ daysBefore y ∧ daysBefore y ≤ 366999999 := by
    unfold daysBefore
    omega
  have hrest : 365 * (y % 100) + y % 100 / 4 + n - 1461 * (y % 100) / 4 = n := by omega
  unfold getYearMonthDay
  rw [bind_of_eq (add32_eq (by omega) (by omega)), Int.sub_add_cancel,
    bind_of_eq (mul32_eq (by omega) (by omega)), bind_of_eq (add32_eq (by omega) (by omega)),
    bind_of_eq (div32_eq (by omega) (by omega) (by decide)), century_eq (by omega) hleap,
    bind_of_eq (mul32_eq (by omega) (by omega)),
    bind_of_eq (div32_eq (by omega) (by omega) (by decide)),
    bind_of_eq (sub32_eq (by omega) (by omega)), century_rest,
    bind_of_eq (mul32_eq (by omega) (by omega)), bind_of_eq (add32_eq (by omega) (by omega)),
    bind_of_eq (div32_eq (by omega) (by omega) (by decide)), yearOfCentury_eq (by omega) hleap,
    bind_of_eq (mul32_eq (by omega) (by omega)),
    bind_of_eq (div32_eq (by omega) (by omega) (by decide)),
    bind_of_eq (sub32_eq (by omega) (by omega)), hrest,
    bind_of_eq (mul32_eq (by omega) (by omega)), bind_of_eq (add32_eq (by omega) (by omega)),
    bind_of_eq (div32_eq (by omega) (by omega) (by decide)), month_eq hn hn',
    bind_of_eq (mul32_eq (by omega) (by omega)), bind_of_eq (add32_eq (by omega) (by omega)),
    bind_of_eq (div32_eq (by omega) (by omega) (by decide)), ← monthStart,
    bind_of_eq (sub32_eq (by omega) (by omega)), bind_of_eq (add32_eq (by omega) (by omega)),
    bind_of_eq (add32_eq (by omega) (by omega)),
    bind_of_eq (div32_eq (by omega) (by omega) (by decide)),
    bind_of_eq (mul32_eq (by omega) (by omega)), bind_of_eq (sub32_eq (by omega) (by omega)),
    bind_of_eq (mul32_eq (by omega) (by omega)), bind_of_eq (add32_eq (by omega) (by omega)),
    bind_of_eq (sub32_eq (by omega) (by omega)),
    bind_of_eq (div32_eq (by omega) (by omega) (by decide)),
    bind_of_eq (add32_eq (by omega) (by omega))]
  refine congrArg some (Day.ext ?_ rfl rfl)
  dsimp only
  omega

variable {d : Day}

/-- The Julian day number is the count of days from another beginning. -/
theorem getJulianDayNumber_eq (h : d.Valid) (hlo : -4799 ≤ d.year) (hhi : d.year ≤ 1000001) :
    getJulianDayNumber d.year d.month d.day = some (d.count + 1721120) := by
  obtain ⟨hm, hm', hd, hd'⟩ := h
  have hlen := (monthLength_bounds d.year d.month).2
  have hyear : 0 ≤ d.marchYear + 4800 ∧ d.marchYear + 4800 ≤ 1004801 := by
    unfold Day.marchYear
    split <;> omega
  rw [getJulianDayNumber_of (a := if d.month ≤ 2 then 1 else 0) (y := d.marchYear + 4800)
    (m := d.marchMonth) ⟨hm, hm'⟩ ⟨hd, by omega⟩ (by split <;> omega)
    (by unfold Day.marchYear; split <;> omega) (by unfold Day.marchMonth; split <;> omega) hyear,
    Day.count, Day.marchDay, daysBefore, daysBefore]
  exact congrArg some (by omega)

/-- The day comes back from its number. -/
theorem getYearMonthDay_count (h : d.Valid) (hlo : -4799 ≤ d.year) (hhi : d.year ≤ 1000000) :
    getYearMonthDay (d.count + 1721120) = some d := by
  obtain ⟨hm, hm', hn, hn', hleap⟩ := Day.marchDay_bounds h
  have hyear : 0 ≤ d.marchYear + 4800 ∧ d.marchYear + 4800 ≤ 1004801 := by
    unfold Day.marchYear
    split <;> omega
  have hleap' : leapDay (d.marchYear + 1) = leapDay (d.marchYear + 4800 + 1) := by
    have hiff : IsLeap (d.marchYear + 1) ↔ IsLeap (d.marchYear + 4800 + 1) := by
      unfold IsLeap
      omega
    simp only [leapDay, hiff]
  have hcount : d.count + 1721120 = daysBefore (d.marchYear + 4800) + d.marchDay - 32044 := by
    unfold Day.count daysBefore
    omega
  rw [hcount, getYearMonthDay_of hyear ⟨hm, hm'⟩ hn hn' (hleap' ▸ hleap)]
  obtain ⟨hmonth, hmonth', -⟩ := h
  refine congrArg some (Day.ext ?_ ?_ ?_)
  · dsimp only [Day.marchYear, Day.marchMonth]
    split <;> omega
  · dsimp only [Day.marchMonth]
    split <;> omega
  · dsimp only [Day.marchDay]
    omega

private theorem ofYearMonthDay_eq (h : d.Valid) (hlo : -4799 ≤ d.year) (hhi : d.year ≤ 1000001) :
    Date.ofYearMonthDay d.year d.month d.day = some ⟨d.count + 1721120⟩ := by
  rw [Date.ofYearMonthDay, getJulianDayNumber_eq h hlo hhi, Option.map_some]

private theorem weekDay_eq {j : Int} (hlo : -2 ^ 31 ≤ j) (hhi : j < 2 ^ 31 - 1) :
    Date.weekDay ⟨j⟩ = some ((j + 1).tmod 7) := by
  unfold Date.weekDay
  dsimp only
  rw [bind_of_eq (add32_eq (by omega) (by omega)),
    mod32_eq (by omega) (by omega) (by decide)]

/-- C remainders go up by one modulo 7 too, whatever their sign. -/
theorem tmod_succ (x : Int) : (x + 1).tmod 7 % 7 = (x.tmod 7 + 1) % 7 := by
  have hx := Int.tmod_add_mul_tdiv x 7
  have hx' := Int.tmod_add_mul_tdiv (x + 1) 7
  omega

/-- The numbers of the days that are looked at are far from the ends of `int`. -/
theorem count_bounds (h : d.Valid) (hlo : -4799 ≤ d.year) (hhi : d.year ≤ 1000001) :
    -1753164 ≤ d.count ∧ d.count ≤ 366999999 := by
  obtain ⟨-, -, hn, -, hleap⟩ := Day.marchDay_bounds h
  have hlast := (leapDay_bounds (d.marchYear + 1)).2
  have hstart : 0 ≤ monthStart d.marchMonth := by
    obtain ⟨hm, -⟩ := Day.marchDay_bounds h
    unfold monthStart
    omega
  have hyear : -4800 ≤ d.marchYear ∧ d.marchYear ≤ 1000001 := by
    unfold Day.marchYear
    split <;> omega
  unfold Day.count
  unfold daysBefore at *
  omega

/-- Every day from the year -4799 to the year 1000000 is converted without overflow and comes back;
the next day has the next number and the next day of the week; and numbers are ordered as days. -/
theorem calendar_conversion (h : d.Valid) (hlo : -4799 ≤ d.year) (hhi : d.year ≤ 1000000) :
    ∃ x : Date, Date.ofYearMonthDay d.year d.month d.day = some x ∧ x.yearMonthDay = some d ∧
      (∃ x' w w', Date.ofYearMonthDay d.next.year d.next.month d.next.day = some x' ∧
        x'.julianDayNumber = x.julianDayNumber + 1 ∧
        x.weekDay = some w ∧ x'.weekDay = some w' ∧ w' % 7 = (w + 1) % 7) ∧
      ∀ e : Day, e.Valid → -4799 ≤ e.year → e.year ≤ 1000000 →
        ∃ y : Date, Date.ofYearMonthDay e.year e.month e.day = some y ∧
          (x.lt y = true ↔ d.Before e) ∧ (x.eq y = true ↔ d = e) := by
  have hnext : d.next.year = d.year ∨ d.next.year = d.year + 1 := by
    unfold Day.next
    split
    · exact .inl rfl
    · split
      · exact .inl rfl
      · exact .inr rfl
  have hbounds := count_bounds h hlo (by omega)
  refine ⟨⟨d.count + 1721120⟩, ofYearMonthDay_eq h hlo (by omega), getYearMonthDay_count h hlo hhi,
    ⟨⟨d.next.count + 1721120⟩, (d.count + 1721120 + 1).tmod 7, (d.count + 1721120 + 1 + 1).tmod 7,
      ofYearMonthDay_eq (Day.valid_next h) (by omega) (by omega), ?_,
      weekDay_eq (by omega) (by omega), ?_, tmod_succ _⟩, fun e he helo hehi =>
    ⟨⟨e.count + 1721120⟩, ofYearMonthDay_eq he helo (by omega), ?_, ?_⟩⟩
  · dsimp only
    rw [Day.count_next h]
    omega
  · rw [Day.count_next h, show d.count + 1 + 1721120 = d.count + 1721120 + 1 by omega,
      weekDay_eq (by omega) (by omega)]
  · rw [Date.lt, decide_eq_true_iff, ← Day.count_lt_iff h he]
    dsimp only
    omega
  · rw [Date.eq, decide_eq_true_iff, ← Day.count_eq_iff h he]
    dsimp only
    omega

/-- The leap day of the year 2000. -/
theorem calendar_conversion_leapDay :
    ∃ x : Date, Date.ofYearMonthDay 2000 2 29 = some x ∧ x.yearMonthDay = some ⟨2000, 2, 29⟩ := by
  obtain ⟨x, hx, hback, -⟩ := calendar_conversion (d := ⟨2000, 2, 29⟩) (by decide) (by decide)
    (by decide)
  exact ⟨x, hx, hback⟩

end Conversion

end IMServer.Time
