import IMServer.Base.FixedWidth
import IMServer.Base.Gregorian

/-!
# Times as text

`server/src/Timestamp.cc:8–39`: a time from 1970 on as calendar date and time of day. From 1970 to
the end of the year 9999 the text has 24 bytes, as `Logger::Impl::Impl` asserts (`Logging.cc:120`),
or 17 without the microseconds, and texts are in the order of the times.
-/

namespace IMServer.Time

open IMServer.Base IMServer.Base.Gregorian

/-- `struct tm`, with the year and the month as the calendar counts them. -/
structure Tm where
  date : Day
  hour : Nat
  min : Nat
  sec : Nat

/-- The day that comes this many days after 1 January 1970. -/
def dayAfter (days : Nat) : Day := Day.next^[days] ⟨1970, 1, 1⟩

/-- `gmtime_r`. -/
def gmtime (seconds : Nat) : Tm where
  date := dayAfter (seconds / 86400)
  hour := seconds % 86400 / 3600
  min := seconds % 3600 / 60
  sec := seconds % 60

/-- `Timestamp.h:72–75`, for times that are not before 1970. -/
structure Timestamp where
  microSecondsSinceEpoch : Nat

def kMicroSecondsPerSecond : Nat := 1000 * 1000

namespace Timestamp

def secondsSinceEpoch (t : Timestamp) : Nat := t.microSecondsSinceEpoch / kMicroSecondsPerSecond

/-- `Timestamp.cc:8–15`. -/
def toString (t : Timestamp) : List UInt8 :=
  numeral (t.microSecondsSinceEpoch / kMicroSecondsPerSecond) ++ bytesOf "." ++
    padded 48 6 (t.microSecondsSinceEpoch % kMicroSecondsPerSecond)

/-- `Timestamp.cc:17–39`. -/
def toFormattedString (t : Timestamp) (showMicroseconds : Bool := true) : List UInt8 :=
  let tm := gmtime t.secondsSinceEpoch
  padded 32 4 tm.date.year.toNat ++ padded 48 2 tm.date.month.toNat ++
    padded 48 2 tm.date.day.toNat ++ bytesOf " " ++ padded 48 2 tm.hour ++ bytesOf ":" ++
    padded 48 2 tm.min ++ bytesOf ":" ++ padded 48 2 tm.sec ++
    if showMicroseconds then
      bytesOf "." ++ padded 48 6 (t.microSecondsSinceEpoch % kMicroSecondsPerSecond)
    else []

end Timestamp

/-! ### Days since 1970 -/

private theorem dayAfter_spec (days : Nat) :
    (dayAfter days).Valid ∧ (dayAfter days).count = (⟨1970, 1, 1⟩ : Day).count + days := by
  induction days with
  | zero => decide
  | succ days ih =>
    rw [dayAfter, Function.iterate_succ_apply']
    refine ⟨Day.valid_next ih.1, ?_⟩
    have := Day.count_next ih.1
    rw [dayAfter] at this ih
    omega

private theorem before_dayAfter_iff (m n : Nat) : (dayAfter m).Before (dayAfter n) ↔ m < n := by
  have hm := dayAfter_spec m
  have hn := dayAfter_spec n
  rw [← Day.count_lt_iff hm.1 hn.1, hm.2, hn.2]
  omega

private theorem dayAfter_inj {m n : Nat} (h : dayAfter m = dayAfter n) : m = n := by
  have hm := (dayAfter_spec m).2
  have hn := (dayAfter_spec n).2
  rw [h] at hm
  omega

/-- The days from 1970 to the end of 9999. -/
def lastDay : Nat := 2932897

/-- The year has four digits, and month and day have two. -/
theorem dayAfter_bounds {days : Nat} (h : days < lastDay) :
    1970 ≤ (dayAfter days).year ∧ (dayAfter days).year < 10000 ∧ 1 ≤ (dayAfter days).month ∧
      (dayAfter days).month ≤ 12 ∧ 1 ≤ (dayAfter days).day ∧ (dayAfter days).day ≤ 31 := by
  obtain ⟨hvalid, hcount⟩ := dayAfter_spec days
  have hfirst : ¬ (dayAfter days).Before ⟨1970, 1, 1⟩ := by
    rw [← Day.count_lt_iff hvalid (by decide)]
    omega
  have hlast : (dayAfter days).Before ⟨10000, 1, 1⟩ := by
    rw [← Day.count_lt_iff hvalid (by decide), hcount]
    have hend : (⟨10000, 1, 1⟩ : Day).count = (⟨1970, 1, 1⟩ : Day).count + lastDay := by decide
    omega
  have hlength := monthLength_bounds (dayAfter days).year (dayAfter days).month
  obtain ⟨hmonth, hmonth', hday, hday'⟩ := hvalid
  simp only [Day.Before] at hfirst hlast
  omega

/-- Two dates with something after them are compared by the dates first. -/
theorem date_cons_lt_iff {m n : Nat} (hm : m < lastDay) (hn : n < lastDay) {ms ns : List Nat} :
    (dayAfter m).year.toNat :: (dayAfter m).month.toNat :: (dayAfter m).day.toNat :: ms <
        (dayAfter n).year.toNat :: (dayAfter n).month.toNat :: (dayAfter n).day.toNat :: ns ↔
      m < n ∨ m = n ∧ ms < ns := by
  have hbefore := before_dayAfter_iff m n
  have hafter := before_dayAfter_iff n m
  have hb := dayAfter_bounds hm
  have hb' := dayAfter_bounds hn
  simp only [List.cons_lt_cons_iff]
  by_cases heq : m = n
  · subst heq
    simp
  · have hne : ¬ dayAfter m = dayAfter n := fun h => heq (dayAfter_inj h)
    simp only [Day.Before, Day.ext_iff] at hbefore hafter hne
    simp only [heq, false_and, or_false]
    omega

/-! ### The texts -/

/-- The fields of a formatted time. -/
def timeFields (showMicroseconds : Bool) : List (Nat × List UInt8) :=
  [(4, []), (2, []), (2, bytesOf " "), (2, bytesOf ":"), (2, bytesOf ":")] ++
    if showMicroseconds then [(2, bytesOf "."), (6, [])] else [(2, [])]

namespace Timestamp

/-- The numbers in a formatted time. -/
def numbers (t : Timestamp) (showMicroseconds : Bool) : List Nat :=
  let tm := gmtime t.secondsSinceEpoch
  [tm.date.year.toNat, tm.date.month.toNat, tm.date.day.toNat, tm.hour, tm.min, tm.sec] ++
    if showMicroseconds then [t.microSecondsSinceEpoch % kMicroSecondsPerSecond] else []

/-- Times before the year 10000. -/
def InRange (t : Timestamp) : Prop := t.secondsSinceEpoch / 86400 < lastDay
  deriving Decidable

variable {t u : Timestamp}

private theorem fitsFields_numbers (h : t.InRange) (showMicroseconds : Bool) :
    FitsFields (timeFields showMicroseconds) (t.numbers showMicroseconds) := by
  obtain ⟨hyear, hyear', hmonth, hmonth', hday, hday'⟩ := dayAfter_bounds h
  cases showMicroseconds <;>
    simp only [timeFields, numbers, FitsFields, gmtime, List.cons_append, List.nil_append,
      Bool.false_eq_true, if_false, if_true, and_true, kMicroSecondsPerSecond] <;>
    omega

/-- The format is that of the fields. -/
theorem toFormattedString_eq (h : t.InRange) (showMicroseconds : Bool) :
    t.toFormattedString showMicroseconds =
      fieldText (timeFields showMicroseconds) (t.numbers showMicroseconds) := by
  obtain ⟨hyear, hyear', hmonth, hmonth', hday, hday'⟩ := dayAfter_bounds h
  have hy := @padded_of_width 32 3 (gmtime t.secondsSinceEpoch).date.year.toNat
    (by simp only [gmtime]; omega) (by simp only [gmtime]; omega)
  have hm := @padded_zero 1 (gmtime t.secondsSinceEpoch).date.month.toNat
    (by simp only [gmtime]; omega)
  have hd := @padded_zero 1 (gmtime t.secondsSinceEpoch).date.day.toNat
    (by simp only [gmtime]; omega)
  have hhour := @padded_zero 1 (gmtime t.secondsSinceEpoch).hour (by simp only [gmtime]; omega)
  have hmin := @padded_zero 1 (gmtime t.secondsSinceEpoch).min (by simp only [gmtime]; omega)
  have hsec := @padded_zero 1 (gmtime t.secondsSinceEpoch).sec (by simp only [gmtime]; omega)
  have hmicro := @padded_zero 5 (t.microSecondsSinceEpoch % kMicroSecondsPerSecond)
    (Nat.mod_lt _ (by decide))
  rw [toFormattedString, hy, hm, hd, hhour, hmin, hsec, hmicro]
  cases showMicroseconds <;>
    simp [timeFields, numbers, fieldText]

/-- The numbers are in the order of the times. -/
theorem numbers_lt_iff (ht : t.InRange) (hu : u.InRange) :
    (t.numbers true < u.numbers true ↔ t.microSecondsSinceEpoch < u.microSecondsSinceEpoch) ∧
      (t.numbers false < u.numbers false ↔ t.secondsSinceEpoch < u.secondsSinceEpoch) := by
  have hdiv := Nat.div_add_mod t.microSecondsSinceEpoch kMicroSecondsPerSecond
  have hdiv' := Nat.div_add_mod u.microSecondsSinceEpoch kMicroSecondsPerSecond
  have hlt := Nat.mod_lt t.microSecondsSinceEpoch (show 0 < kMicroSecondsPerSecond by decide)
  have hlt' := Nat.mod_lt u.microSecondsSinceEpoch (show 0 < kMicroSecondsPerSecond by decide)
  simp only [numbers, gmtime, List.cons_append, List.nil_append, Bool.false_eq_true, if_false,
    if_true]
  rw [date_cons_lt_iff ht hu, date_cons_lt_iff ht hu]
  simp only [List.cons_lt_cons_iff, List.lt_irrefl, and_false, or_false]
  simp only [secondsSinceEpoch, kMicroSecondsPerSecond] at *
  omega

/-- The seconds and the microseconds are read off the text. -/
theorem toString_inj (h : t.toString = u.toString) :
    t.microSecondsSinceEpoch = u.microSecondsSinceEpoch := by
  have hlt := fun n => Nat.mod_lt n (show 0 < kMicroSecondsPerSecond by decide)
  rw [toString, toString, padded_zero (hlt _), padded_zero (hlt _)] at h
  obtain ⟨hsec, hmicro⟩ := List.append_inj' h (by simp)
  have hs := congrArg readDigits (List.append_inj' hsec rfl).1
  rw [readDigits_numeral, readDigits_numeral] at hs
  have hm := fixedDigits_inj (hlt _) (hlt _) hmicro
  rw [← Nat.div_add_mod t.microSecondsSinceEpoch kMicroSecondsPerSecond, hs, hm]
  exact Nat.div_add_mod ..

/-- From 1970 to the end of the year 9999 formatted times have 24 bytes, or 17 without the
microseconds, and the order of the bytes is the order of the times, or of their seconds. The other
text determines the time as well. -/
theorem formatted_times_in_order (ht : t.InRange) (hu : u.InRange) :
    t.toFormattedString.length = 24 ∧ (t.toFormattedString false).length = 17 ∧
      (t.toFormattedString < u.toFormattedString ↔
        t.microSecondsSinceEpoch < u.microSecondsSinceEpoch) ∧
      (t.toFormattedString false < u.toFormattedString false ↔
        t.secondsSinceEpoch < u.secondsSinceEpoch) ∧
      (t.toString = u.toString → t.microSecondsSinceEpoch = u.microSecondsSinceEpoch) := by
  have hfits := fitsFields_numbers ht
  have hfits' := fitsFields_numbers hu
  obtain ⟨hmicro, hsec⟩ := numbers_lt_iff ht hu
  refine ⟨?_, ?_, ?_, ?_, toString_inj⟩
  · rw [toFormattedString_eq ht, length_fieldText (hfits true)]
    rfl
  · rw [toFormattedString_eq ht, length_fieldText (hfits false)]
    rfl
  · rw [toFormattedString_eq ht, toFormattedString_eq hu, fieldText_lt_iff (hfits true)
      (hfits' true), hmicro]
  · rw [toFormattedString_eq ht, toFormattedString_eq hu, fieldText_lt_iff (hfits false)
      (hfits' false), hsec]

/-- The last microsecond of a day and the first one of the next. -/
theorem formatted_midnight_in_order :
    (⟨86399999999⟩ : Timestamp).toFormattedString = bytesOf "19700101 23:59:59.999999" ∧
      (⟨86400000000⟩ : Timestamp).toFormattedString = bytesOf "19700102 00:00:00.000000" ∧
      (⟨86399999999⟩ : Timestamp).toFormattedString <
        (⟨86400000000⟩ : Timestamp).toFormattedString :=
  ⟨by decide, by decide, (formatted_times_in_order (t := ⟨86399999999⟩) (u := ⟨86400000000⟩)
    (by decide) (by decide)).2.2.1.mpr (by decide)⟩

end Timestamp

end IMServer.Time
