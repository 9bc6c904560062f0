import Mathlib.Data.List.Basic
import Mathlib.Tactic.Common

/-!
# The Gregorian calendar

Day counts and dates, wall-clock readings in microseconds, and their fields.
Years are counted from the first of March here, so that a leap day is the last
day of its year; four hundred such years always have 146097 days.  The fields
of a reading determine the reading.
-/

namespace DyeIsLife.Time

/-! ## Years and months -/

/-- The days before a year of a cycle of four hundred years. -/
def daysBefore (year : Nat) : Nat :=
  36524 * (year / 100) + 1461 * (year % 100 / 4) + 365 * (year % 4)

/-- The year of a cycle that a day belongs to. -/
def yearOf (dayOfEra : Nat) : Nat :=
  let century := min (dayOfEra / 36524) 3
  let dayOfCentury := dayOfEra - 36524 * century
  100 * century + 4 * (dayOfCentury / 1461) + min (dayOfCentury % 1461 / 365) 3

theorem yearOf_lt {dayOfEra : Nat} (inside : dayOfEra < 146097) : yearOf dayOfEra < 400 := by
  simp only [yearOf]
  omega

theorem daysBefore_eq (century : Nat) {quad year : Nat} (quadInside : quad < 25)
    (yearInside : year < 4) :
    daysBefore (100 * century + 4 * quad + year) = 36524 * century + 1461 * quad + 365 * year := by
  have sameCentury : (100 * century + 4 * quad + year) / 100 = century := by omega
  have sameQuad : (100 * century + 4 * quad + year) % 100 / 4 = quad := by omega
  have sameYear : (100 * century + 4 * quad + year) % 4 = year := by omega
  rw [daysBefore, sameCentury, sameQuad, sameYear]

theorem daysBefore_yearOf_le {dayOfEra : Nat} (inside : dayOfEra < 146097) :
    daysBefore (yearOf dayOfEra) ≤ dayOfEra ∧
      dayOfEra ≤ daysBefore (yearOf dayOfEra) + 365 := by
  simp only [yearOf]
  rw [daysBefore_eq _ (by omega) (by omega)]
  omega

/-- The days before a month, with March as month zero. -/
def daysBeforeMonth (month : Nat) : Nat :=
  (153 * month + 2) / 5

/-- The month, from March on, that a day of the year belongs to. -/
def monthOf (dayOfYear : Nat) : Nat :=
  (5 * dayOfYear + 2) / 153

theorem monthOf_lt {dayOfYear : Nat} (inside : dayOfYear ≤ 365) : monthOf dayOfYear < 12 := by
  unfold monthOf
  omega

theorem daysBeforeMonth_monthOf_le (dayOfYear : Nat) :
    daysBeforeMonth (monthOf dayOfYear) ≤ dayOfYear := by
  unfold daysBeforeMonth monthOf
  omega

/-! ## Dates -/

structure Date where
  year : Int
  month : Nat
  day : Nat
  deriving DecidableEq

namespace Date

/-- The date of a day, counted from 1 January 1970. -/
def ofDays (days : Int) : Date :=
  let era := (days + 719468) / 146097
  let dayOfEra := ((days + 719468) % 146097).toNat
  let year := yearOf dayOfEra
  let dayOfYear := dayOfEra - daysBefore year
  let month := monthOf dayOfYear
  { year := 400 * era + year + (if 10 ≤ month then 1 else 0)
    month := if 10 ≤ month then month - 9 else month + 3
    day := dayOfYear - daysBeforeMonth month + 1 }

/-- The day count of a date. -/
def toDays (date : Date) : Int :=
  let month := (date.month + 9) % 12
  let year := date.year - (if 10 ≤ month then 1 else 0)
  146097 * (year / 400) + daysBefore (year % 400).toNat + daysBeforeMonth month + date.day - 719469

/-- The day count of a date given by its cycle, year and month from March on. -/
theorem toDays_of_cycle (era : Int) {year month : Nat} (day : Nat) (yearInside : year < 400)
    (monthInside : month < 12) :
    toDays ⟨400 * era + year + (if 10 ≤ month then 1 else 0),
      if 10 ≤ month then month - 9 else month + 3, day⟩ =
      146097 * era + daysBefore year + daysBeforeMonth month + day - 719469 := by
  have sameMonth : ((if 10 ≤ month then month - 9 else month + 3) + 9) % 12 = month := by
    split <;> omega
  have sameEra : (400 * era + (year : Int)) / 400 = era := by omega
  have sameYear : ((400 * era + (year : Int)) % 400).toNat = year := by omega
  simp only [toDays, sameMonth, Int.add_sub_cancel, sameEra, sameYear]

theorem toDays_ofDays (days : Int) : (ofDays days).toDays = days := by
  have inside : ((days + 719468) % 146097).toNat < 146097 := by omega
  have yearDays := daysBefore_yearOf_le inside
  have monthDays := daysBeforeMonth_monthOf_le
    (((days + 719468) % 146097).toNat - daysBefore (yearOf ((days + 719468) % 146097).toNat))
  have monthInside : monthOf (((days + 719468) % 146097).toNat -
      daysBefore (yearOf ((days + 719468) % 146097).toNat)) < 12 := monthOf_lt (by omega)
  rw [ofDays, toDays_of_cycle _ _ (yearOf_lt inside) monthInside]
  omega

end Date

example : Date.ofDays 18378 = ⟨2020, 4, 26⟩ := by decide

example : (Date.ofDays 11016, Date.ofDays (-1)) = (⟨2000, 2, 29⟩, ⟨1969, 12, 31⟩) := by decide

/-! ## Wall clocks -/

/-- The fields of a wall-clock reading. -/
structure WallClock where
  date : Date
  hour : Nat
  minute : Nat
  second : Nat
  millisecond : Nat
  microsecond : Nat
  deriving DecidableEq

namespace WallClock

/-- The fields of a reading in microseconds, counted from midnight on
1 January 1970 of the same clock. -/
def ofMicroseconds (reading : Int) : WallClock :=
  let sinceMidnight := (reading % 86400000000).toNat
  { date := .ofDays (reading / 86400000000)
    hour := sinceMidnight / 3600000000
    minute := sinceMidnight / 60000000 % 60
    second := sinceMidnight / 1000000 % 60
    millisecond := sinceMidnight / 1000 % 1000
    microsecond := sinceMidnight % 1000 }

def toMicroseconds (clock : WallClock) : Int :=
  86400000000 * clock.date.toDays + 3600000000 * clock.hour + 60000000 * clock.minute +
    1000000 * clock.second + 1000 * clock.millisecond + clock.microsecond

theorem toMicroseconds_ofMicroseconds (reading : Int) :
    (ofMicroseconds reading).toMicroseconds = reading := by
  simp only [ofMicroseconds, toMicroseconds, Date.toDays_ofDays]
  omega

/-- The fields determine the reading. -/
theorem ofMicroseconds_injective {first second : Int}
    (same : ofMicroseconds first = ofMicroseconds second) : first = second := by
  rw [← toMicroseconds_ofMicroseconds first, same, toMicroseconds_ofMicroseconds]

theorem millisecond_ofMicroseconds_lt (reading : Int) :
    (ofMicroseconds reading).millisecond < 1000 :=
  Nat.mod_lt _ (by decide)

end WallClock

end DyeIsLife.Time
