/-
Module: Containment.Time.Calendar
Purpose: The proleptic Gregorian calendar. Days are counted from 1 January 1970; a date has an
  astronomical year (year 0 and negative years exist).
Main exports: Date, Date.toDays, Date.ofDays, Date.isValid, monthLength
-/

namespace Containment.Time

/-- A day of the calendar. -/
structure Date where
  year : Int
  month : Nat
  day : Nat
deriving Repr, DecidableEq, Inhabited

/-- Leap years: every fourth, except centuries that are not multiples of 400. -/
def isLeapYear (year : Int) : Bool :=
  year % 4 == 0 && (year % 100 != 0 || year % 400 == 0)

/-- The number of days of a month. -/
def monthLength (year : Int) (month : Nat) : Nat :=
  match month with
  | 2 => if isLeapYear year then 29 else 28
  | 4 | 6 | 9 | 11 => 30
  | _ => 31

namespace Date

/-- The first year of the supported range. -/
def minYear : Int := -262143

/-- The last year of the supported range. -/
def maxYear : Int := 262142

/-- Whether year, month and day name a day of the supported range. -/
def isValid (date : Date) : Bool :=
  minYear ≤ date.year && date.year ≤ maxYear && 1 ≤ date.month && date.month ≤ 12 &&
    1 ≤ date.day && date.day ≤ monthLength date.year date.month

/-- Days since 1 January 1970. Years are counted from March, so that a leap day ends its year; 400
years have 146097 days. -/
def toDays (date : Date) : Int :=
  let year := if date.month ≤ 2 then date.year - 1 else date.year
  let era := year / 400
  let yearOfEra := year % 400
  let monthFromMarch : Int := ((date.month + 9) % 12 : Nat)
  let dayOfYear := (153 * monthFromMarch + 2) / 5 + date.day - 1
  let dayOfEra := yearOfEra * 365 + yearOfEra / 4 - yearOfEra / 100 + dayOfYear
  era * 146097 + dayOfEra - 719468

/-- The date of a day number. -/
def ofDays (days : Int) : Date :=
  let shifted := days + 719468
  let era := shifted / 146097
  let dayOfEra := (shifted % 146097).toNat
  let yearOfEra := (dayOfEra - dayOfEra / 1460 + dayOfEra / 36524 - dayOfEra / 146096) / 365
  let dayOfYear := dayOfEra - (365 * yearOfEra + yearOfEra / 4 - yearOfEra / 100)
  let monthFromMarch := (5 * dayOfYear + 2) / 153
  let day := dayOfYear - (153 * monthFromMarch + 2) / 5 + 1
  let month := if monthFromMarch < 10 then monthFromMarch + 3 else monthFromMarch - 9
  let year := era * 400 + yearOfEra
  { year := if month ≤ 2 then year + 1 else year, month := month, day := day }

end Date

/-- The first day of the supported range. -/
def minDay : Int := Date.toDays { year := Date.minYear, month := 1, day := 1 }

/-- The last day of the supported range. -/
def maxDay : Int := Date.toDays { year := Date.maxYear, month := 12, day := 31 }

end Containment.Time
