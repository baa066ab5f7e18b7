/-!
# The calendar

Dates of the Gregorian calendar, extended to all years before and after, and their numbers: the days
from the first of January 1970. A year is counted from March, so that the leap day is its last day
and the months before it have a regular length; 400 such years have the same number of days always.

* `TopDown.Calendar.dayNumber` is the number of a date.
* `TopDown.Calendar.ofDayNumber` is the date of a number.
-/

namespace TopDown.Calendar

/-- A date: a year, a month from 1 to 12, and a day from 1. -/
structure Date where
  /-- The year; the year before year 1 is year 0. -/
  year : Int
  /-- The month, from 1. -/
  month : Nat
  /-- The day of the month, from 1. -/
  day : Nat
  deriving DecidableEq, Repr

/-- The year has a leap day. -/
def isLeapYear (year : Int) : Bool :=
  year % 4 == 0 && (year % 100 != 0 || year % 400 == 0)

/-- The days of a month. -/
def daysOfMonth (year : Int) (month : Nat) : Nat :=
  if month = 2 then if isLeapYear year then 29 else 28
  else if month = 4 || month = 6 || month = 9 || month = 11 then 30
  else 31

/-- The month and the day exist. -/
def Date.isValid (d : Date) : Bool :=
  1 ≤ d.month && d.month ≤ 12 && 1 ≤ d.day && d.day ≤ daysOfMonth d.year d.month

/-- The days of four hundred years. -/
def daysOfEra : Int := 146097

/-- The days from the first of March of year 0 to the first of January 1970. -/
def epochOffset : Int := 719468

/-- The days from the first of January 1970 to a date, negative before it. -/
def dayNumber (d : Date) : Int :=
  let year := if d.month ≤ 2 then d.year - 1 else d.year
  let era := year / 400
  let yearOfEra := year % 400
  let month : Int := if d.month ≤ 2 then d.month + 9 else d.month - 3
  let dayOfYear := (153 * month + 2) / 5 + d.day - 1
  era * daysOfEra + (yearOfEra * 365 + yearOfEra / 4 - yearOfEra / 100 + dayOfYear) - epochOffset

/-- The date that lies the given number of days after the first of January 1970. -/
def ofDayNumber (n : Int) : Date :=
  let shifted := n + epochOffset
  let era := shifted / daysOfEra
  let dayOfEra := shifted % daysOfEra
  let yearOfEra := (dayOfEra - dayOfEra / 1460 + dayOfEra / 36524 - dayOfEra / 146096) / 365
  let dayOfYear := dayOfEra - (365 * yearOfEra + yearOfEra / 4 - yearOfEra / 100)
  let month := (5 * dayOfYear + 2) / 153
  let day := dayOfYear - (153 * month + 2) / 5 + 1
  let month := if month < 10 then month + 3 else month - 9
  let year := yearOfEra + era * 400
  { year := if month ≤ 2 then year + 1 else year
    month := month.toNat
    day := day.toNat }

end TopDown.Calendar
