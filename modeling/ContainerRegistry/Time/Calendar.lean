/-
# Days and dates of the Gregorian calendar

Days are counted from 1 January 1970. A year is taken to begin in March, so
that the leap day ends it, and 400 years are one era of 146097 days.

Key definitions: `Calendar.Date`, `Calendar.toDay`, `Calendar.ofDay`.
-/

namespace ContainerRegistry
namespace Calendar

/-- A date; months and days count from one. -/
structure Date where
  year : Int
  month : Nat
  day : Nat
  deriving DecidableEq, Repr

/-- Whether a year has a leap day. -/
def isLeap (year : Int) : Bool :=
  year % 4 == 0 && (year % 100 != 0 || year % 400 == 0)

/-- The number of days in a month. -/
def daysIn (year : Int) (month : Nat) : Nat :=
  if month = 2 then (if isLeap year then 29 else 28)
  else if month = 4 ∨ month = 6 ∨ month = 9 ∨ month = 11 then 30
  else 31

/-- Whether the calendar has this date. -/
def Date.isValid (date : Date) : Bool :=
  1 ≤ date.month && date.month ≤ 12 && 1 ≤ date.day && date.day ≤ daysIn date.year date.month

/-- The number of the day at a date. -/
def toDay (date : Date) : Int :=
  let year := if date.month ≤ 2 then date.year - 1 else date.year
  let era := Int.fdiv year 400
  let yearOfEra := year - era * 400
  let month := if date.month ≤ 2 then date.month + 9 else date.month - 3
  let dayOfYear : Int := ((153 * month + 2) / 5 + date.day - 1 : Nat)
  let dayOfEra := yearOfEra * 365 + Int.fdiv yearOfEra 4 - Int.fdiv yearOfEra 100 + dayOfYear
  era * 146097 + dayOfEra - 719468

/-- The date of a day. -/
def ofDay (day : Int) : Date :=
  let shifted := day + 719468
  let era := Int.fdiv shifted 146097
  let dayOfEra := (shifted - era * 146097).toNat
  let yearOfEra := (dayOfEra - dayOfEra / 1460 + dayOfEra / 36524 - dayOfEra / 146096) / 365
  let dayOfYear := dayOfEra - (365 * yearOfEra + yearOfEra / 4 - yearOfEra / 100)
  let month := (5 * dayOfYear + 2) / 153
  let day := dayOfYear - (153 * month + 2) / 5 + 1
  let civilMonth := if month < 10 then month + 3 else month - 9
  let year := (yearOfEra : Int) + era * 400
  ⟨if civilMonth ≤ 2 then year + 1 else year, civilMonth, day⟩

example : toDay ⟨1970, 1, 1⟩ = 0 := by decide
example : toDay ⟨2024, 2, 29⟩ = 19782 := by decide
example : ofDay 19782 = ⟨2024, 2, 29⟩ := by decide
example : ofDay (-1) = ⟨1969, 12, 31⟩ := by decide

end Calendar
end ContainerRegistry
