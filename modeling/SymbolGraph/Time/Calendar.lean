/-! Dates of the Gregorian calendar, extended to all years, and their numbers of days. -/

namespace SymbolGraph.Time

/-- A date by year, month and day of the month, the latter two counted from 1. -/
structure Date where
  year : Int
  month : Nat
  day : Nat
  deriving Repr, BEq, DecidableEq

/-- Whether February has 29 days in the year. -/
def isLeapYear (year : Int) : Bool := (year % 4 == 0 && year % 100 != 0) || year % 400 == 0

/-- The number of days of the month. -/
def daysInMonth (year : Int) (month : Nat) : Nat :=
  if month = 2 then (if isLeapYear year then 29 else 28)
  else if [4, 6, 9, 11].contains month then 30
  else 31

/-- Whether the calendar has the date. -/
def Date.isValid (d : Date) : Bool :=
  1 ≤ d.month && d.month ≤ 12 && 1 ≤ d.day && d.day ≤ daysInMonth d.year d.month

/-- The days before the first of the month in a year that starts with March. -/
def daysBefore (marchMonth : Int) : Int := (153 * marchMonth + 2) / 5

/-- The number of days from 1 March of the year 0 to the date. -/
def Date.toDays (d : Date) : Int :=
  let year := if d.month ≤ 2 then d.year - 1 else d.year
  let marchMonth : Int := if d.month ≤ 2 then d.month + 9 else d.month - 3
  365 * year + year / 4 - year / 100 + year / 400 + daysBefore marchMonth + d.day - 1

/-- The date so many days after 1 March of the year 0. Four hundred years have 146097 days. -/
def Date.ofDays (days : Int) : Date :=
  let era := days / 146097
  let inEra := days % 146097
  let yearInEra := (inEra - inEra / 1460 + inEra / 36524 - inEra / 146096) / 365
  let inYear := inEra - (365 * yearInEra + yearInEra / 4 - yearInEra / 100)
  let marchMonth := (5 * inYear + 2) / 153
  let day := inYear - daysBefore marchMonth + 1
  let month := if marchMonth < 10 then marchMonth + 3 else marchMonth - 9
  let year := yearInEra + 400 * era + (if month ≤ 2 then 1 else 0)
  ⟨year, month.toNat, day.toNat⟩

end SymbolGraph.Time
