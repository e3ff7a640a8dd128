/-!
# Calendar

The proleptic Gregorian calendar. A date is its distance in days from 1970-01-01, and dates reach
from the first day of the year -262143 to the last day of 262142.

Years are counted from March, so that a leap day ends its year: `dayNumber` is then one linear
formula, and `civilOf` undoes it by taking out centuries, leap cycles, years and months in turn.
-/

namespace GardenMap

/-- A date as year, month and day of the month. -/
structure Civil where
  year : Int
  month : Nat
  day : Nat
deriving DecidableEq

namespace Calendar

/-- Whether a year has a 29th of February. -/
def isLeap (year : Int) : Bool := year % 4 == 0 && (year % 100 != 0 || year % 400 == 0)

def monthLength (year : Int) (month : Nat) : Nat :=
  if month = 2 then if isLeap year then 29 else 28
  else if month = 4 || month = 6 || month = 9 || month = 11 then 30
  else 31

/-- The distance of a civil date from 1970-01-01, in days. -/
def dayNumber (c : Civil) : Int :=
  let year := if c.month ≤ 2 then c.year - 1 else c.year
  let month : Int := ((c.month + 9) % 12 : Nat)
  365 * year + year / 4 - year / 100 + year / 400 + (153 * month + 2) / 5 + c.day - 1 - 719468

/-- The civil date at a distance from 1970-01-01. -/
def civilOf (dayNumber : Int) : Civil :=
  let n := dayNumber + 719468
  let inCycle := n % 146097
  let century := min (inCycle / 36524) 3
  let inCentury := inCycle - 36524 * century
  let inLeapCycle := inCentury % 1461
  let year := min (inLeapCycle / 365) 3
  let inYear := inLeapCycle - 365 * year
  let month := (5 * inYear + 2) / 153
  let day := inYear - (153 * month + 2) / 5 + 1
  let fromMarch := 400 * (n / 146097) + 100 * century + 4 * (inCentury / 1461) + year
  if month < 10 then ⟨fromMarch, (month + 3).toNat, day.toNat⟩
  else ⟨fromMarch + 1, (month - 9).toNat, day.toNat⟩

def isValid (c : Civil) : Bool :=
  1 ≤ c.month && c.month ≤ 12 && 1 ≤ c.day && c.day ≤ monthLength c.year c.month

def firstDay : Int := -96465292

def lastDay : Int := 95026236

example : firstDay = dayNumber ⟨-262143, 1, 1⟩ := by decide

example : lastDay = dayNumber ⟨262142, 12, 31⟩ := by decide

def holdsDay (day : Int) : Bool := firstDay ≤ day && day ≤ lastDay

end Calendar

/-- A day of the calendar, as its distance from 1970-01-01. -/
structure Date where
  day : Int
  inCalendar : Calendar.holdsDay day = true
deriving DecidableEq

namespace Date

instance : Ord Date := ⟨fun a b => compare a.day b.day⟩

def ofDay? (day : Int) : Option Date :=
  if h : Calendar.holdsDay day = true then some ⟨day, h⟩ else none

def ofCivil? (c : Civil) : Option Date :=
  if Calendar.isValid c then ofDay? (Calendar.dayNumber c) else none

def civil (d : Date) : Civil := Calendar.civilOf d.day

end Date

end GardenMap
