import GardenMap.Time.Instant

/-!
# Units of time

A year is 365 days. Years, weeks and days are calendar units.
-/

namespace GardenMap

/-- A unit of time. -/
inductive TimeUnit where
  | year
  | week
  | day
  | hour
  | minute
  | second
deriving DecidableEq

namespace TimeUnit

def name : TimeUnit → String
  | year => "year"
  | week => "week"
  | day => "day"
  | hour => "hour"
  | minute => "minute"
  | second => "second"

def all : List TimeUnit := [year, week, day, hour, minute, second]

def singular (word : List Char) : List Char :=
  if word.getLast? = some 's' then word.dropLast else word

/-- The unit that a word names, in the singular or the plural. -/
def ofWord? (word : List Char) : Option TimeUnit :=
  all.find? fun u => u.name.toList == singular word

def isCalendar : TimeUnit → Bool
  | year | week | day => true
  | _ => false

def seconds : TimeUnit → Int
  | year => 365 * 86400
  | week => 7 * 86400
  | day => 86400
  | hour => 3600
  | minute => 60
  | second => 1

def times? (u : TimeUnit) (n : Int) : Option Span := Span.ofSeconds? (n * u.seconds)

end TimeUnit

end GardenMap
