import GardenMap.Time.Calendar

/-!
# Instants and spans

An instant is a second of the calendar with nanoseconds. A leap second is the second before it with
`nano` from `10 ^ 9` on, so instants are ordered by second, then nanosecond. Clocks have leap seconds
at the end of a minute only, but an instant may be one after any second. A span is a whole number of
seconds.
-/

namespace GardenMap

namespace Calendar

def daySeconds : Int := 86400

def secondNanos : Nat := 1000000000

/-- Whether a second, counted from 1970-01-01T00:00:00Z, and nanoseconds are an instant: the day
lies in the calendar, and a leap second takes no longer than another one. -/
def holdsInstant (second : Int) (nano : Nat) : Bool :=
  holdsDay (second / daySeconds) && nano < 2 * secondNanos

end Calendar

/-- A length of time in whole seconds. -/
structure Span where
  seconds : Int
deriving DecidableEq

namespace Span

/-- The greatest number of seconds that a span holds: its milliseconds fit 64 bits. -/
def most : Int := 9223372036854775

def ofSeconds? (n : Int) : Option Span := if -most ≤ n && n ≤ most then some ⟨n⟩ else none

def zero : Span := ⟨0⟩

end Span

/-- A point in time. -/
structure Instant where
  second : Int
  nano : Nat
  inCalendar : Calendar.holdsInstant second nano = true
deriving DecidableEq

namespace Instant

open Calendar

instance : Ord Instant :=
  ⟨fun a b => (compare a.second b.second).then (compare a.nano b.nano)⟩

def ofParts? (second : Int) (nano : Nat) : Option Instant :=
  if h : holdsInstant second nano = true then some ⟨second, nano, h⟩ else none

/-- The instant a number of milliseconds after 1970-01-01T00:00:00Z. -/
def ofMillis? (millis : Int) : Option Instant :=
  ofParts? (millis / 1000) ((millis % 1000).toNat * 1000000)

def date (t : Instant) : Date :=
  ⟨t.second / daySeconds, by
    have h := t.inCalendar
    simp only [holdsInstant, Bool.and_eq_true] at h
    exact h.1⟩

def secondOfDay (t : Instant) : Nat := (t.second % daySeconds).toNat

/-- Whether an instant is a leap second. -/
def isLeap (t : Instant) : Bool := secondNanos ≤ t.nano

/-- A clock shows the instant: a leap second ends its minute. -/
def OnClock (t : Instant) : Prop := t.isLeap = true → t.second % 60 = 59

instance (t : Instant) : Decidable t.OnClock := inferInstanceAs (Decidable (_ → _))

def subsecond (t : Instant) : Nat := t.nano % secondNanos

def ofDate (d : Date) : Instant :=
  ⟨d.day * daySeconds, 0, by
    have h : d.day * daySeconds / daySeconds = d.day :=
      Int.mul_ediv_cancel _ (by decide)
    simp only [holdsInstant, h, d.inCalendar, Bool.true_and]
    decide⟩

/-- The instant a span later, if the calendar has one. A leap second counts as the second before it
on the way forward, and as the second after it on the way back. -/
def add? (t : Instant) (d : Span) : Option Instant :=
  if t.isLeap && d.seconds != 0 then
    ofParts? (t.second + d.seconds + if 0 < d.seconds then 0 else 1) t.subsecond
  else ofParts? (t.second + d.seconds) t.nano

/-- The instant a span earlier, if the calendar has one. -/
def sub? (t : Instant) (d : Span) : Option Instant := t.add? ⟨-d.seconds⟩

/-- The full days from one instant to a later one, cut towards zero. A leap second is counted
between two times of day when it lies between them. -/
def daysSince (later earlier : Instant) : Int :=
  let a := later.secondOfDay
  let b := earlier.secondOfDay
  let leap : Int :=
    if b < a && earlier.isLeap then 1 else if a < b && later.isLeap then -1 else 0
  let seconds := (later.date.day - earlier.date.day) * daySeconds + a - b + leap
  let nanos : Int := (later.nano : Int) - earlier.nano
  (seconds * secondNanos + nanos).tdiv (daySeconds * secondNanos)

end Instant

end GardenMap
