import GardenMap.Time.Instant

/-!
# Canonical texts of dates and instants

A date is `YYYY-MM-DD`, an instant `YYYY-MM-DDThh:mm:ss.fffZ`, cut to milliseconds. A leap second
shows as second 60. A year outside 0 to 9999 has a sign and at least four digits.
-/

namespace GardenMap

namespace Calendar

/-- The digits of a number, filled up with zeros in front. -/
def padded (width n : Nat) : List Char :=
  let digits := Nat.toDigits 10 n
  List.replicate (width - digits.length) '0' ++ digits

def yearText (year : Int) : List Char :=
  if 0 ≤ year && year ≤ 9999 then padded 4 year.toNat
  else (if year < 0 then '-' else '+') :: padded 4 year.natAbs

end Calendar

open Calendar

def Date.chars (d : Date) : List Char :=
  let c := d.civil
  yearText c.year ++ '-' :: padded 2 c.month ++ '-' :: padded 2 c.day

def Date.text (d : Date) : String := String.ofList d.chars

/-- The text of the time of day of an instant, as characters. -/
def Instant.clockChars (t : Instant) : List Char :=
  let s := t.secondOfDay
  padded 2 (s / 3600) ++ ':' :: padded 2 (s / 60 % 60) ++
    ':' :: padded 2 (s % 60 + if t.isLeap then 1 else 0) ++
    '.' :: padded 3 (t.subsecond / 1000000)

def Instant.chars (t : Instant) : List Char := t.date.chars ++ 'T' :: t.clockChars ++ ['Z']

def Instant.text (t : Instant) : String := String.ofList t.chars

end GardenMap
