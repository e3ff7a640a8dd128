import GardenMap.Text.Blank
import GardenMap.Time.Text

/-!
# Reading dates and instants

An instant is read in one of three forms, tried in order: the canonical form with an optional
fraction, the strict form with an explicit offset from UTC, and the form without a zone, taken as
UTC. The first and the last are lax: blanks may stand before a number, numbers may be short, and a
year may have a sign and then any number of digits.
-/

namespace GardenMap

namespace Time

/-- A step that takes a value off the front of a text. -/
abbrev Reader (α : Type) := StateT (List Char) Option α

def literal (c : Char) : Reader Unit := fun s =>
  match s with
  | d :: s => if d = c then some ((), s) else none
  | [] => none

/-- Take at least `least` and at most `most` digits. -/
def digits (least most : Nat) : Reader (List Char) := fun s =>
  let run := (s.take most).takeWhile Char.isDigit
  if run.length < least then none else some (run, s.drop run.length)

/-- Take a number of at least `least` and at most `most` digits. -/
def number (least most : Nat) : Reader Nat := do
  return Nat.ofDigitChars 10 (← digits least most) 0

def blanks : Reader Unit := fun s => some ((), Text.trimStart s)

/-- Take all the digits at the front, at least one. -/
def allDigits : Reader Nat := fun s => number 1 s.length s

/-- A number of one or two digits after optional blanks. -/
def lax : Reader Nat := do
  blanks
  number 1 2

/-- A year after optional blanks: up to four digits, or a sign and any number of digits. -/
def laxYear : Reader Int := do
  blanks
  fun s =>
    match s with
    | '-' :: s => (allDigits s).map fun (n, s) => (-(n : Int), s)
    | '+' :: s => (allDigits s).map fun (n, s) => ((n : Int), s)
    | s => (number 1 4 s).map fun (n, s) => ((n : Int), s)

/-- A fraction of a second, in nanoseconds: a point and digits, those past the ninth dropped. -/
def fraction : Reader Nat := fun s =>
  match s with
  | '.' :: s => do
    let (run, s) ← digits 1 9 s
    return (Nat.ofDigitChars 10 run 0 * Nat.pow 10 (9 - run.length), s.dropWhile Char.isDigit)
  | s => some (0, s)

/-- A day and a time of the day, before they are checked. -/
structure Fields where
  civil : Civil
  hour : Nat
  minute : Nat
  second : Nat
  nano : Nat

/-- The instant of a day and a time, `offset` seconds ahead of UTC. Second 60 is a leap second. -/
def Fields.instant? (f : Fields) (offset : Int) : Option Instant := do
  let date ← Date.ofCivil? f.civil
  if f.hour < 24 && f.minute < 60 && f.second ≤ 60 then
    let leap := f.second = 60
    let second : Int := f.hour * 3600 + f.minute * 60 + if leap then 59 else f.second
    Instant.ofParts? (date.day * Calendar.daySeconds + second - offset)
      (f.nano + if leap then Calendar.secondNanos else 0)
  else none

def laxCivil : Reader Civil := do
  let year ← laxYear
  literal '-'
  let month ← lax
  literal '-'
  let day ← lax
  return ⟨year, month, day⟩

def laxFields : Reader Fields := do
  let civil ← laxCivil
  literal 'T'
  let hour ← lax
  literal ':'
  let minute ← lax
  literal ':'
  let second ← lax
  let nano ← fraction
  return ⟨civil, hour, minute, second, nano⟩

/-- The sign of an offset: minus may also be the mathematical sign. -/
def offsetSign : Reader Int := fun s =>
  match s with
  | '+' :: s => some (1, s)
  | '-' :: s => some (-1, s)
  | '\u2212' :: s => some (-1, s)
  | _ => none

/-- An offset from UTC in seconds, below a day: `Z`, or sign, hours and minutes. -/
def offset : Reader Int := fun s =>
  match s with
  | 'Z' :: s => some (0, s)
  | 'z' :: s => some (0, s)
  | s => read s
where
  /-- An offset that is written out. -/
  read : Reader Int := do
    let sign ← offsetSign
    let hours ← number 2 2
    literal ':'
    let minutes ← number 2 2
    if hours < 24 && minutes < 60 then return sign * (hours * 3600 + minutes * 60) else failure

def strictSeparator : Reader Unit := fun s =>
  match s with
  | c :: s => if c = 'T' || c = 't' || c = ' ' then some ((), s) else none
  | [] => none

/-- The strict form of a day and time with an offset from UTC. -/
def strictFields : Reader (Fields × Int) := do
  let year ← number 4 4
  literal '-'
  let month ← number 2 2
  literal '-'
  let day ← number 2 2
  strictSeparator
  let hour ← number 2 2
  literal ':'
  let minute ← number 2 2
  literal ':'
  let second ← number 2 2
  let nano ← fraction
  let ahead ← offset
  return (⟨⟨year, month, day⟩, hour, minute, second, nano⟩, ahead)

def whole {α : Type} (r : Reader α) (s : List Char) : Option α :=
  match r s with
  | some (a, []) => some a
  | _ => none

/-- The canonical form, lax. -/
def canonical? (s : List Char) : Option Instant := do
  let fields ← whole (do let f ← laxFields; literal 'Z'; return f) s
  fields.instant? 0

/-- The strict form with an offset. -/
def strict? (s : List Char) : Option Instant := do
  let (fields, ahead) ← whole strictFields s
  fields.instant? ahead

/-- The lax form without a zone. -/
def zoneless? (s : List Char) : Option Instant := do
  let fields ← whole laxFields s
  fields.instant? 0

end Time

/-- The instant that a text spells, blanks at the ends aside. -/
def Instant.read? (s : List Char) : Option Instant :=
  let s := Text.trim s
  Time.canonical? s <|> Time.strict? s <|> Time.zoneless? s

/-- The date that a text spells, blanks at the ends aside: a day, or the day of an instant. -/
def Date.read? (s : List Char) : Option Date :=
  let s := Text.trim s
  ((Time.whole Time.laxCivil s).bind Date.ofCivil?) <|> (Instant.read? s).map Instant.date

end GardenMap
