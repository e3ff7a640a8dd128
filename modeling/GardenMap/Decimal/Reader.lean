import GardenMap.Decimal.Binary

/-!
# Reading decimal numbers

The grammar is `[+-]? (digits [. digits*] | . digits) ([eE] [+-]? digits)?`. `readFloat` also
takes `inf`, `infinity` and `nan` in any case.
-/

namespace GardenMap.Decimal

/-- The digits at the start of a text, and the rest. -/
def spanDigits (s : List Char) : List Char × List Char :=
  (s.takeWhile Char.isDigit, s.dropWhile Char.isDigit)

def value (digits : List Char) : Nat := Nat.ofDigitChars 10 digits 0

/-- An optional sign, as "is negative", and the rest. -/
def spanSign : List Char → Bool × List Char
  | '-' :: s => (true, s)
  | '+' :: s => (false, s)
  | s => (false, s)

/-- A decimal number as written: `± digits * 10 ^ exponent`. -/
structure Numeral where
  negative : Bool
  digits : Nat
  exponent : Int

def Numeral.toFloat (n : Numeral) : Float := ofScaled n.negative n.digits n.exponent

/-- An exponent part, or `0` when there is none, and the rest. -/
def spanExponent (s : List Char) : Int × List Char :=
  match s with
  | [] => (0, s)
  | e :: t =>
    if e = 'e' || e = 'E' then
      let (negative, t) := spanSign t
      let (digits, rest) := spanDigits t
      if digits.isEmpty then (0, s)
      else (if negative then -(value digits : Int) else value digits, rest)
    else (0, s)

/-- The longest numeral at the start of a text that has no sign, and the rest. -/
def spanUnsigned? (negative : Bool) (s : List Char) : Option (Numeral × List Char) :=
  let (whole, afterWhole) := spanDigits s
  let (fraction, rest) :=
    match afterWhole with
    | '.' :: t => spanDigits t
    | t => ([], t)
  if whole.isEmpty && fraction.isEmpty then none
  else
    let (exponent, rest) := spanExponent rest
    some (⟨negative, value (whole ++ fraction), exponent - fraction.length⟩, rest)

/-- The longest numeral at the start of a text, and the rest. -/
def spanNumeral? (s : List Char) : Option (Numeral × List Char) :=
  let (negative, s) := spanSign s
  spanUnsigned? negative s

def readFloat (s : List Char) : Option Float :=
  match spanNumeral? s with
  | some (n, []) => some n.toFloat
  | some _ => none
  | none =>
    let (negative, s) := spanSign s
    let word := String.ofList (s.map Char.toLower)
    if word = "inf" || word = "infinity" then some (if negative then -(1.0 / 0.0) else 1.0 / 0.0)
    else if word = "nan" then some (0.0 / 0.0)
    else none

/-- The least whole number that fits 64 bits with sign. -/
def minInt : Int := -9223372036854775808

/-- The greatest whole number that fits 64 bits with sign. -/
def maxInt : Int := 9223372036854775807

/-- The greatest whole number that fits 64 bits without sign. -/
def maxNat : Int := 18446744073709551615

/-- Whether a whole number fits 64 bits with sign. -/
def fitsInt (i : Int) : Bool := minInt ≤ i && i ≤ maxInt

/-- Whether a whole number fits 64 bits, with or without sign. -/
def fitsWord (i : Int) : Bool := minInt ≤ i && i ≤ maxNat

/-- The whole number, 64 bits with sign, that a whole text spells. -/
def readInt (s : List Char) : Option Int :=
  let (negative, s) := spanSign s
  if s.isEmpty || !s.all Char.isDigit then none
  else
    let i : Int := if negative then -(value s : Int) else value s
    if fitsInt i then some i else none

end GardenMap.Decimal
