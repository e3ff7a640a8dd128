/-!
# Binary floating point

A finite `Float` is a whole number times a power of two. `split` takes it apart exactly, and
`nearest` builds the `Float` next to a quotient of whole numbers, ties to the even neighbour, so
that everything between the two is exact integer arithmetic.
-/

namespace GardenMap.Decimal

/-- What a `Float` stands for. -/
inductive Parts where
  /-- No number. -/
  | nan
  /-- An infinity, with its sign. -/
  | infinite (negative : Bool)
  /-- The number `± significand * 2 ^ exponent`. -/
  | finite (negative : Bool) (significand : Nat) (exponent : Int)

def split (x : Float) : Parts :=
  let bits := x.toBits.toNat
  let negative := decide (Nat.pow 2 63 ≤ bits)
  let biased : Nat := bits / Nat.pow 2 52 % Nat.pow 2 11
  let fraction : Nat := bits % Nat.pow 2 52
  if biased = 2047 then if fraction = 0 then .infinite negative else .nan
  else if biased = 0 then .finite negative fraction (-1074)
  else .finite negative (fraction + Nat.pow 2 52) ((biased : Int) - 1075)

/-- Whether a `Float` is a number and no infinity. -/
def isFinite (x : Float) : Bool :=
  match split x with
  | .finite .. => true
  | _ => false

/-- The quotient `num / den` rounded to a whole number, a half to the even neighbour. -/
def roundQuotient (num den : Nat) : Nat :=
  let q := num / den
  let r := num % den
  if den < 2 * r || (2 * r == den && q % 2 == 1) then q + 1 else q

/-- The quotient `num / (den * 2 ^ e)` rounded to a whole number, a half to the even neighbour. -/
def roundScaled (num den : Nat) (e : Int) : Nat :=
  if 0 ≤ e then roundQuotient num (den * Nat.pow 2 e.toNat)
  else roundQuotient (num * Nat.pow 2 (-e).toNat) den

def log2Quotient (num den : Nat) : Int :=
  let k : Int := (num.log2 : Int) - den.log2
  let below := if 0 ≤ k then num < den * Nat.pow 2 k.toNat else num * Nat.pow 2 (-k).toNat < den
  if below then k - 1 else k

/-- The bits, sign apart, of the `Float` nearest to `num / den`. -/
def nearestBits (num den : Nat) : Nat :=
  if num = 0 then 0
  else
    let e := max (log2Quotient num den - 52) (-1074)
    let q := roundScaled num den e
    let bits := if q < Nat.pow 2 52 then q else (e + 1075).toNat * Nat.pow 2 52 + (q - Nat.pow 2 52)
    min bits (2047 * Nat.pow 2 52)

/-- The `Float` nearest to `± num / den`, an infinity beyond the greatest one. -/
def nearest (negative : Bool) (num den : Nat) : Float :=
  Float.ofBits (UInt64.ofNat (nearestBits num den + if negative then Nat.pow 2 63 else 0))

def ofInt (i : Int) : Float := nearest (i < 0) i.natAbs 1

/-- The `Float` nearest to `± digits * 10 ^ exponent`. -/
def ofScaled (negative : Bool) (digits : Nat) (exponent : Int) : Float :=
  let size : Int := (Nat.toDigits 10 digits).length + exponent
  if digits = 0 || size < -400 then nearest negative 0 1
  else if 400 < size then nearest negative (Nat.pow 10 400) 1
  else if 0 ≤ exponent then nearest negative (digits * Nat.pow 10 exponent.toNat) 1
  else nearest negative digits (Nat.pow 10 (-exponent).toNat)

/-- A number cut to a whole one, towards zero. -/
def truncate (x : Float) : Option Int :=
  match split x with
  | .finite negative significand exponent =>
    let n : Nat :=
      if 0 ≤ exponent then significand * Nat.pow 2 exponent.toNat
      else significand / Nat.pow 2 (-exponent).toNat
    some (if negative then -n else n)
  | _ => none

/-- A number rounded to a whole one, a half away from zero. -/
def roundAway (x : Float) : Option Int :=
  match split x with
  | .finite negative significand exponent =>
    let n : Nat :=
      if 0 ≤ exponent then significand * Nat.pow 2 exponent.toNat
      else (2 * significand + Nat.pow 2 (-exponent).toNat) / (2 * Nat.pow 2 (-exponent).toNat)
    some (if negative then -n else n)
  | _ => none

end GardenMap.Decimal
