import GardenMap.Decimal.Binary

/-!
# Shortest decimals

The decimal with the fewest digits among those that read back as a given `Float`, and of these the
one nearest to it. A decimal reads back when it lies in the interval of reals that round to the
`Float`; the interval has its ends when the significand is even.
-/

namespace GardenMap.Decimal

/-- Which of two equally near decimals is taken. -/
inductive Tie where
  /-- The one with the even last digit. -/
  | toEven
  /-- The greater one. -/
  | up
deriving DecidableEq

/-- The positive number `digits * 10 ^ exponent`. -/
structure Point where
  digits : Nat
  exponent : Int

/-- The interval of reals that round to a positive `Float`, with the `Float` itself, over one
denominator. -/
structure Interval where
  low : Nat
  mid : Nat
  high : Nat
  den : Nat
  closed : Bool

/-- The interval of `significand * 2 ^ exponent`. -/
def Interval.of (significand : Nat) (exponent : Int) : Interval :=
  let gapBelow := if significand = Nat.pow 2 52 && -1074 < exponent then 1 else 2
  let scale := if 0 ≤ exponent then Nat.pow 2 exponent.toNat else 1
  let den := 4 * if 0 ≤ exponent then 1 else Nat.pow 2 (-exponent).toNat
  { low := (4 * significand - gapBelow) * scale
    mid := 4 * significand * scale
    high := (4 * significand + 2) * scale
    den := den
    closed := significand % 2 == 0 }

/-- Whether `num / den` of the scaled interval holds a decimal, given over the same denominator. -/
def Interval.holds (i : Interval) (num : Nat) : Bool :=
  if i.closed then i.low ≤ num && num ≤ i.high else i.low < num && num < i.high

/-- The interval with its denominator divided by `10 ^ p`: decimals with exponent `p` become the
whole numbers. -/
def Interval.shift (i : Interval) (p : Int) : Interval :=
  if 0 ≤ p then { i with den := i.den * Nat.pow 10 p.toNat }
  else
    let k := Nat.pow 10 (-p).toNat
    { i with low := i.low * k, mid := i.mid * k, high := i.high * k }

/-- The decimal with exponent `p` that reads back and is nearest, if one reads back. -/
def Interval.pick (i : Interval) (tie : Tie) (p : Int) : Option Point :=
  let s := i.shift p
  let d := s.mid / s.den
  let below := s.holds (d * s.den)
  let above := s.holds ((d + 1) * s.den)
  let gap := 2 * (s.mid % s.den)
  let upper := s.den < gap || (gap == s.den && (tie == .up || d % 2 == 1))
  if below && above then some ⟨if upper then d + 1 else d, p⟩
  else if below && d != 0 then some ⟨d, p⟩
  else if above then some ⟨d + 1, p⟩
  else none

/-- An estimate of the exponent of the first digit, at most one off. -/
def Interval.magnitude (i : Interval) : Int :=
  ((i.mid.log2 : Int) - i.den.log2) * 30103 / 100000

/-- Divide out factors of ten, at most `fuel` of them. -/
def Point.strip : Nat → Point → Point
  | 0, p => p
  | fuel + 1, p =>
    if p.digits % 10 = 0 && p.digits != 0 then strip fuel ⟨p.digits / 10, p.exponent + 1⟩ else p

/-- The shortest decimal of `significand * 2 ^ exponent`, where `significand` is positive. The
grids are tried from coarse to fine; one two digits finer than the spacing always has a hit. -/
def shortest (tie : Tie) (significand : Nat) (exponent : Int) : Point :=
  let i := Interval.of significand exponent
  let top := i.magnitude + 2
  match (List.range 22).findSome? fun (n : Nat) => i.pick tie (top - n) with
  | some p => p.strip 30
  | none => ⟨significand, exponent⟩

end GardenMap.Decimal
