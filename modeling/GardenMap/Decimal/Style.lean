import GardenMap.Decimal.Shortest

/-!
# Number styles

A style settles what the shortest digits leave open: from where an exponent is written, whether
whole numbers keep a point, and which way ties go.
-/

namespace GardenMap.Decimal

/-- How a number is spelt. -/
structure NumberStyle where
  /-- First-digit exponents that are written without exponent mark: from the first up to, and
  without, the second. Every exponent when absent. -/
  positional : Option (Int × Int)
  /-- Whether whole numbers end in `.0`. -/
  keepsPoint : Bool
  tie : Tie

/-- Numbers in wire text: an exponent is written from `1e+16` and below `1e-5`. -/
def NumberStyle.wire : NumberStyle := ⟨some (-5, 16), true, .toEven⟩

/-- Numbers in messages: never an exponent, and no point in whole numbers. -/
def NumberStyle.plain : NumberStyle := ⟨none, false, .up⟩

def digitsOf (n : Nat) : List Char := Nat.toDigits 10 n

def intText (i : Int) : String :=
  String.ofList (if i < 0 then '-' :: digitsOf i.natAbs else digitsOf i.natAbs)

/-- Spell `digits * 10 ^ exponent` without exponent mark. -/
def positionalText (keepsPoint : Bool) (digits : List Char) (exponent : Int) : List Char :=
  if 0 ≤ exponent then
    digits ++ List.replicate exponent.toNat '0' ++ if keepsPoint then ['.', '0'] else []
  else
    let places := (-exponent).toNat
    if places < digits.length then
      digits.take (digits.length - places) ++ '.' :: digits.drop (digits.length - places)
    else ['0', '.'] ++ List.replicate (places - digits.length) '0' ++ digits

/-- Spell digits with the point after the first one and an exponent mark. -/
def exponentText (digits : List Char) (first : Int) : List Char :=
  let mark := 'e' :: (if first < 0 then '-' else '+') :: digitsOf first.natAbs
  match digits with
  | [] => mark
  | [d] => d :: mark
  | d :: ds => d :: '.' :: ds ++ mark

def NumberStyle.point (style : NumberStyle) (p : Point) : List Char :=
  let digits := digitsOf p.digits
  let first : Int := p.exponent + digits.length - 1
  match style.positional with
  | none => positionalText style.keepsPoint digits p.exponent
  | some (low, high) =>
    if low ≤ first && first < high then positionalText style.keepsPoint digits p.exponent
    else exponentText digits first

def NumberStyle.text (style : NumberStyle) (x : Float) : String :=
  match split x with
  | .nan => "NaN"
  | .infinite negative => if negative then "-inf" else "inf"
  | .finite negative significand exponent =>
    let body :=
      if significand = 0 then if style.keepsPoint then ['0', '.', '0'] else ['0']
      else style.point (shortest style.tie significand exponent)
    String.ofList (if negative then '-' :: body else body)

end GardenMap.Decimal
