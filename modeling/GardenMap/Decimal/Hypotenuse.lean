/-!
# The hypotenuse

The long side of a right triangle in binary floating point: the rounded root of the sum of the
squares, brought nearer by one Newton step. The step needs the error of the square of the root,
which is written so that the large squares cancel before anything is rounded.
-/

namespace GardenMap.Decimal

/-- The error `h * h - a * a - b * b` of a root `h` of the sum of two squares, for `b ≤ a`, in terms
of the distance `d` of the root from one of the sides: from `b` when the sides are close, and from
`a` otherwise. -/
def rootError (a b h : Float) : Float :=
  if h ≤ 2.0 * b then
    let d := h - b
    a * (2.0 * d - a) + (d - 2.0 * (a - b)) * d
  else
    let d := h - a
    2.0 * d * (a - 2.0 * b) + ((4.0 * d - b) * b + d * d)

/-- The long side of a right triangle with the short sides `b ≤ a`, neither negative. The squares
have to be within the range of a `Float`. -/
def longSide (a b : Float) : Float :=
  if b == 0.0 then a
  else
    let h := (a * a + b * b).sqrt
    h - rootError a b h / (2.0 * h)

/-- The distance of a place on the plane from the origin. -/
def hypotenuse (x y : Float) : Float :=
  if x.abs < y.abs then longSide y.abs x.abs else longSide x.abs y.abs

end GardenMap.Decimal
