import GardenMap.Decimal.Hypotenuse
import GardenMap.Record.Build

/-!
# Machine coordinates

Coordinates are whole numbers of 64 bits with sign. Arithmetic stops at the bounds.
-/

namespace GardenMap.Farm

/-- A whole number brought within 64 bits with sign. -/
def saturate (i : Int) : Int := max Decimal.minInt (min i Decimal.maxInt)

/-- A position of the machine. -/
structure Coordinate where
  x : Int
  y : Int
  z : Int
deriving DecidableEq

namespace Coordinate

instance : Add Coordinate :=
  ⟨fun a b => ⟨saturate (a.x + b.x), saturate (a.y + b.y), saturate (a.z + b.z)⟩⟩

instance : Sub Coordinate :=
  ⟨fun a b => ⟨saturate (a.x - b.x), saturate (a.y - b.y), saturate (a.z - b.z)⟩⟩

instance : Neg Coordinate := ⟨fun a => ⟨saturate (-a.x), saturate (-a.y), saturate (-a.z)⟩⟩

/-- The position of a record that has all three coordinates. -/
def of? (r : Record) : Option Coordinate := do
  return ⟨← r.int? "x", ← r.int? "y", ← r.int? "z"⟩

/-- The difference of two coordinates, each taken to its nearest binary number first. -/
def gap (a b : Int) : Float := Decimal.ofInt a - Decimal.ofInt b

/-- The distance to a place on the plane, cut to a whole number. -/
def distance (a : Coordinate) (x y : Int) : Int :=
  saturate ((Decimal.truncate (Decimal.hypotenuse (gap a.x x) (gap a.y y))).getD 0)

def merge (a : Coordinate) (x y z : Option Int) : Coordinate :=
  ⟨x.getD a.x, y.getD a.y, z.getD a.z⟩

def toRaw (a : Coordinate) : Json := .obj [("x", .int a.x), ("y", .int a.y), ("z", .int a.z)]

end Coordinate

end GardenMap.Farm
