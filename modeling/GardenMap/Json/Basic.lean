import GardenMap.Table
import GardenMap.Decimal.Reader

/-!
# Wire values

The values that travel to and from the point service: JSON, with whole numbers apart from binary
floating point, and objects kept as tables. `weight` measures a wire value by the characters that
any text of it needs.
-/

namespace GardenMap

/-- A value on the wire. -/
inductive Json where
  | null
  | bool (b : Bool)
  /-- A whole number, of 64 bits with or without sign. -/
  | int (i : Int)
  /-- A finite binary number. -/
  | float (x : Float)
  | str (s : String)
  | arr (items : List Json)
  /-- A table of entries. -/
  | obj (entries : List (String × Json))
deriving Inhabited

/-- The entries of a wire mapping. -/
abbrev Object := List (String × Json)

namespace Json

mutual

/-- Equality of wire values. A whole number never equals a binary one. -/
def same : Json → Json → Bool
  | .null, .null => true
  | .bool a, .bool b => a == b
  | .int a, .int b => a == b
  | .float a, .float b => a == b
  | .str a, .str b => a == b
  | .arr as, .arr bs => sameItems as bs
  | .obj as, .obj bs => sameEntries as bs
  | _, _ => false

def sameItems : List Json → List Json → Bool
  | [], [] => true
  | a :: as, b :: bs => same a b && sameItems as bs
  | _, _ => false

def sameEntries : List (String × Json) → List (String × Json) → Bool
  | [], [] => true
  | (k, a) :: as, (l, b) :: bs => k == l && same a b && sameEntries as bs
  | _, _ => false

end

instance : BEq Json := ⟨same⟩

mutual

/-- A lower bound on the length of any text that spells a wire value. -/
def weight : Json → Nat
  | .str s => 1 + s.toList.length
  | .arr items => 1 + weightItems items
  | .obj entries => 2 + weightEntries entries
  | _ => 1

def weightItems : List Json → Nat
  | [] => 0
  | v :: vs => weight v + weightItems vs

def weightEntries : List (String × Json) → Nat
  | [] => 0
  | (_, v) :: es => weight v + weightEntries es

end

def isNull : Json → Bool
  | .null => true
  | _ => false

def str? : Json → Option String
  | .str s => some s
  | _ => none

def items? : Json → Option (List Json)
  | .arr items => some items
  | _ => none

def entries? : Json → Option Object
  | .obj entries => some entries
  | _ => none

def bool? : Json → Option Bool
  | .bool b => some b
  | _ => none

def int? : Json → Option Int
  | .int i => if Decimal.fitsInt i then some i else none
  | _ => none

def float? : Json → Option Float
  | .int i => some (Decimal.ofInt i)
  | .float x => some x
  | _ => none

/-- The binary number on the wire: what is no finite number is absent. -/
def ofFloat (x : Float) : Json := if Decimal.isFinite x then .float x else .null

def entry? (v : Json) (key : String) : Option Json := v.entries?.bind (Table.get? · key)

end Json

end GardenMap
