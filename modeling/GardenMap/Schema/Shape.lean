/-!
# Shapes

A shape is the declared type of a field. Record shapes name their schema, so shapes of records that
contain themselves are still finite.
-/

namespace GardenMap

/-- The identity of a schema. Two schemas may share a name. -/
structure SchemaId where
  name : String
  serial : Nat
deriving DecidableEq

/-- The declared type of a value. -/
inductive Shape where
  /-- Anything, kept as it is. -/
  | any
  /-- The absent value; only a member of unions. -/
  | null
  | bool
  | int
  | float
  | str
  | date
  | datetime
  | optional (inner : Shape)
  | list (item : Shape)
  | map (key value : Shape)
  /-- One of several shapes, of which at most one may be other than `null`. -/
  | union (members : List Shape)
  | record (schema : SchemaId)

namespace Shape

mutual

def same : Shape → Shape → Bool
  | any, any => true
  | null, null => true
  | bool, bool => true
  | int, int => true
  | float, float => true
  | str, str => true
  | date, date => true
  | datetime, datetime => true
  | optional a, optional b => same a b
  | list a, list b => same a b
  | map a b, map c d => same a c && same b d
  | union as, union bs => sameMembers as bs
  | record a, record b => a == b
  | _, _ => false

def sameMembers : List Shape → List Shape → Bool
  | [], [] => true
  | a :: as, b :: bs => same a b && sameMembers as bs
  | _, _ => false

end

mutual

theorem same_refl : ∀ a : Shape, same a a = true
  | any | null | bool | int | float | str | date | datetime => rfl
  | optional a => same_refl a
  | list a => same_refl a
  | map a b => by simp [same, same_refl a, same_refl b]
  | union as => sameMembers_refl as
  | record a => by simp [same]

theorem sameMembers_refl : ∀ as : List Shape, sameMembers as as = true
  | [] => rfl
  | a :: as => by simp [sameMembers, same_refl a, sameMembers_refl as]

end

theorem eq_of_same {a b : Shape} (h : same a b = true) : a = b := by
  refine same.induct (fun a b => same a b = true → a = b)
    (fun as bs => sameMembers as bs = true → as = bs)
    ?_ ?_ ?_ ?_ ?_ ?_ ?_ ?_ ?_ ?_ ?_ ?_ ?_ ?_ ?_ ?_ ?_ a b h
  all_goals intros
  all_goals simp_all [same, sameMembers]

instance : DecidableEq Shape := fun a b =>
  decidable_of_iff (same a b = true) ⟨eq_of_same, fun h => h ▸ same_refl a⟩

/-- Whether a shape is the date shape, or optional around it. -/
def isDate : Shape → Bool
  | date => true
  | optional inner => isDate inner
  | _ => false

/-- The schema of a record shape, or of an optional one around it. -/
def schema? : Shape → Option SchemaId
  | record schema => some schema
  | optional inner => schema? inner
  | _ => none

mutual

def text : Shape → String
  | any => "any"
  | null => "null"
  | bool => "bool"
  | int => "int"
  | float => "float"
  | str => "str"
  | date => "date"
  | datetime => "datetime"
  | optional inner => "optional<" ++ text inner ++ ">"
  | list item => "list<" ++ text item ++ ">"
  | map key value => "map<" ++ text key ++ ", " ++ text value ++ ">"
  | union members => "union<" ++ ", ".intercalate (texts members) ++ ">"
  | record schema => schema.name

def texts : List Shape → List String
  | [] => []
  | s :: ss => text s :: texts ss

end

end Shape

/-- The shapes of single values. -/
inductive Scalar where
  | any
  | bool
  | int
  | float
  | str
  | date
  | datetime
deriving DecidableEq

/-- The shape of single values that a shape is. -/
def Shape.scalar? : Shape → Option Scalar
  | any => some .any
  | bool => some .bool
  | int => some .int
  | float => some .float
  | str => some .str
  | date => some .date
  | datetime => some .datetime
  | _ => none

/-- The shape of single values that keys of a mapping may have: every one but `float`. -/
def Shape.key? (s : Shape) : Option Scalar := s.scalar?.filter (· ≠ .float)

/-- Whether values of a shape may be keys of a mapping. -/
def Shape.isKey (s : Shape) : Bool := s.key?.isSome

end GardenMap
