import GardenMap.Query.Clause

/-!
# Query plans

A plan is an exact filter for the point service and predicates to test here, in order. Predicates
are data: they can be shown and compared.
-/

namespace GardenMap

/-- Where a predicate finds its value. -/
inductive FieldRef where
  /-- A declared field. -/
  | field (name : String)
  /-- An undeclared key. -/
  | metadata (key : String)
deriving DecidableEq

namespace FieldRef

def name : FieldRef → String
  | field name => name
  | metadata key => key

def text : FieldRef → String
  | field name => name
  | metadata key => "meta." ++ key

def read? (c : Catalog) (r : Record) : FieldRef → Option Value
  | field name => r.get? name
  | metadata key => r.metadata? c key

end FieldRef

/-- How two values are compared. -/
inductive Comparison where
  | lt
  | le
  | gt
  | ge
deriving DecidableEq

namespace Comparison

def symbol : Comparison → String
  | lt => "<"
  | le => "<="
  | gt => ">"
  | ge => ">="

/-- The comparison that holds of other pairs. -/
def negate : Comparison → Comparison
  | lt => ge
  | le => gt
  | gt => le
  | ge => lt

/-- Whether a comparison holds of two things in an order. -/
def holds : Comparison → Ordering → Bool
  | lt, o => o.isLT
  | le, o => o.isLE
  | gt, o => o.isGT
  | ge, o => o.isGE

/-- Whether a comparison holds of two numbers. None holds of what is no number. -/
def holdsFloat (op : Comparison) (x y : Float) : Bool :=
  match op with
  | lt => x < y
  | le => x ≤ y
  | gt => y < x
  | ge => y ≤ x

end Comparison

/-- What a value is compared with. -/
inductive Operand where
  | instant (t : Instant)
  | number (x : Float)

/-- A test of a value. -/
inductive Test where
  /-- A comparison. Absent values fail it. -/
  | compare (op : Comparison) (operand : Operand)
  /-- Not being a value, which has the shape of the field. -/
  | notEqual (literal : Value)

/-- A test of a field. -/
structure Predicate where
  field : FieldRef
  test : Test

namespace Predicate

/-- The error of a value that cannot be compared. -/
def incomparable (p : Predicate) (r : Record) (v : Value) (what : String) : Error :=
  .rejected r.schema.name v.toRaw (.incomparable p.field.text what)

/-- Whether a predicate holds of a record. Metadata is compared in wire form. -/
def holds (c : Catalog) (p : Predicate) (r : Record) : Except Error Bool :=
  match p.test, (p.field.read? c r).filter fun v => !v.isNull with
  | .compare _ _, none => .ok false
  | .compare op (.instant t), some v =>
    match v.toInstant? with
    | some u => .ok (op.holds (compare u t))
    | none => .error (p.incomparable r v "an instant")
  | .compare op (.number x), some v =>
    match v.toFloat? with
    | some y => .ok (op.holdsFloat y x)
    | none => .error (p.incomparable r v "a number")
  | .notEqual literal, none => .ok (!literal.isNull)
  | .notEqual literal, some v =>
    match p.field with
    | .field _ => .ok (!v.same literal)
    | .metadata _ => .ok (!(v.toRaw == literal.toRaw))

def text (p : Predicate) : String :=
  match p.test with
  | .compare op (.instant t) => p.field.text ++ " " ++ op.symbol ++ " " ++ t.text
  | .compare op (.number x) =>
    p.field.text ++ " " ++ op.symbol ++ " " ++ Decimal.NumberStyle.plain.text x
  | .notEqual literal => p.field.text ++ " != " ++ literal.toRaw.text

end Predicate

/-- A filter and predicates for records of a schema. -/
structure Plan where
  target : SchemaId
  /-- The entries that a point must have. -/
  filter : Object
  predicates : List Predicate

/-- Whether all predicates hold of a record, up to the first that fails. -/
def holdAll (c : Catalog) (r : Record) : List Predicate → Except Error Bool
  | [] => .ok true
  | p :: ps => do if ← p.holds c r then holdAll c r ps else return false

/-- Whether all predicates of a plan hold of a record. -/
def Plan.holds (c : Catalog) (plan : Plan) (r : Record) : Except Error Bool :=
  holdAll c r plan.predicates

end GardenMap
