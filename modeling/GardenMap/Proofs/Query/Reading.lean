import GardenMap.Query.Compile
import GardenMap.Store.Memory

/-!
# What clauses ask for

The reading of a list of clauses, without plans: walk the points of a store, skip those without the
tag of the target or an entry that a clause asks for, convert the others, and keep the records of
which the other clauses hold (`Clause.readOff`).

A clause asks for an entry when it is not negated and its value is neither a qualified date nor a
threshold. Dates without a qualifier stand for their canonical text. Entries of undeclared keys are
looked for in the mapping of the metadata field, if the target has one.
-/

namespace GardenMap

/-- What the value of a clause says at a given time. -/
inductive Reading where
  | exactly (v : Json)
  | dated (side : Qualifier) (t : Instant)
  | bounded (side : Bound) (x : Float)

/-- Text is read as a date expression, then as a threshold, and else stands for itself. -/
def Reading.ofText (now : Instant) (text : String) : Reading :=
  match Phrase.readDateExpr text.toList, Phrase.readThreshold text.toList with
  | .ok (some expr), _ =>
    match expr.moment.resolve? now, expr.qualifier with
    | some t, some side => .dated side t
    | some t, none => .exactly (.str t.text)
    | none, _ => .exactly (.str text)
  | _, .ok (some bound) => .bounded bound.bound bound.value
  | _, _ => .exactly (.str text)

/-- Whether an instant lies on a side of another one. -/
def Qualifier.holds (side : Qualifier) (t u : Instant) : Bool :=
  match side with
  | before => compare u t == .lt
  | after => compare u t == .gt

/-- Whether a number lies on a side of a bound. What is no number lies on neither. -/
def Bound.holds (side : Bound) (negated : Bool) (x y : Float) : Bool :=
  match side, negated with
  | atLeast, false => x ≤ y
  | atLeast, true => y < x
  | atMost, false => y ≤ x
  | atMost, true => x < y

/-- Whether a point has the tag of the target, when the target has a family. -/
def hasTag (c : Catalog) (target : SchemaId) (point : Object) : Bool :=
  match c.family? target with
  | some f => (Table.get? point f.discriminator).bind Json.str? = some (f.tagOf target)
  | none => true

/-- The entry of a point at a key, where a missing one counts as null. There is none at an undeclared
key when the metadata field of the point holds no mapping. -/
def entryAt? (c : Catalog) (target : SchemaId) (key : String) (point : Object) : Option Json :=
  match c.field? target key, c.metadataField? target with
  | none, some field =>
    ((Table.get? point field).bind Json.entries?).map fun held =>
      (Table.get? held key).getD .null
  | _, _ => some ((Table.get? point key).getD .null)

namespace Clause

def reading (now : Instant) (q : Clause) : Reading :=
  match q.value with
  | .str text => .ofText now text
  | v => .exactly v

/-- The place that a key stands for in records of the target. -/
def place (c : Catalog) (target : SchemaId) (key : String) : FieldRef :=
  if (c.field? target key).isSome then .field key else .metadata key

/-- Whether a point has the entry that a clause asks for, if it asks for one. -/
def finds (c : Catalog) (target : SchemaId) (now : Instant) (point : Object) (q : Clause) : Bool :=
  match q.target, q.reading now with
  | (key, false), .exactly v => (entryAt? c target key point).any (meets v)
  | _, _ => true

/-- Whether a value, null when it is missing, is not the one of a negated clause. The value of a
declared field is compared in its shape, metadata in wire form. -/
def differs (d : Domain) (target : SchemaId) (q : Clause) (v : Json) (found : Option Value) :
    Except Error Bool :=
  match d.catalog.field? target q.target.1, found with
  | some f, found => (q.typed d (some f) v).map fun typed =>
    match found with
    | none => !typed.isNull
    | some w => !w.same typed
  | none, none => .ok !v.isNull
  | none, some w => .ok !(w.toRaw == v)

/-- The value that a clause is about in a record, unless it is absent. -/
def found? (c : Catalog) (target : SchemaId) (r : Record) (q : Clause) : Option Value :=
  ((place c target q.target.1).read? c r).filter fun v => !v.isNull

/-- The error of a value that is not what the clause compares. -/
def unfit (c : Catalog) (target : SchemaId) (r : Record) (q : Clause) (v : Value)
    (what : String) : Error :=
  .rejected r.schema.name v.toRaw (.incomparable (place c target q.target.1).text what)

/-- Whether a clause holds of a record, apart from what it asks of the point. -/
def holdsOf (d : Domain) (target : SchemaId) (now : Instant) (r : Record) (q : Clause) :
    Except Error Bool :=
  match q.reading now, q.found? d.catalog target r with
  | .exactly v, found => if q.target.2 then q.differs d target v found else .ok true
  | _, none => .ok false
  | .dated side t, some v =>
    match v.toInstant? with
    | some u => .ok (if q.target.2 then !side.holds t u else side.holds t u)
    | none => .error (q.unfit d.catalog target r v "an instant")
  | .bounded side x, some v =>
    match v.toFloat? with
    | some y => .ok (side.holds q.target.2 x y)
    | none => .error (q.unfit d.catalog target r v "a number")

/-- Whether clauses hold of a record, up to the first that does not. -/
def allHoldOf (d : Domain) (target : SchemaId) (now : Instant) (r : Record) :
    List Clause → Except Error Bool
  | [] => .ok true
  | q :: qs => do if ← q.holdsOf d target now r then allHoldOf d target now r qs else return false

/-- The records that clauses ask for, up to the first error. -/
def readOff (d : Domain) (target : SchemaId) (now : Instant) (qs : List Clause) :
    List Object → Except Error (List Record)
  | [] => .ok []
  | point :: points =>
    if hasTag d.catalog target point && qs.all (finds d.catalog target now point) then do
      let r ← d.record target (.obj point)
      let wanted ← allHoldOf d target now r qs
      let rest ← readOff d target now qs points
      return if wanted then r :: rest else rest
    else readOff d target now qs points

end Clause

end GardenMap
