import GardenMap.Schema.Catalog

/-!
# Records

Reading and writing the fields of records, and finishing new ones.
-/

namespace GardenMap

namespace Record

def get? (r : Record) (name : String) : Option Value := Table.get? r.fields name

def int? (r : Record) (name : String) : Option Int := (r.get? name).bind Value.int?

def float? (r : Record) (name : String) : Option Float := (r.get? name).bind Value.toFloat?

def str? (r : Record) (name : String) : Option String := (r.get? name).bind Value.str?

def instant? (r : Record) (name : String) : Option Instant := (r.get? name).bind Value.toInstant?

def put (r : Record) (name : String) (v : Value) : Record :=
  { r with fields := Table.put r.fields name v }

/-- Overwrite a declared field, if there is one of that name. -/
def set? (r : Record) (name : String) (v : Value) : Option Record :=
  if (r.get? name).isSome then some (r.put name v) else none

def fill (r : Record) (name : String) (v : Value) : Record :=
  match r.get? name with
  | some old => if old.isNull then r.put name v else r
  | none => r

/-- Make one change. Keys that are declared take no part in the undeclared ones. -/
def change (r : Record) : Change → Record
  | .set field v => (r.set? field v).getD r
  | .fill field v => r.fill field v
  | .putExtra key v =>
    if Table.has r.fields key then r else { r with extra := Table.put r.extra key v }
  | .dropExtra key => { r with extra := Table.erase r.extra key }

def finish (r : Record) (step : FinishStep) : Record := (step.changes r).foldl change r

end Record

/-- Put text after the text of a declared field. -/
def FinishStep.appendText (field suffix : String) : FinishStep :=
  ⟨fun r => [.set field (.str ((r.str? field).getD "" ++ suffix))]⟩

namespace Catalog

/-- Fields with an absent one for every declared name that is missing. -/
def withDefaults (c : Catalog) (schema : SchemaId) (fields : List (String × Value)) :
    List (String × Value) :=
  (c.allFields schema).foldl
    (fun t f => if Table.has t f.name then t else Table.put t f.name .null) fields

/-- The undeclared entries of a payload, as they are. -/
def extras (fields : List (String × Value)) (entries : Object) : List (String × Value) :=
  (entries.filter fun e => !Table.has fields e.1).map fun e => (e.1, .raw e.2)

/-- A new record of a schema: declared fields, the other entries of the payload, and the finishing
steps of the whole lineage, bases first. -/
def assemble (c : Catalog) (schema : SchemaId) (fields : List (String × Value))
    (entries : Object) : Record :=
  let raw : Record := ⟨schema, c.withDefaults schema fields, extras fields entries⟩
  ((c.lineage schema).flatMap (·.finish)).foldl Record.finish raw

end Catalog

end GardenMap
