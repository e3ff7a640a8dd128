import GardenMap.Record.Value

/-!
# Schemas

A schema declares the fields of a record and the schemas it extends. A catalog lists schemas,
newest first, and the bases of a schema are looked up among the older ones only, so no schema
extends itself.

The lineage of a schema is every schema it extends, bases before the schemas that extend them, and
itself last. Fields are flattened along the lineage: one declared again keeps its place and takes
the newer shape.
-/

namespace GardenMap

/-- A declared field. -/
structure Field where
  name : String
  shape : Shape
deriving DecidableEq

/-- A family: a base schema and the schemas that extend it, told apart by a tag in one field. -/
structure Family where
  base : SchemaId
  /-- The field that holds the tag. -/
  discriminator : String
  /-- The tag of records of the base itself. -/
  baseTag : String
  /-- The members known from the start. -/
  declared : List SchemaId
deriving DecidableEq

/-- The tag of records of a schema: its name, unless it is the base. -/
def Family.tagOf (f : Family) (schema : SchemaId) : String :=
  if schema = f.base then f.baseTag else schema.name

/-- A change to a record that is being finished. -/
inductive Record.Change where
  /-- Overwrite a declared field, if there is one of that name. -/
  | set (field : String) (value : Value)
  /-- Fill a declared field that is absent. -/
  | fill (field : String) (value : Value)
  /-- Put a value under an undeclared key. -/
  | putExtra (key : String) (value : Value)
  /-- Remove an undeclared key. -/
  | dropExtra (key : String)

/-- A hook that finishes a record once its fields are set, as the changes that it makes one after
the other. It looks at nothing but the record, and leaves it a record of its schema. -/
structure FinishStep where
  changes : Record → List Record.Change

namespace FinishStep

def fill (field : String) (value : Value) : FinishStep := ⟨fun _ => [.fill field value]⟩

/-- Fill the tag of a family, if it is absent, with the tag of the record's schema. -/
def fillTag (family : Family) : FinishStep :=
  ⟨fun r => [.fill family.discriminator (.str (family.tagOf r.schema))]⟩

end FinishStep

/-- The declaration of a kind of record. -/
structure Schema where
  id : SchemaId
  bases : List SchemaId
  fields : List Field
  /-- The declared field that holds undeclared keys. -/
  metadata : Option String := none
  /-- The family that the schema is the base of. -/
  family : Option Family := none
  /-- What is done to every new record, in order. -/
  finish : List FinishStep := []

def Schema.name (s : Schema) : String := s.id.name

/-- The text of a list of names, each between quotes. -/
def quotedNames (names : List String) : String :=
  "[" ++ ", ".intercalate (names.map Text.messageQuoted) ++ "]"

/-- The text that shows what a schema itself declares. -/
def Schema.text (s : Schema) : String :=
  "RecordSchema \x7b name: " ++ Text.messageQuoted s.name ++
    ", bases: " ++ quotedNames (s.bases.map (·.name)) ++
    ", fields: " ++ quotedNames (s.fields.map (·.name)) ++ " \x7d"

def Family.text (f : Family) : String :=
  "PolymorphicFamily \x7b base: " ++ Text.messageQuoted f.base.name ++
    ", discriminator: " ++ Text.messageQuoted f.discriminator ++
    ", base_tag: " ++ Text.messageQuoted f.baseTag ++ " \x7d"

/-- Schemas, newest first. -/
abbrev Catalog := List Schema

namespace Catalog

/-- A list with one more schema, unless it is there already. -/
def addNew (seen : List Schema) (s : Schema) : List Schema :=
  if seen.any fun t => t.id = s.id then seen else seen ++ [s]

/-- Every schema that a schema extends, itself last. -/
def lineage : Catalog → SchemaId → List Schema
  | [], _ => []
  | s :: older, id =>
    if s.id = id then addNew ((s.bases.flatMap (lineage older)).foldl addNew []) s
    else lineage older id

def find? (c : Catalog) (id : SchemaId) : Option Schema := List.find? (fun s => s.id = id) c

/-- Fields with one more: in the place of the field of that name, or at the end. -/
def addField (fields : List Field) (f : Field) : List Field :=
  if fields.any fun g => g.name = f.name then
    fields.map fun g => if g.name = f.name then f else g
  else fields ++ [f]

/-- The fields of a schema and of all it extends. -/
def allFields (c : Catalog) (id : SchemaId) : List Field :=
  ((lineage c id).flatMap (·.fields)).foldl addField []

/-- The field of a name: the newest declaration in the lineage. -/
def field? (c : Catalog) (id : SchemaId) (name : String) : Option Field :=
  (lineage c id).reverse.findSome? fun s => s.fields.find? fun f => f.name = name

/-- The field that holds undeclared keys: the newest declaration in the lineage. -/
def metadataField? (c : Catalog) (id : SchemaId) : Option String :=
  (lineage c id).reverse.findSome? (·.metadata)

/-- The family of the newest schema in the lineage that has one. -/
def family? (c : Catalog) (id : SchemaId) : Option Family :=
  (lineage c id).reverse.findSome? (·.family)

def rootedFamily? (c : Catalog) (id : SchemaId) : Option Family :=
  ((find? c id).bind (·.family)).filter fun f => f.base = id

/-- Whether a schema is another one or extends it. -/
def extends? (c : Catalog) (id other : SchemaId) : Bool :=
  (lineage c id).any fun s => s.id = other

/-- Whether a schema names another one among its bases. -/
def directlyExtends? (c : Catalog) (id other : SchemaId) : Bool :=
  ((find? c id).map (·.bases)).any fun bases => bases.contains other

end Catalog

end GardenMap
