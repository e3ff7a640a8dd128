import GardenMap.Conversion.Convert
import GardenMap.Error

/-!
# Domains

A domain is a catalog with the schemas registered in its families. It converts payloads: to values
of a shape, and to records of a schema, which may be records of a member when the schema is the base
of a family.
-/

namespace GardenMap

/-- Schemas, and the members registered in families at run time. -/
structure Domain where
  catalog : Catalog
  /-- The schemas registered in the family of a base, in order. -/
  registered : SchemaId → List SchemaId

namespace Domain

def indexOf (d : Domain) (f : Family) : FamilyIndex :=
  f.indexOf d.catalog (d.registered f.base)

def source (d : Domain) : Source Unit where
  member f tag s := (f.select (d.indexOf f) tag, s)
  fieldsOf id s := ((d.catalog.converter (.record id)).map Converter.fields, s)

def apply (d : Domain) (conv : Converter) (v : Json) : Except ConvertError Value :=
  (Conversion.convert d.catalog d.source conv v ()).1

end Domain

/-- The error of a payload that does not fit a shape. It names the member that the payload was sent
to, or the shape. -/
def Error.ofMisfit (shape : Shape) (payload : Json) (e : ConvertError) : Error :=
  .rejected (e.schema.getD shape.text) payload (.misfit e)

/-- The record that the conversion of a payload gave. -/
def Error.recordOf (schema : SchemaId) (payload : Json) : Value → Except Error Record
  | .record r => .ok r
  | _ => .error (.rejected schema.name payload .notMapping)

namespace Domain

def read (d : Domain) (shape : Shape) (v : Json) : Except Error Value :=
  match d.catalog.converter shape with
  | .error e => .error (.unresolved e)
  | .ok conv => (d.apply conv v).mapError (Error.ofMisfit shape v)

def record (d : Domain) (schema : SchemaId) (v : Json) : Except Error Record :=
  d.read (.record schema) v >>= Error.recordOf schema v

/-- The record of a payload with some entries put over it. -/
def recordWith (d : Domain) (schema : SchemaId) (payload : Object)
    (entries : List (String × Json)) : Except Error Record :=
  d.record schema (.obj (Table.putAll payload entries))

def newRecord (d : Domain) (schema : SchemaId) : Except Error Record := d.record schema (.obj [])

end Domain

end GardenMap
