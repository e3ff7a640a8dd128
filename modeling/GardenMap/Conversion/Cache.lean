import GardenMap.Conversion.Domain

/-!
# Caches

The state of a program that converts: a registry of converters and the rosters of the families. It
answers as a domain with the same registrations does, and remembers what it worked out.
-/

namespace GardenMap

/-- A registry, and a roster for the family of every base. -/
structure Cache where
  registry : Registry
  rosters : SchemaId → Roster

namespace Cache

def empty : Cache := ⟨.empty, fun _ => .empty⟩

def setRoster (m : Cache) (base : SchemaId) (r : Roster) : Cache :=
  { m with rosters := fun b => if b = base then r else m.rosters b }

/-- The domain of a catalog with the registrations in force. -/
def domain (m : Cache) (c : Catalog) : Domain := ⟨c, fun base => (m.rosters base).registered⟩

def register (m : Cache) (base schema : SchemaId) : Cache :=
  m.setRoster base ((m.rosters base).register schema)

/-- Drop the registrations and the index of the family of a base. -/
def clear (m : Cache) (base : SchemaId) : Cache := m.setRoster base .empty

def reset (m : Cache) : Cache := { m with registry := .empty }

def resolve (m : Cache) (c : Catalog) (shape : Shape) : Except ShapeError Converter × Cache :=
  let (found, registry) := m.registry.resolve c [] shape
  (found, { m with registry := registry })

def member (m : Cache) (c : Catalog) (f : Family) (tag : Option String) : SchemaId × Cache :=
  let (id, roster) := (m.rosters f.base).resolve c f tag
  (id, m.setRoster f.base roster)

def members (m : Cache) (c : Catalog) (f : Family) : List SchemaId × Cache :=
  let (ids, roster) := (m.rosters f.base).members c f
  (ids, m.setRoster f.base roster)

def source (c : Catalog) : Source Cache where
  member f tag m := m.member c f tag
  fieldsOf id m :=
    let (found, m) := m.resolve c (.record id)
    (found.map Converter.fields, m)

def read (m : Cache) (c : Catalog) (shape : Shape) (v : Json) : Except Error Value × Cache :=
  match m.resolve c shape with
  | (.error e, m) => (.error (.unresolved e), m)
  | (.ok conv, m) =>
    let (result, m) := Conversion.convert c (source c) conv v m
    (result.mapError (Error.ofMisfit shape v), m)

def record (m : Cache) (c : Catalog) (schema : SchemaId) (v : Json) : Except Error Record × Cache :=
  let (result, m) := m.read c (.record schema) v
  (result >>= Error.recordOf schema v, m)

end Cache

end GardenMap
