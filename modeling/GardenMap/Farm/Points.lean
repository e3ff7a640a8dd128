import GardenMap.Record.Build

/-!
# Points of the garden map

Every point has a `pointer_type`. A payload tagged `Plant` or `ToolSlot` is a record of that
schema; any other payload is a generic point.
-/

namespace GardenMap.Farm

def pointerType : String := "pointer_type"

/-- The tag of points that are nothing more special. -/
def genericPointer : String := "GenericPointer"

namespace Id

def identifiable : SchemaId := ⟨"Identifiable", 0⟩

def coordinate : SchemaId := ⟨"Coordinate", 0⟩

def point : SchemaId := ⟨"Point", 0⟩

def plant : SchemaId := ⟨"Plant", 0⟩

def toolSlot : SchemaId := ⟨"ToolSlot", 0⟩

end Id

def pointFamily : Family where
  base := Id.point
  discriminator := pointerType
  baseTag := genericPointer
  declared := [Id.plant, Id.toolSlot]

def identifiable : Schema where
  id := Id.identifiable
  bases := []
  fields := [⟨"id", .int⟩, ⟨"created_at", .datetime⟩, ⟨"updated_at", .datetime⟩]

def coordinateSchema : Schema where
  id := Id.coordinate
  bases := []
  fields := [⟨"x", .int⟩, ⟨"y", .int⟩, ⟨"z", .int⟩]

/-- Points. A new point lies at the origin unless it says otherwise. -/
def point : Schema where
  id := Id.point
  bases := [Id.identifiable, Id.coordinate]
  fields := [⟨"device_id", .int⟩, ⟨pointerType, .str⟩, ⟨"name", .str⟩,
    ⟨"meta", .map .str .any⟩, ⟨"radius", .float⟩, ⟨"discarded_at", .optional .datetime⟩]
  metadata := some "meta"
  family := some pointFamily
  finish := [.fillTag pointFamily, .fill "meta" (.map []), .fill "x" (.int 0), .fill "y" (.int 0),
    .fill "z" (.int 0), .fill "radius" (.float 0.0)]

def plant : Schema where
  id := Id.plant
  bases := [Id.point]
  fields := [⟨"openfarm_slug", .str⟩, ⟨"plant_stage", .str⟩,
    ⟨"planted_at", .optional .datetime⟩]

def toolSlot : Schema where
  id := Id.toolSlot
  bases := [Id.point]
  fields := [⟨"tool_id", .int⟩, ⟨"pullout_direction", .optional .int⟩]

def pointSchemas : Catalog := [toolSlot, plant, point, coordinateSchema, identifiable]

/-- The days since a plant was planted, the first day counted. Plants that are planned or
harvested, or without a planting date, have age 0. -/
def plantAge (plant : Record) (now : Instant) : Int :=
  let stage := plant.str? "plant_stage"
  if stage = some "planned" || stage = some "harvested" then 0
  else
    match plant.get? "planted_at" with
    | some (.datetime planted) => now.daysSince planted + 1
    | _ => 0

end GardenMap.Farm
