import GardenMap.Farm.Points

/-!
# The device

The device, its tools and its sequences of commands.
-/

namespace GardenMap.Farm

namespace Id

def device : SchemaId := ⟨"Device", 0⟩

def tool : SchemaId := ⟨"Tool", 0⟩

def command : SchemaId := ⟨"Command", 0⟩

def sequence : SchemaId := ⟨"Sequence", 0⟩

end Id

def device : Schema where
  id := Id.device
  bases := [Id.identifiable]
  fields := [⟨"fbos_version", .optional .str⟩, ⟨"last_saw_api", .optional .datetime⟩,
    ⟨"last_saw_mq", .optional .datetime⟩, ⟨"mounted_tool_id", .optional .int⟩, ⟨"name", .str⟩,
    ⟨"serial_number", .str⟩, ⟨"throttled_at", .optional .datetime⟩,
    ⟨"throttled_until", .optional .datetime⟩, ⟨"tz_offset_hrs", .optional .int⟩]

def tool : Schema where
  id := Id.tool
  bases := [Id.identifiable]
  fields := [⟨"name", .str⟩, ⟨"status", .str⟩]

def command : Schema where
  id := Id.command
  bases := []
  fields := [⟨"kind", .str⟩, ⟨"args", .map .str .any⟩]

def sequence : Schema where
  id := Id.sequence
  bases := [Id.identifiable]
  fields := [⟨"args", .map .str .any⟩, ⟨"color", .str⟩, ⟨"name", .str⟩, ⟨"kind", .str⟩,
    ⟨"body", .list (.record Id.command)⟩]

def deviceSchemas : Catalog := [sequence, command, tool, device]

def findByName (records : List Record) (name : String) : Option Record :=
  records.find? fun r => r.str? "name" = some name

end GardenMap.Farm
