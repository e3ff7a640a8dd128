import GardenMap.Farm.Points

/-!
# The state that a device reports
-/

namespace GardenMap.Farm

namespace Id

def entity : SchemaId := ⟨"Entity", 0⟩

def locationData : SchemaId := ⟨"LocationData", 0⟩

def informationalSettings : SchemaId := ⟨"InformationalSettings", 0⟩

def pin : SchemaId := ⟨"Pin", 0⟩

def processInfo : SchemaId := ⟨"ProcessInfo", 0⟩

def alert : SchemaId := ⟨"Alert", 0⟩

def botStateTree : SchemaId := ⟨"BotStateTree", 0⟩

end Id

def entity : Schema where
  id := Id.entity
  bases := []
  fields := []

def locationData : Schema where
  id := Id.locationData
  bases := []
  fields := [⟨"position", .record Id.coordinate⟩]

def informationalSettings : Schema where
  id := Id.informationalSettings
  bases := []
  fields := [⟨"busy", .bool⟩, ⟨"locked", .bool⟩, ⟨"commit", .str⟩, ⟨"firmware_commit", .str⟩,
    ⟨"target", .str⟩, ⟨"env", .str⟩, ⟨"node_name", .str⟩, ⟨"currently_on_beta", .optional .bool⟩,
    ⟨"update_available", .optional .bool⟩, ⟨"memory_usage", .optional .int⟩,
    ⟨"disk_usage", .optional .int⟩, ⟨"soc_temp", .optional .int⟩, ⟨"wifi_level", .optional .int⟩,
    ⟨"controller_version", .str⟩, ⟨"firmware_version", .str⟩, ⟨"throttled", .str⟩,
    ⟨"private_ip", .str⟩, ⟨"sync_status", .str⟩, ⟨"uptime", .optional .int⟩]

def pin : Schema where
  id := Id.pin
  bases := []
  fields := [⟨"mode", .int⟩, ⟨"value", .float⟩]

def processInfo : Schema where
  id := Id.processInfo
  bases := []
  fields := [⟨"farmwares", .map .str (.record Id.entity)⟩]

def alert : Schema where
  id := Id.alert
  bases := []
  fields := [⟨"id", .optional .int⟩, ⟨"created_at", .datetime⟩, ⟨"problem_tag", .str⟩,
    ⟨"priority", .int⟩, ⟨"slug", .str⟩]

def botStateTree : Schema where
  id := Id.botStateTree
  bases := []
  fields := [⟨"location_data", .record Id.locationData⟩,
    ⟨"informational_settings", .record Id.informationalSettings⟩,
    ⟨"pins", .map .int (.record Id.pin)⟩, ⟨"configuration", .record Id.entity⟩,
    ⟨"user_env", .map .str (.optional .str)⟩, ⟨"jobs", .map .str (.optional .str)⟩,
    ⟨"process_info", .record Id.processInfo⟩,
    ⟨"alerts", .optional (.map .str (.record Id.alert))⟩]

def botStateSchemas : Catalog :=
  [botStateTree, alert, processInfo, pin, informationalSettings, locationData, entity]

end GardenMap.Farm
