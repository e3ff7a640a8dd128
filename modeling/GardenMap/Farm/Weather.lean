import GardenMap.Conversion.Domain
import GardenMap.Farm.Points
import GardenMap.Record.Update

/-!
# Weather

Hourly readings are kept in the metadata of a generic point, by the canonical text of the hour.
Canonical texts sort as the instants do, so old readings are found by comparing keys.
-/

namespace GardenMap.Farm

/-- The name of the point that keeps the weather. -/
def weatherPointName : String := "Weather"

/-- How many hours a reading is kept when nothing else is said. -/
def defaultMaxAge : Int := 96

namespace Id

def hourlyWeather : SchemaId := ⟨"HourlyWeather", 0⟩

def weatherConfig : SchemaId := ⟨"WeatherConfig", 0⟩

end Id

def hourlyWeather : Schema where
  id := Id.hourlyWeather
  bases := []
  fields := [⟨"rain", .float⟩, ⟨"sun", .float⟩, ⟨"temperature", .float⟩, ⟨"wind", .float⟩]

def weatherConfig : Schema where
  id := Id.weatherConfig
  bases := []
  fields := [⟨"location", .str⟩, ⟨"maxage_hours", .int⟩]

def weatherSchemas : Catalog := [weatherConfig, hourlyWeather]

def weatherShape : Shape := .map .str (.record Id.hourlyWeather)

/-- Readings by hour. -/
abbrev WeatherLog := List (MapKey × Value)

def loadWeather (d : Domain) (point : Record) : Except Error WeatherLog :=
  match (point.get? "meta").filter fun v => !v.isNull with
  | none => .ok []
  | some held => do
    let raw := held.toRaw
    match ← d.read weatherShape raw with
    | .map log => .ok log
    | .null => .ok []
    | other => .error (.rejected weatherShape.text raw (.wrongKind other.kind))

def storeWeather (point : Record) (log : WeatherLog) : Except Error Record :=
  Record.set point "meta" (.map log)

/-- Set one measurement of an hour. An hour without a reading gets an empty one first, which stays
even when the measurement is not declared. -/
def recordMeasurement (d : Domain) (log : WeatherLog) (hour : Instant) (measurement : String)
    (x : Float) : WeatherLog × Except Error Unit :=
  let key : MapKey := .str hour.text
  let held := (Table.get? log key).getD .null
  match held.record? with
  | some reading => store log key reading
  | none =>
    match d.newRecord Id.hourlyWeather with
    | .error e => (Table.put log key held, .error e)
    | .ok reading => store (Table.put log key (.record reading)) key reading
where
  /-- Put a measurement into a reading of a log. -/
  store (log : WeatherLog) (key : MapKey) (reading : Record) : WeatherLog × Except Error Unit :=
    match Record.set reading measurement (.float x) with
    | .ok reading => (Table.put log key (.record reading), .ok ())
    | .error e => (log, .error e)

/-- A measurement of an hour. -/
structure Measurement where
  hour : Instant
  name : String
  value : Float

/-- Set measurements in order, up to the first that fails. -/
def recordAll (d : Domain) (log : WeatherLog) :
    List Measurement → WeatherLog × Except Error Unit
  | [] => (log, .ok ())
  | m :: ms =>
    match recordMeasurement d log m.hour m.name m.value with
    | (log, .ok ()) => recordAll d log ms
    | (log, .error e) => (log, .error e)

/-- The instant up to which readings are too old, if the calendar has it. -/
def pruneLimit? (now : Instant) (maxAge : Option Int) : Option Instant := do
  let hours := maxAge.getD defaultMaxAge + 1
  if !Decimal.fitsInt hours then failure
  now.sub? (← TimeUnit.hour.times? hours)

/-- A log without the readings that are too old, and their number. -/
def pruneWeather (log : WeatherLog) (now : Instant) (maxAge : Option Int) : WeatherLog × Nat :=
  match pruneLimit? now maxAge with
  | none => (log, 0)
  | some limit =>
    let kept := log.filter fun e => limit.text < e.1.text
    (kept, log.length - kept.length)

end GardenMap.Farm
