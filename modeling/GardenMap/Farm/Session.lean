import GardenMap.Farm.Schemas
import GardenMap.Store.Service

/-!
# Sessions

One run of a farm program against a point service. In a test run everything is read as usual, but
no point is written: writing hands back the record that was given.
-/

namespace GardenMap.Farm

/-- What a run goes by. -/
structure Session where
  settings : Settings
  domain : Domain
  now : Instant

namespace Session

variable {σ : Type} (session : Session) (service : PointService σ)

/-- The records of wire values, up to the first that is none. -/
def records (schema : SchemaId) (values : List Json) : Except Error (List Record) :=
  values.mapM (session.domain.record schema)

def recordList (schema : SchemaId) (v : Json) : Except Error (List Record) :=
  match v with
  | .arr values => session.records schema values
  | v => .error (.rejected schema.name v .notList)

/-! ## Points -/

/-- The points that have the entries of a filter, each under the schema of its tag. -/
def points (filter : Object) (s : σ) : Except Error (List Record) × σ :=
  match service.search filter s with
  | (.error text, s) => (.error (.transport text), s)
  | (.ok hits, s) => (session.records Id.point hits, s)

/-- The points with a tag that have the entries of a filter. -/
def pointsTagged (tag : String) (filter : Object) (s : σ) : Except Error (List Record) × σ :=
  session.points service (Table.put filter pointerType (.str tag)) s

/-- The generic points that have the entries of a filter. -/
def genericPointers (filter : Object) (s : σ) : Except Error (List Record) × σ :=
  session.pointsTagged service genericPointer filter s

/-- The plants that have the entries of a filter. -/
def plants (filter : Object) (s : σ) : Except Error (List Record) × σ :=
  session.pointsTagged service Id.plant.name filter s

/-- The places for tools that have the entries of a filter. -/
def toolSlots (filter : Object) (s : σ) : Except Error (List Record) × σ :=
  session.pointsTagged service Id.toolSlot.name filter s

/-- The records of a schema that satisfy clauses. -/
def query (schema : SchemaId) (clauses : Json) (s : σ) : Except Error (List Record) × σ :=
  match Plan.compileRaw session.domain schema session.now clauses with
  | .error e => (.error e, s)
  | .ok plan => plan.run session.domain service s

/-- The record of a point as the service stored it. -/
def stored (schema : SchemaId) (answer : Except String Json × σ) : Except Error Record × σ :=
  match answer with
  | (.error text, s) => (.error (.transport text), s)
  | (.ok v, s) => (session.domain.record schema v, s)

/-- Write a point: change it when it has an id, otherwise add it. -/
def putPoint (point : Record) (s : σ) : Except Error Record × σ :=
  if session.settings.testMode then (.ok point, s)
  else
    match point.int? "id" with
    | some id => session.stored Id.point (service.update id point.toRaw s)
    | none => session.stored Id.point (service.create point.toRaw s)

/-- The payload of a new plant. Null entries are left out. -/
def plantPayload (x y : Float) (extra : List (String × Json)) : Json :=
  .obj (Table.putAll
    (Table.ofList [(pointerType, .str Id.plant.name), ("x", .ofFloat x), ("y", .ofFloat y)])
    (extra.filter fun e => !e.2.isNull))

def addPlant (x y : Float) (extra : List (String × Json)) (s : σ) : Except Error Record × σ :=
  let payload := plantPayload x y extra
  if session.settings.testMode then (session.domain.record Id.plant payload, s)
  else session.stored Id.plant (service.create payload s)

/-! ## Device data -/

def sequences (v : Json) : Except Error (List Record) := session.recordList Id.sequence v

def sequenceByName (v : Json) (name : String) : Except Error (Option Record) := do
  return findByName (← session.sequences v) name

def tools (v : Json) : Except Error (List Record) := session.recordList Id.tool v

def botState (v : Json) : Except Error Record := session.domain.record Id.botStateTree v

/-! ## Weather -/

/-- The point that keeps the weather, or a new one that is not stored yet. -/
def weatherPoint (s : σ) : Except Error Record × σ :=
  match session.genericPointers service [("name", .str weatherPointName)] s with
  | (.error e, s) => (.error e, s)
  | (.ok (point :: _), s) => (.ok point, s)
  | (.ok [], s) => (session.domain.recordWith Id.point [] [("name", .str weatherPointName)], s)

/-- A log after an update and without the readings that are too old. -/
def refreshed (maxAge : Option Int) (update : WeatherLog → Except Error WeatherLog)
    (point : Record) : Except Error Record := do
  let log ← update (← loadWeather session.domain point)
  storeWeather point (pruneWeather log session.now maxAge).1

/-- Load the readings, update them, drop the old ones and write the point. -/
def refreshWeather (maxAge : Option Int) (update : WeatherLog → Except Error WeatherLog) (s : σ) :
    Except Error Record × σ :=
  match session.weatherPoint service s with
  | (.error e, s) => (.error e, s)
  | (.ok point, s) =>
    match session.refreshed maxAge update point with
    | .error e => (.error e, s)
    | .ok point => session.putPoint service point s

end Session

end GardenMap.Farm
