import GardenMap.Conversion.Domain
import GardenMap.Farm.Device
import GardenMap.Text.CaseFold

/-!
# Settings

A farm program gets its inputs as environment variables `APP_key`, where `APP` is its name with `_`
for `-`, in any case. Keys are letters and underscores and become lower case. The key `action` says
how to run: any value but `real` is a test run, in which nothing is written.

Left out: a matcher with a bound on its size, for which a name can be too long. It takes in no
variable at all then, and the run is no test. Here names of all lengths are matched.
-/

namespace GardenMap.Farm

/-- The inputs of a program. -/
structure Settings where
  app : String
  /-- Whether nothing may be written. -/
  testMode : Bool
  /-- The other inputs, as text. -/
  raw : Object

namespace Settings

def actionKey : List Char := "action".toList

def realAction : List Char := "real".toList

/-- What the names of the variables of a program start with, up to the underscore. -/
def leading (app : String) : List Char := app.toList.map fun c => if c = '-' then '_' else c

def isKeyChar (c : Char) : Bool := c = '_' || Text.isLetter c

/-- The key that a variable of a program carries, in ASCII lower case. -/
def key? (app name : String) : Option (List Char) :=
  let start := leading app
  let s := name.toList
  match s.drop start.length with
  | '_' :: key =>
    if Text.sameFolded (s.take start.length) start && !key.isEmpty && key.all isKeyChar then
      some (Text.lower key)
    else none
  | _ => none

def add (settings : Settings) (input : String × String) : Settings :=
  match key? settings.app input.1 with
  | none => settings
  | some key =>
    if key = actionKey then
      if Text.lower input.2.toList = realAction then settings
      else { settings with testMode := true }
    else
      { settings with raw := Table.put settings.raw (String.ofList key) (.str input.2) }

/-- The settings of a program among the variables of an environment. -/
def ofVariables (app : String) (vars : List (String × String)) : Settings :=
  vars.foldl add ⟨app, false, []⟩

def record (settings : Settings) (d : Domain) (schema : SchemaId) : Except Error Record :=
  d.record schema (.obj settings.raw)

end Settings

/-- The schema of the inputs of the program that visits plants. -/
def Id.visitConfig : SchemaId := ⟨"MlhConfig", 0⟩

/-- The inputs of the program that visits plants. -/
def visitConfig : Schema where
  id := Id.visitConfig
  bases := []
  fields := [⟨"query", .optional (.map .str .any)⟩, ⟨"save_meta", .optional (.map .str .any)⟩,
    ⟨"travel_height", .optional .int⟩, ⟨"init", .optional (.record Id.sequence)⟩,
    ⟨"before", .optional (.record Id.sequence)⟩, ⟨"after", .optional (.record Id.sequence)⟩,
    ⟨"end", .optional (.record Id.sequence)⟩, ⟨"offset_x", .optional .int⟩,
    ⟨"offset_y", .optional .int⟩]

end GardenMap.Farm
