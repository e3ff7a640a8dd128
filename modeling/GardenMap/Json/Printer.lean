import GardenMap.Json.Basic
import GardenMap.Decimal.Style
import GardenMap.Text.Quoted

/-!
# Wire text

The compact text of a wire value: no blanks, entries in key order.
-/

namespace GardenMap.Json

open GardenMap

def boolText (b : Bool) : String := if b then "true" else "false"

mutual

def text : Json → String
  | .null => "null"
  | .bool b => boolText b
  | .int i => Decimal.intText i
  | .float x => Decimal.NumberStyle.wire.text x
  | .str s => Text.wireQuoted s
  | .arr items => "[" ++ ",".intercalate (itemTexts items) ++ "]"
  | .obj entries => "\x7b" ++ ",".intercalate (entryTexts entries) ++ "\x7d"

def itemTexts : List Json → List String
  | [] => []
  | v :: vs => text v :: itemTexts vs

def entryTexts : List (String × Json) → List String
  | [] => []
  | (k, v) :: es => (Text.wireQuoted k ++ ":" ++ text v) :: entryTexts es

end

end GardenMap.Json
