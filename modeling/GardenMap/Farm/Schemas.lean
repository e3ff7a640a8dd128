import GardenMap.Farm.Crops
import GardenMap.Farm.Settings
import GardenMap.Farm.Weather

/-!
# The schemas of the farm
-/

namespace GardenMap.Farm

def schemas : Catalog :=
  visitConfig :: weatherSchemas ++ cropSchemas ++ botStateSchemas ++ deviceSchemas ++ pointSchemas

/-- The schemas of the farm, with nothing registered in the family of points. -/
def domain : Domain := ⟨schemas, fun _ => []⟩

end GardenMap.Farm
