import GardenMap.Conversion.Domain
import GardenMap.Farm.BotState

/-!
# Crops

Crops as the crop database describes them.
-/

namespace GardenMap.Farm

namespace Id

def attributes : SchemaId := ⟨"Attributes", 0⟩

def entityBase : SchemaId := ⟨"EntityBase", 0⟩

def cropAttributes : SchemaId := ⟨"CropAttributes", 0⟩

def cropRelationship : SchemaId := ⟨"CropRelationship", 0⟩

def crop : SchemaId := ⟨"Crop", 0⟩

end Id

def attributes : Schema where
  id := Id.attributes
  bases := []
  fields := [⟨"name", .str⟩]

def entityBase : Schema where
  id := Id.entityBase
  bases := []
  fields := [⟨"type", .str⟩, ⟨"id", .str⟩, ⟨"attributes", .record Id.attributes⟩,
    ⟨"links", .optional (.map .str (.record Id.entity))⟩]

def cropAttributes : Schema where
  id := Id.cropAttributes
  bases := [Id.attributes]
  fields := [⟨"slug", .str⟩, ⟨"binomial_name", .optional .str⟩,
    ⟨"common_names", .optional (.list .str)⟩, ⟨"description", .optional .str⟩,
    ⟨"sun_requirements", .optional .str⟩, ⟨"sowing_method", .optional .str⟩,
    ⟨"spread", .optional .int⟩, ⟨"row_spacing", .optional .int⟩, ⟨"height", .optional .int⟩,
    ⟨"processing_pictures", .int⟩, ⟨"guides_count", .int⟩, ⟨"main_image_path", .str⟩,
    ⟨"taxon", .optional .str⟩, ⟨"tags_array", .list .str⟩, ⟨"growing_degree_days", .int⟩,
    ⟨"svg_icon", .optional .str⟩]

def cropRelationship : Schema where
  id := Id.cropRelationship
  bases := []
  fields := [⟨"links", .map .str (.record Id.entity)⟩, ⟨"data", .optional (.list .str)⟩]

def crop : Schema where
  id := Id.crop
  bases := [Id.entityBase]
  fields := [⟨"attributes", .record Id.cropAttributes⟩,
    ⟨"relationships", .optional (.map .str (.record Id.cropRelationship))⟩]

def cropSchemas : Catalog := [crop, cropRelationship, cropAttributes, entityBase, attributes]

/-- Whether an entry of a response is the crop with a slug. -/
def isCrop (slug : String) (entry : Json) : Bool :=
  (entry.entry? "type").bind Json.str? = some "crops" &&
    ((entry.entry? "attributes").bind (Json.entry? · "slug")).bind Json.str? = some slug

/-- The crop with a slug in a response, if it is there. -/
def findCrop (d : Domain) (response : Json) (slug : String) : Except Error (Option Record) :=
  match ((response.entry? "data").bind Json.items?).bind (List.find? (isCrop slug)) with
  | some entry => (d.record Id.crop entry).map some
  | none => .ok none

def cropSlug? (crop : Record) : Option String :=
  ((crop.get? "attributes").bind Value.record?).bind fun a => a.str? "slug"

end GardenMap.Farm
