import GardenMap.Query.Compile

/-!
# Point services

A point service searches, creates and updates points somewhere else. It is given by what it does to
a state of its own, so that whatever is proved of a run holds for every service.
-/

namespace GardenMap

/-- A service with states in `σ`. Failures are texts. -/
structure PointService (σ : Type) where
  /-- The points that have the entries of a filter. -/
  search : Object → σ → Except String (List Json) × σ
  /-- Add a point and give it back as stored. -/
  create : Json → σ → Except String Json × σ
  /-- Change the point with an id and give it back as stored. -/
  update : Int → Json → σ → Except String Json × σ

namespace Plan

/-- The records of hits that satisfy the predicates, up to the first error. -/
def select (d : Domain) (plan : Plan) : List Json → Except Error (List Record)
  | [] => .ok []
  | hit :: hits => do
    let r ← d.record plan.target hit
    let wanted ← plan.holds d.catalog r
    let rest ← select d plan hits
    return if wanted then r :: rest else rest

/-- Search with the filter, and test the hits here. Their order stays. -/
def run {σ : Type} (d : Domain) (plan : Plan) (service : PointService σ) (s : σ) :
    Except Error (List Record) × σ :=
  match service.search plan.filter s with
  | (.error text, s) => (.error (.transport text), s)
  | (.ok hits, s) => (plan.select d hits, s)

end Plan

end GardenMap
