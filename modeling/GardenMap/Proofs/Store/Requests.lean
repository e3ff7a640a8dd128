import GardenMap.Store.Service

/-!
# Requests to a service

What is asked of a point service, as data: a run against a service is then a list of requests, and
a service that notes what it is asked shows which of them were made.
-/

namespace GardenMap

/-- A request to a point service. -/
inductive PointRequest where
  | search (filter : Object)
  | create (v : Json)
  | update (id : Int) (v : Json)

def PointRequest.isSearch : PointRequest → Bool
  | search _ => true
  | _ => false

namespace PointService

variable {σ : Type} (service : PointService σ)

/-- What a service answers to a request: the points that it found, or the one that it wrote. -/
def answer : PointRequest → σ → Except String (List Json) × σ
  | .search filter, s => service.search filter s
  | .create v, s => ((service.create v s).1.map fun v => [v], (service.create v s).2)
  | .update id v, s => ((service.update id v s).1.map fun v => [v], (service.update id v s).2)

/-- A service together with the requests that were made to it, in order. -/
def recorded : PointService (σ × List PointRequest) where
  search filter s :=
    ((service.search filter s.1).1, (service.search filter s.1).2, s.2 ++ [.search filter])
  create v s := ((service.create v s.1).1, (service.create v s.1).2, s.2 ++ [.create v])
  update id v s := ((service.update id v s.1).1, (service.update id v s.1).2, s.2 ++ [.update id v])

end PointService

end GardenMap
