import GardenMap.Store.Service

/-!
# The point store

A point service that keeps its points in a list, in the order they came. Searching compares entries
exactly; where both the filter and the point have a mapping, only the keys of the filter count.
-/

namespace GardenMap

mutual

/-- Whether a value is what a filter asks for. -/
def meets : Json → Json → Bool
  | .obj wanted, .obj entries => meetsAll wanted entries
  | wanted, v => v == wanted

/-- Whether a mapping has every entry of a filter. A missing entry counts as null. -/
def meetsAll : List (String × Json) → Object → Bool
  | [], _ => true
  | (key, wanted) :: rest, entries =>
    meets wanted ((Table.get? entries key).getD .null) && meetsAll rest entries

end

/-- The points of a store. -/
structure PointStore where
  points : List Object
  nextId : Int
  /-- How many searches were made. -/
  searches : Nat

namespace PointStore

def empty : PointStore := ⟨[], 1, 0⟩

/-- The whole number, 64 bits with sign, that a sum becomes. -/
def wrap (i : Int) : Int := Int.bmod i (Nat.pow 2 64)

def id? (point : Object) : Option Int := (Table.get? point "id").bind Json.int?

/-- The message about a point that is no mapping. -/
def notObject (v : Json) : String := "point must be an object, got " ++ v.text

/-- Put in a point as it is. New points get greater ids. -/
def seed (s : PointStore) (v : Json) : Except String PointStore :=
  match v with
  | .obj point =>
    let nextId :=
      match id? point with
      | some id => max s.nextId (wrap (id + 1))
      | none => s.nextId
    .ok { s with points := s.points ++ [point], nextId := nextId }
  | v => .error (notObject v)

def seedAll (s : PointStore) (points : List Json) : Except String PointStore :=
  points.foldlM seed s

def all (s : PointStore) : List Json := s.points.map .obj

/-- The points that have the entries of a filter. -/
def search (filter : Object) (s : PointStore) : List Json × PointStore :=
  ((s.points.filter (meetsAll filter)).map .obj, { s with searches := s.searches + 1 })

def stamped (point : Object) (id : Int) (now : Instant) : Object :=
  Table.putAll point
    [("id", .int id), ("created_at", .str now.text), ("updated_at", .str now.text)]

def create (now : Instant) (v : Json) (s : PointStore) : Except String Json × PointStore :=
  match v with
  | .obj entries =>
    let point := stamped entries s.nextId now
    (.ok (.obj point), { s with points := s.points ++ [point], nextId := wrap (s.nextId + 1) })
  | v => (.error (notObject v), s)

/-- A point with entries put over it. Its id and creation time stay. -/
def overlaid (point entries : Object) (now : Instant) : Object :=
  Table.put
    (Table.putAll point (entries.filter fun e => e.1 ≠ "id" && e.1 ≠ "created_at"))
    "updated_at" (.str now.text)

def updateFirst (id : Int) (f : Object → Object) : List Object → Option (Object × List Object)
  | [] => none
  | point :: points =>
    if id? point = some id then some (f point, f point :: points)
    else (updateFirst id f points).map fun (changed, rest) => (changed, point :: rest)

def update (now : Instant) (id : Int) (v : Json) (s : PointStore) :
    Except String Json × PointStore :=
  match v with
  | .obj entries =>
    match updateFirst id (overlaid · entries now) s.points with
    | some (changed, points) => (.ok (.obj changed), { s with points := points })
    | none => (.error ("point " ++ Decimal.intText id ++ " not found"), s)
  | v => (.error (notObject v), s)

/-- A store as a point service, at a given time. -/
def service (now : Instant) : PointService PointStore where
  search filter s :=
    let (hits, s) := s.search filter
    (.ok hits, s)
  create v s := s.create now v
  update id v s := s.update now id v

end PointStore

end GardenMap
