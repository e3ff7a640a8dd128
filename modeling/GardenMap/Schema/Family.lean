import GardenMap.Counting
import GardenMap.Schema.Catalog

/-!
# Families

Which schemas belong to a family, and which one a tag names. Candidates are the declared members
and those registered later; a candidate belongs when a chain of candidates links it to the base.
The index from tags to members is found by walking these links breadth first, where the first
schema of a name stays. A roster keeps the registrations and the index once it is known.
-/

namespace GardenMap

/-- The members of a family by tag. -/
abbrev FamilyIndex := List (String × SchemaId)

namespace Family

/-- The candidates that directly extend a schema. -/
def children (c : Catalog) (candidates : List SchemaId) (parent : SchemaId) : List SchemaId :=
  candidates.filter fun s => c.directlyExtends? s parent

/-- Put a schema into the index and the queue, unless it is the base or its name is taken. -/
def enrol (base : SchemaId) (state : FamilyIndex × List SchemaId) (s : SchemaId) :
    FamilyIndex × List SchemaId :=
  if s = base || Table.has state.1 s.name then state
  else (Table.put state.1 s.name s, state.2 ++ [s])

/-- The number of candidates whose names are not taken. -/
def untaken (candidates : List SchemaId) (index : FamilyIndex) : Nat :=
  candidates.countP fun s => !Table.has index s.name

theorem enrol_le {candidates : List SchemaId} {s : SchemaId} (hs : s ∈ candidates)
    (base : SchemaId) (index : FamilyIndex) (queue : List SchemaId) :
    untaken candidates (enrol base (index, queue) s).1 + (enrol base (index, queue) s).2.length
      ≤ untaken candidates index + queue.length := by
  unfold enrol
  split
  · exact Nat.le_refl _
  · next h =>
    simp only [Bool.or_eq_true, decide_eq_true_eq, not_or] at h
    have hlt : untaken candidates (Table.put index s.name s) < untaken candidates index := by
      refine countP_lt_countP hs (fun x hx => ?_) ?_ ?_
      · rw [Table.has_put, Bool.not_or, Bool.and_eq_true] at hx
        exact hx.2
      · simp [Table.has_put]
      · simpa using h.2
    simp only [List.length_append, List.length_cons, List.length_nil]
    omega

theorem enrolAll_le {candidates : List SchemaId} (base : SchemaId) (ss : List SchemaId)
    (hs : ∀ s ∈ ss, s ∈ candidates) (index : FamilyIndex) (queue : List SchemaId) :
    untaken candidates (ss.foldl (enrol base) (index, queue)).1
        + (ss.foldl (enrol base) (index, queue)).2.length
      ≤ untaken candidates index + queue.length := by
  induction ss generalizing index queue with
  | nil => exact Nat.le_refl _
  | cons s ss ih =>
    have h1 := enrol_le (hs s (by simp)) base index queue
    have h2 := ih (fun t ht => hs t (by simp [ht])) (enrol base (index, queue) s).1
      (enrol base (index, queue) s).2
    simp only [List.foldl_cons]
    exact Nat.le_trans h2 h1

/-- Take the schemas of the queue one by one and enrol their children. -/
def walk (c : Catalog) (base : SchemaId) (candidates : List SchemaId) (index : FamilyIndex)
    (queue : List SchemaId) : FamilyIndex :=
  match queue with
  | [] => index
  | parent :: rest =>
    let next := (children c candidates parent).foldl (enrol base) (index, rest)
    walk c base candidates next.1 next.2
termination_by untaken candidates index + queue.length
decreasing_by
  have := enrolAll_le base (children c candidates parent)
    (fun s hs => (List.mem_filter.1 hs).1) index rest
  simp only [List.length_cons]
  omega

/-- The members by tag, with some schemas registered beside the declared ones. -/
def indexOf (c : Catalog) (f : Family) (registered : List SchemaId) : FamilyIndex :=
  walk c f.base (f.declared ++ registered) [] [f.base]

/-- The member that a tag names in an index, or the base. -/
def select (f : Family) (index : FamilyIndex) (tag : Option String) : SchemaId :=
  (tag.bind (Table.get? index)).getD f.base

end Family

/-- The runtime state of a family. -/
structure Roster where
  /-- The schemas registered at run time, in order. -/
  registered : List SchemaId
  /-- The index, once it has been asked for. -/
  index : Option FamilyIndex

namespace Roster

def empty : Roster := ⟨[], none⟩

/-- Register a schema. A new one makes the index out of date. -/
def register (r : Roster) (s : SchemaId) : Roster :=
  if r.registered.contains s then r else ⟨r.registered ++ [s], none⟩

def isBuilt (r : Roster) : Bool := r.index.isSome

def indexed (r : Roster) (c : Catalog) (f : Family) : FamilyIndex × Roster :=
  match r.index with
  | some index => (index, r)
  | none =>
    let index := f.indexOf c r.registered
    (index, { r with index := some index })

/-- The member that a tag names: the base for a missing or unknown tag. -/
def resolve (r : Roster) (c : Catalog) (f : Family) (tag : Option String) : SchemaId × Roster :=
  match tag with
  | none => (f.base, r)
  | some tag =>
    let (index, r) := r.indexed c f
    (f.select index (some tag), r)

/-- The members, in the order of their tags. The base is none of them. -/
def members (r : Roster) (c : Catalog) (f : Family) : List SchemaId × Roster :=
  let (index, r) := r.indexed c f
  (index.map (·.2), r)

end Roster

end GardenMap
