import GardenMap.Conversion.Error

/-!
# Converters and the registry that keeps them

A converter says how payloads become values of a shape. It is a finite tree: a shape that is part
of itself has none. The registry builds the converter of a shape out of those of its parts and
keeps each one, so that no shape is built twice.

Building follows record shapes into the fields of their schemas, which may lead back. The stack
holds the shapes being built: one that is met again contains itself. It also bounds the search, as
each record shape of the catalog enters the stack at most once.
-/

namespace GardenMap

/-- How payloads become values of a shape. -/
inductive Converter where
  | scalar (kind : Scalar)
  /-- Every payload becomes the absent value. -/
  | absent
  /-- Absent payloads and the text `None` become the absent value. -/
  | nullable (inner : Converter)
  | list (item : Converter)
  | map (key : Scalar) (value : Converter)
  | record (schema : SchemaId) (fields : List (String × Converter))

def Converter.fields : Converter → List (String × Converter)
  | record _ fields => fields
  | _ => []

/-- Converters by shape, and how many have been built. -/
structure Registry where
  cells : List (Shape × Converter)
  builds : Nat

namespace Registry

def empty : Registry := ⟨[], 0⟩

def find? (r : Registry) (s : Shape) : Option Converter := r.cells.lookup s

def cached (r : Registry) : Nat := r.cells.length

def keep (r : Registry) (s : Shape) (c : Converter) : Registry := ⟨(s, c) :: r.cells, r.builds + 1⟩

/-- Build a shape around the converter of a part and keep it. -/
def wrap (s : Shape) (f : Converter → Converter) :
    Except ShapeError Converter × Registry → Except ShapeError Converter × Registry
  | (.ok c, r) => (.ok (f c), r.keep s (f c))
  | (.error e, r) => (.error e, r)

def refuse (r : Registry) (s : Shape) (fault : ShapeFault) :
    Except ShapeError Converter × Registry := (.error ⟨s, fault⟩, r)

end Registry

namespace Shape

/-- Whether a shape is the record shape of a schema. -/
def isRecordOf (s : Shape) (id : SchemaId) : Bool :=
  match s with
  | record schema => schema == id
  | _ => false

/-- The number of schemas of a catalog whose record shapes are not on the stack. -/
def unvisited (c : Catalog) (stack : List Shape) : Nat :=
  c.countP fun s => !stack.any (·.isRecordOf s.id)

theorem unvisited_cons_le (c : Catalog) (s : Shape) (stack : List Shape) :
    unvisited c (s :: stack) ≤ unvisited c stack :=
  List.countP_mono_left fun x _ h => by
    simp only [List.any_cons, Bool.not_or, Bool.and_eq_true] at h
    exact h.2

theorem unvisited_cons_lt {c : Catalog} {id : SchemaId} {stack : List Shape} {s : Schema}
    (hs : c.find? id = some s) (h : record id ∉ stack) :
    unvisited c (record id :: stack) < unvisited c stack := by
  have hid : s.id = id := by simpa using List.find?_some hs
  refine countP_lt_countP (List.mem_of_find?_eq_some hs) (fun x hx => ?_) ?_ ?_
  · simp only [List.any_cons, Bool.not_or, Bool.and_eq_true] at hx
    exact hx.2
  · simp [isRecordOf, hid]
  · simp only [Bool.not_eq_true', List.any_eq_false]
    intro t ht
    cases t <;> simp only [isRecordOf, Bool.false_eq_true, not_false_eq_true]
    rintro hr
    rw [beq_iff_eq] at hr
    subst hr
    exact h (hid ▸ ht)

/-- Whether a union has the null shape among its members. -/
def hasNull (members : List Shape) : Bool := members.any (· == null)

def concrete (members : List Shape) : List Shape := members.filter (· ≠ null)

theorem sizeOf_lt_of_concrete {members : List Shape} {only : Shape}
    (h : concrete members = [only]) : sizeOf only < sizeOf (union members) := by
  have hmem : only ∈ members := (List.mem_filter.1 (h ▸ List.mem_singleton_self only)).1
  have := List.sizeOf_lt_of_mem hmem
  simp only [union.sizeOf_spec]
  omega

end Shape

theorem Catalog.allFields_of_find?_eq_none {c : Catalog} {id : SchemaId} (h : c.find? id = none) :
    c.allFields id = [] := by
  have hl : ∀ c : Catalog, c.find? id = none → c.lineage id = [] := by
    intro c hc
    induction c with
    | nil => rfl
    | cons s older ih =>
      simp only [Catalog.find?, List.find?_cons] at hc
      split at hc
      · cases hc
      · next hne =>
        have hne : s.id ≠ id := by simpa using hne
        simp only [Catalog.lineage, if_neg hne]
        exact ih hc
  simp [Catalog.allFields, hl c h]

namespace Registry

open Shape

mutual

/-- The converter of a shape, and the registry that keeps it and those of its parts. Parts that
were built stay even when the whole fails. -/
def resolve (c : Catalog) (stack : List Shape) (shape : Shape) (r : Registry) :
    Except ShapeError Converter × Registry :=
  match r.find? shape with
  | some found => (.ok found, r)
  | none =>
    if h : shape ∈ stack then r.refuse shape .selfContaining
    else
      match shape, h with
      | .any, _ => wrap .any id (.ok (.scalar .any), r)
      | .bool, _ => wrap .bool id (.ok (.scalar .bool), r)
      | .int, _ => wrap .int id (.ok (.scalar .int), r)
      | .float, _ => wrap .float id (.ok (.scalar .float), r)
      | .str, _ => wrap .str id (.ok (.scalar .str), r)
      | .date, _ => wrap .date id (.ok (.scalar .date), r)
      | .datetime, _ => wrap .datetime id (.ok (.scalar .datetime), r)
      | .null, _ => r.refuse .null .bareNull
      | .optional inner, _ =>
        wrap (.optional inner) .nullable (resolve c (.optional inner :: stack) inner r)
      | .list item, _ => wrap (.list item) .list (resolve c (.list item :: stack) item r)
      | .map key value, _ =>
        match key.key? with
        | none => r.refuse (.map key value) (.badKey key)
        | some kind =>
          match resolve c (.map key value :: stack) key r with
          | (.error e, r) => (.error e, r)
          | (.ok _, r) =>
            wrap (.map key value) (.map kind) (resolve c (.map key value :: stack) value r)
      | .union members, _ =>
        match _ : concrete members with
        | [] => wrap (.union members) id (.ok .absent, r)
        | [only] =>
          wrap (.union members) (if hasNull members then .nullable else id)
            (resolve c (.union members :: stack) only r)
        | _ => r.refuse (.union members) .manyMembers
      | .record schema, _ =>
        match _ : c.find? schema with
        | none => wrap (.record schema) id (.ok (.record schema []), r)
        | some _ =>
          match resolveFields c (.record schema :: stack) (c.allFields schema) r with
          | (.error e, r) => (.error e, r)
          | (.ok fields, r) => wrap (.record schema) id (.ok (.record schema fields), r)
termination_by (unvisited c stack, sizeOf shape)
decreasing_by
  all_goals first
    | exact Prod.Lex.left _ _ (unvisited_cons_lt (by assumption) (by assumption))
    | (rcases Nat.lt_or_eq_of_le (unvisited_cons_le c _ stack) with hlt | heq
       · exact Prod.Lex.left _ _ hlt
       · rw [heq]
         refine Prod.Lex.right _ ?_
         first
           | exact sizeOf_lt_of_concrete (by assumption)
           | (simp; done)
           | (simp; omega))

/-- The converters of fields, in order, up to the first that has none. -/
def resolveFields (c : Catalog) (stack : List Shape) (fields : List Field) (r : Registry) :
    Except ShapeError (List (String × Converter)) × Registry :=
  match fields with
  | [] => (.ok [], r)
  | f :: fs =>
    match resolve c stack f.shape r with
    | (.error e, r) => (.error e, r)
    | (.ok conv, r) =>
      match resolveFields c stack fs r with
      | (.error e, r) => (.error e, r)
      | (.ok rest, r) => (.ok ((f.name, conv) :: rest), r)
termination_by (unvisited c stack, sizeOf fields)
decreasing_by
  · refine Prod.Lex.right _ ?_
    cases f
    simp only [List.cons.sizeOf_spec, Field.mk.sizeOf_spec]
    omega
  · refine Prod.Lex.right _ ?_
    simp only [List.cons.sizeOf_spec]
    omega

end

end Registry

def Catalog.converter (c : Catalog) (shape : Shape) : Except ShapeError Converter :=
  (Registry.empty.resolve c [] shape).1

end GardenMap
