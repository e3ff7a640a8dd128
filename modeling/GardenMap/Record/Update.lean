import GardenMap.Conversion.Domain
import GardenMap.Phrase.Offset

/-!
# Updates

A record takes keyed updates. Text that is a relative offset becomes the canonical instant, or in
date fields the date, that it denotes. A key with `+` in front appends to the value there. Declared
fields are converted; other keys go to the metadata field of the schema, or to the extra keys when
it has none, and null deletes them there.
-/

namespace GardenMap

/-- The mark in front of a key that makes an update append. -/
def appendMark : Char := '+'

/-- A key without a mark, and whether it had it. -/
def splitMark (mark : Char) (key : String) : String × Bool :=
  match key.toList with
  | c :: rest => if c = mark then (String.ofList rest, true) else (key, false)
  | [] => (key, false)

theorem splitMark_of_head?_ne {mark : Char} {key : String} (h : key.toList.head? ≠ some mark) :
    splitMark mark key = (key, false) := by
  unfold splitMark
  cases hk : key.toList with
  | nil => rfl
  | cons c rest =>
    have hc : c ≠ mark := by
      rintro rfl
      exact h (by rw [hk]; rfl)
    simp only [if_neg hc]

namespace Record

/-- The error of a name that the schema of a record does not declare. -/
def undeclared (r : Record) (name : String) : Error :=
  .rejected r.schema.name (.str name) (.undeclared name r.schema.name)

def set (r : Record) (name : String) (v : Value) : Except Error Record :=
  match r.set? name v with
  | some r => .ok r
  | none => .error (r.undeclared name)

theorem set_of_has {r : Record} {name : String} (h : (r.get? name).isSome = true) (v : Value) :
    r.set name v = .ok (r.put name v) := by
  unfold set set?
  rw [if_pos h]

theorem set_of_not_has {r : Record} {name : String} (h : r.get? name = none) (v : Value) :
    r.set name v = .error (r.undeclared name) := by
  unfold set set?
  rw [h]
  rfl

/-- An undeclared key: in the metadata field when the schema has one, otherwise among the extra
keys. -/
def metadata? (c : Catalog) (r : Record) (key : String) : Option Value :=
  match c.metadataField? r.schema with
  | some field =>
    ((r.get? field).bind Value.entries?).bind fun entries => Table.get? entries (.str key)
  | none => Table.get? r.extra key

/-- The text of a relative offset made absolute, in a date field by `dated`. Other values stay.
Nothing when the result leaves the calendar. -/
def resolveRelative (now : Instant) (dated : Bool) (v : Json) : Option Json :=
  match v with
  | .str text =>
    if dated then
      match Phrase.readDayOffset text.toList with
      | .ok (some span) => (now.add? span).map fun t => .str t.date.text
      | _ => some v
    else
      match Phrase.readOffset text.toList with
      | .ok (some span) => (now.add? span).map fun t => .str t.text
      | _ => some v
  | v => some v

/-- A record, and whether the last step on it succeeded. -/
abbrev Step (ε : Type) := Record × Except ε Unit

/-- Update a declared field. A failing append leaves the field absent. -/
def updateField (d : Domain) (r : Record) (f : Field) (v : Json) (append : Bool) :
    Step ConvertError :=
  match d.catalog.converter f.shape with
  | .error e => (r, .error (.here (.unresolved e)))
  | .ok conv =>
    match d.apply conv v with
    | .error e => (r, .error e)
    | .ok typed =>
      if append then
        match ((r.get? f.name).getD .null).append typed with
        | .ok sum => (r.put f.name sum, .ok ())
        | .error e => (r.put f.name .null, .error (.here (.append e)))
      else (r.put f.name typed, .ok ())

/-- Update an entry of a bucket. A failing append leaves no entry. -/
def updateBucket {κ : Type} [Ord κ] (bucket : List (κ × Value)) (key : κ) (v : Json)
    (append : Bool) : List (κ × Value) × Except ConvertError Unit :=
  if append then
    match ((Table.get? bucket key).getD .null).append (.raw v) with
    | .ok sum => (Table.put bucket key sum, .ok ())
    | .error e => (Table.erase bucket key, .error (.here (.append e)))
  else if v.isNull then (Table.erase bucket key, .ok ())
  else (Table.put bucket key (.raw v), .ok ())

/-- Update an undeclared key. An absent metadata field becomes an empty mapping first. -/
def updateMetadata (c : Catalog) (r : Record) (key : String) (v : Json) (append : Bool) :
    Step ConvertError :=
  match c.metadataField? r.schema with
  | none =>
    let (extra, outcome) := updateBucket r.extra key v append
    ({ r with extra := extra }, outcome)
  | some field =>
    let held := (r.get? field).getD .null
    let held := if held.isNull then .map [] else held
    match held with
    | .map entries =>
      let (entries, outcome) := updateBucket entries (.str key) v append
      (r.put field (.map entries), outcome)
    | other => (r.put field other, .error (.here (.bucket field other.kind)))

def update (d : Domain) (now : Instant) (r : Record) (marked : String) (v : Json) : Step Error :=
  let (key, append) := splitMark appendMark marked
  let declared := d.catalog.field? r.schema key
  match resolveRelative now (declared.any fun f => f.shape.isDate) v with
  | none => (r, .error .outOfCalendar)
  | some v =>
    let (r', outcome) :=
      match declared with
      | some f => updateField d r f v append
      | none => updateMetadata d.catalog r key v append
    (r', outcome.mapError fun e => .rejected r.schema.name v (.misfit (e.under key)))

/-- Updates in order, up to the first that fails. The record keeps those before it. -/
def apply (d : Domain) (now : Instant) (r : Record) : List (String × Json) → Step Error
  | [] => (r, .ok ())
  | (key, v) :: updates =>
    match update d now r key v with
    | (r, .ok ()) => apply d now r updates
    | (r, .error e) => (r, .error e)

end Record

end GardenMap
