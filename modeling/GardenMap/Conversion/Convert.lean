import GardenMap.Conversion.Registry
import GardenMap.Conversion.Scalar
import GardenMap.Record.Build

/-!
# Conversion

Payloads become values along a converter. Text in the place of a list, a mapping or a record is
read as a literal first.

A payload for the base of a family goes to the member that its tag names. Members and their
converters are asked of a source with a state, since a registry learns while it converts. The
recursion ends because literals are no heavier than their texts, and parts are lighter than wholes.
-/

namespace GardenMap

/-- Where conversion finds the members of families and the converters of their fields. -/
structure Source (σ : Type) where
  /-- The member of a family that a tag names. -/
  member : Family → Option String → σ → SchemaId × σ
  /-- The field converters of a schema. -/
  fieldsOf : SchemaId → σ → Except ShapeError (List (String × Converter)) × σ

namespace Payload

/-- The elements of a list payload, or nothing when it is absent. -/
def items (v : Json) : Except ConvertError (Option (List Json)) :=
  match v with
  | .null => .ok none
  | .arr items => .ok (some items)
  | .str text => do
    match ← literal text with
    | .arr items => .ok (some items)
    | other => unexpected "a list" other
  | other => unexpected "a list" other

/-- The entries of a mapping payload, or nothing when it is absent. -/
def entries (v : Json) : Except ConvertError (Option Object) :=
  match v with
  | .null => .ok none
  | .obj entries => .ok (some entries)
  | .str text => do
    match ← literal text with
    | .obj entries => .ok (some entries)
    | other => unexpected "a mapping" other
  | other => unexpected "a mapping" other

/-- The entries of a record payload, or nothing when it is absent, be it by its text. -/
def record (v : Json) : Except ConvertError (Option Object) := do
  match ← spelled v with
  | .null => .ok none
  | .obj entries => .ok (some entries)
  | other => unexpected "a mapping" other

theorem weight_of_spelled {v w : Json} (h : spelled v = .ok w) : w.weight ≤ v.weight := by
  unfold spelled at h
  split at h
  · unfold literal at h
    split at h
    · next hr =>
      cases h
      exact Nat.le_of_lt (Literal.weight_lt_of_read hr)
    · cases h
  · cases h
    exact Nat.le_refl _

theorem weight_of_items {v : Json} {vs : List Json} (h : items v = .ok (some vs)) :
    1 + Json.weightItems vs ≤ v.weight := by
  unfold items at h
  split at h
  · cases h
  · cases h
    exact Nat.le_refl _
  · next text =>
    cases hl : literal text with
    | error e => rw [hl] at h; cases h
    | ok w =>
      rw [hl] at h
      have hw := weight_of_spelled (v := .str text) (w := w) hl
      cases w <;> cases h
      exact hw
  · cases h

theorem weight_of_entries {v : Json} {es : Object} (h : entries v = .ok (some es)) :
    2 + Json.weightEntries es ≤ v.weight := by
  unfold entries at h
  split at h
  · cases h
  · cases h
    exact Nat.le_refl _
  · next text =>
    cases hl : literal text with
    | error e => rw [hl] at h; cases h
    | ok w =>
      rw [hl] at h
      have hw := weight_of_spelled (v := .str text) (w := w) hl
      cases w <;> cases h
      exact hw
  · cases h

theorem weight_of_record {v : Json} {es : Object} (h : record v = .ok (some es)) :
    2 + Json.weightEntries es ≤ v.weight := by
  unfold record at h
  cases hl : spelled v with
  | error e => rw [hl] at h; cases h
  | ok w =>
    rw [hl] at h
    have hw := weight_of_spelled hl
    cases w <;> cases h
    exact hw

theorem weight_of_get? (es : Object) (k : String) :
    ((Table.get? es k).getD .null).weight ≤ 1 + Json.weightEntries es := by
  induction es with
  | nil => exact Nat.le_refl _
  | cons e es ih =>
    obtain ⟨l, v⟩ := e
    simp only [Table.get?, Json.weightEntries]
    split
    · simp only [Option.getD_some]
      omega
    · omega

end Payload

namespace Conversion

variable {σ : Type} (c : Catalog) (source : Source σ)

/-- The schema that a record payload is converted to, with its field converters. -/
structure Target where
  schema : SchemaId
  fields : List (String × Converter)
  /-- The member that the tag of the payload sent it to first. -/
  sentTo : Option String

/-- An error of a payload that may have been sent to a member. -/
def Target.blame (sentTo : Option String) (e : ConvertError) : ConvertError :=
  match sentTo with
  | some name => e.within name
  | none => e

/-- Follow the tags of a payload from family to family. Each member extends the base before it, so
there are at most as many steps as the catalog has schemas. -/
def dispatch (entries : Object) : Nat → Target → σ → Except ConvertError Target × σ
  | 0, target, s => (.ok target, s)
  | steps + 1, target, s =>
    match c.rootedFamily? target.schema with
    | none => (.ok target, s)
    | some family =>
      let tag := (Table.get? entries family.discriminator).bind Json.str?
      let (member, s) := source.member family tag s
      if member = target.schema then (.ok target, s)
      else
        match source.fieldsOf member s with
        | (.error e, s) => (.error (Target.blame target.sentTo (.here (.unresolved e))), s)
        | (.ok fields, s) =>
          dispatch entries steps ⟨member, fields, target.sentTo.getD member.name⟩ s

theorem lex_of {a b n a' b' n' : Nat} (h : a < a' ∨ a ≤ a' ∧ (b < b' ∨ b ≤ b' ∧ n < n')) :
    Prod.Lex (· < ·) (Prod.Lex (· < ·) (· < ·)) (a, b, n) (a', b', n') := by
  simp only [Prod.lex_def]
  omega

mutual

def convert (conv : Converter) (v : Json) (s : σ) : Except ConvertError Value × σ :=
  match conv with
  | .scalar kind => (kind.convert v, s)
  | .absent => (.ok .null, s)
  | .nullable inner =>
    match v with
    | .null => (.ok .null, s)
    | .str "None" => (.ok .null, s)
    | v => convert inner v s
  | .list item =>
    match _ : Payload.items v with
    | .error e => (.error e, s)
    | .ok none => (.ok .null, s)
    | .ok (some vs) =>
      match convertItems item vs 0 s with
      | (.error e, s) => (.error e, s)
      | (.ok items, s) => (.ok (.list items), s)
  | .map key value =>
    match _ : Payload.entries v with
    | .error e => (.error e, s)
    | .ok none => (.ok .null, s)
    | .ok (some es) =>
      match convertEntries key value es [] s with
      | (.error e, s) => (.error e, s)
      | (.ok entries, s) => (.ok (.map entries), s)
  | .record schema fields =>
    match _ : Payload.record v with
    | .error e => (.error e, s)
    | .ok none => (.ok .null, s)
    | .ok (some es) =>
      match dispatch c source es c.length ⟨schema, fields, none⟩ s with
      | (.error e, s) => (.error e, s)
      | (.ok target, s) =>
        match convertFields target.fields es [] s with
        | (.error e, s) => (.error (Target.blame target.sentTo e), s)
        | (.ok typed, s) => (.ok (.record (c.assemble target.schema typed es)), s)
termination_by (v.weight, sizeOf conv, 0)
decreasing_by
  · exact lex_of (by simp)
  · have := Payload.weight_of_items (by assumption)
    exact lex_of (by simp; omega)
  · have := Payload.weight_of_entries (by assumption)
    exact lex_of (by simp; omega)
  · have := Payload.weight_of_record (by assumption)
    exact lex_of (by simp; omega)

/-- The values of the elements of a list, from a position on. -/
def convertItems (item : Converter) (vs : List Json) (position : Nat) (s : σ) :
    Except ConvertError (List Value) × σ :=
  match vs with
  | [] => (.ok [], s)
  | v :: vs =>
    match convert item v s with
    | (.error e, s) => (.error (e.under (toString position)), s)
    | (.ok x, s) =>
      match convertItems item vs (position + 1) s with
      | (.error e, s) => (.error e, s)
      | (.ok xs, s) => (.ok (x :: xs), s)
termination_by (1 + Json.weightItems vs, 0, vs.length)
decreasing_by
  · exact lex_of (by simp only [Json.weightItems]; omega)
  · exact lex_of (by simp only [Json.weightItems, List.length_cons]; omega)

/-- A table with the entries of a mapping put into it, key by key. -/
def convertEntries (key : Scalar) (value : Converter) (es : Object)
    (done : List (MapKey × Value)) (s : σ) : Except ConvertError (List (MapKey × Value)) × σ :=
  match es with
  | [] => (.ok done, s)
  | (k, v) :: es =>
    match key.convertKey k with
    | .error e => (.error (e.under k), s)
    | .ok typedKey =>
      match convert value v s with
      | (.error e, s) => (.error (e.under k), s)
      | (.ok x, s) => convertEntries key value es (Table.put done typedKey x) s
termination_by (1 + Json.weightEntries es, 0, es.length)
decreasing_by
  · exact lex_of (by simp only [Json.weightEntries]; omega)
  · exact lex_of (by simp only [Json.weightEntries, List.length_cons]; omega)

/-- A table with the fields of a payload put into it. An absent field is converted as null. -/
def convertFields (fields : List (String × Converter)) (es : Object)
    (done : List (String × Value)) (s : σ) : Except ConvertError (List (String × Value)) × σ :=
  match fields with
  | [] => (.ok done, s)
  | (name, conv) :: fields =>
    match convert conv ((Table.get? es name).getD .null) s with
    | (.error e, s) => (.error (e.under name), s)
    | (.ok x, s) => convertFields fields es (Table.put done name x) s
termination_by (2 + Json.weightEntries es, 0, fields.length)
decreasing_by
  · have := Payload.weight_of_get? es name
    exact lex_of (by omega)
  · exact lex_of (by simp only [List.length_cons]; omega)

end

end Conversion

end GardenMap
