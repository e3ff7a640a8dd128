import GardenMap.Conversion.Domain

/-!
# Conversion, form by form

One equation for each form of converter, and the induction that statements about conversion go by:
`conversion_induction` has one case for each form, where the parts of a payload may be taken for
granted. For a record these are its entries under any converter, since the member that the payload
is sent to is only known while it is converted.
-/

namespace GardenMap

namespace Json

theorem weight_le_of_mem {v : Json} {vs : List Json} (h : v ∈ vs) : v.weight ≤ weightItems vs := by
  induction vs with
  | nil => cases h
  | cons w vs ih =>
    rw [weightItems]
    rcases List.mem_cons.1 h with rfl | h
    · omega
    · have := ih h
      omega

theorem weight_le_of_mem_entries {e : String × Json} {es : Object} (h : e ∈ es) :
    e.2.weight ≤ weightEntries es := by
  induction es with
  | nil => cases h
  | cons w es ih =>
    obtain ⟨k, w⟩ := w
    rw [weightEntries]
    rcases List.mem_cons.1 h with rfl | h
    · show w.weight ≤ _
      omega
    · have := ih h
      omega

end Json

def Payload.isNone : Json → Bool
  | .null => true
  | .str text => text = "None"
  | _ => false

theorem Payload.isNone_eq_false {v : Json} (hnull : v ≠ .null) (htext : v ≠ .str "None") :
    isNone v = false := by
  cases v with
  | null => exact absurd rfl hnull
  | str text =>
    rw [isNone, decide_eq_false_iff_not]
    exact fun h => htext (congrArg Json.str h)
  | _ => rfl

namespace Conversion

variable {σ : Type} (c : Catalog) (source : Source σ)

/-! ## Equations -/

theorem convert_scalar (kind : Scalar) (v : Json) (s : σ) :
    convert c source (.scalar kind) v s = (kind.convert v, s) := by
  rw [convert]

theorem convert_absent (v : Json) (s : σ) : convert c source .absent v s = (.ok .null, s) := by
  rw [convert]

theorem convert_nullable (inner : Converter) (v : Json) (s : σ) :
    convert c source (.nullable inner) v s =
      if Payload.isNone v then (.ok .null, s) else convert c source inner v s := by
  by_cases hnull : v = .null
  · rw [hnull, convert]
    rfl
  by_cases htext : v = .str "None"
  · rw [htext, convert]
    rfl
  · rw [Payload.isNone_eq_false hnull htext, convert]
    · rfl
    · exact hnull
    · exact htext

theorem convert_list (item : Converter) (v : Json) (s : σ) :
    convert c source (.list item) v s =
      match Payload.items v with
      | .error e => (.error e, s)
      | .ok none => (.ok .null, s)
      | .ok (some vs) =>
        match convertItems c source item vs 0 s with
        | (.error e, s) => (.error e, s)
        | (.ok items, s) => (.ok (.list items), s) := by
  rw [convert]
  split <;> rename_i h <;> exact h ▸ rfl

theorem convert_map (key : Scalar) (value : Converter) (v : Json) (s : σ) :
    convert c source (.map key value) v s =
      match Payload.entries v with
      | .error e => (.error e, s)
      | .ok none => (.ok .null, s)
      | .ok (some es) =>
        match convertEntries c source key value es [] s with
        | (.error e, s) => (.error e, s)
        | (.ok entries, s) => (.ok (.map entries), s) := by
  rw [convert]
  split <;> rename_i h <;> exact h ▸ rfl

theorem convert_record (schema : SchemaId) (fields : List (String × Converter)) (v : Json) (s : σ) :
    convert c source (.record schema fields) v s =
      match Payload.record v with
      | .error e => (.error e, s)
      | .ok none => (.ok .null, s)
      | .ok (some es) =>
        match dispatch c source es c.length ⟨schema, fields, none⟩ s with
        | (.error e, s) => (.error e, s)
        | (.ok target, s) =>
          match convertFields c source target.fields es [] s with
          | (.error e, s) => (.error (Target.blame target.sentTo e), s)
          | (.ok typed, s) => (.ok (.record (c.assemble target.schema typed es)), s) := by
  rw [convert]
  split <;> rename_i h <;> exact h ▸ rfl

/-! ## Induction -/

/-- To show something of every conversion, show it for each form of converter when it holds of the
parts of the payload. -/
theorem conversion_induction {motive : Converter → Json → Prop}
    (scalar : ∀ kind v, motive (.scalar kind) v)
    (absent : ∀ v, motive .absent v)
    (nullable : ∀ inner v, motive inner v → motive (.nullable inner) v)
    (list : ∀ item v, (∀ vs, Payload.items v = .ok (some vs) → ∀ x ∈ vs, motive item x) →
      motive (.list item) v)
    (map : ∀ key value v,
      (∀ es, Payload.entries v = .ok (some es) → ∀ e ∈ es, motive value e.2) →
      motive (.map key value) v)
    (record : ∀ schema fields v,
      (∀ es, Payload.record v = .ok (some es) →
        ∀ conv name, motive conv ((Table.get? es name).getD .null)) →
      motive (.record schema fields) v)
    (conv : Converter) (v : Json) : motive conv v := by
  match conv with
  | .scalar kind => exact scalar kind v
  | .absent => exact absent v
  | .nullable inner =>
    exact nullable inner v
      (conversion_induction scalar absent nullable list map record inner v)
  | .list item =>
    refine list item v fun vs hv x hx => ?_
    have := Payload.weight_of_items hv
    have := Json.weight_le_of_mem hx
    exact conversion_induction scalar absent nullable list map record item x
  | .map key value =>
    refine map key value v fun es hv e he => ?_
    have := Payload.weight_of_entries hv
    have := Json.weight_le_of_mem_entries he
    exact conversion_induction scalar absent nullable list map record value e.2
  | .record schema fields =>
    refine record schema fields v fun es hv conv name => ?_
    have := Payload.weight_of_record hv
    have := Payload.weight_of_get? es name
    exact conversion_induction scalar absent nullable list map record conv _
termination_by (v.weight, sizeOf conv)
decreasing_by
  · exact .right _ (by simp)
  all_goals exact .left _ _ (by omega)

end Conversion

end GardenMap
