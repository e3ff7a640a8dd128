import GardenMap.Record.Value

/-!
# Values with the content of themselves

Only a number that is no number differs from itself, so a value without one has its own content
(`Value.same_self`), and a wire value equals itself (`Json.same_self`). `floats` lists the binary
numbers of a value at any depth.
-/

namespace GardenMap

/-! ## Binary numbers -/

mutual

def Json.floats : Json → List Float
  | .float x => [x]
  | .arr items => Json.itemFloats items
  | .obj entries => Json.entryFloats entries
  | _ => []

/-- The binary numbers in the elements of a list. -/
def Json.itemFloats : List Json → List Float
  | [] => []
  | v :: vs => v.floats ++ Json.itemFloats vs

/-- The binary numbers in the values of a table. -/
def Json.entryFloats : List (String × Json) → List Float
  | [] => []
  | (_, v) :: es => v.floats ++ Json.entryFloats es

end

mutual

def Value.floats : Value → List Float
  | .float x => [x]
  | .list items => itemFloats items
  | .map entries => entryFloats entries
  | .record r => r.floats
  | .raw v => v.floats
  | _ => []

/-- The binary numbers in the fields and the extra keys of a record. -/
def Record.floats : Record → List Float
  | ⟨_, fields, extra⟩ => fieldFloats fields ++ fieldFloats extra

/-- The binary numbers in the elements of a list. -/
def itemFloats : List Value → List Float
  | [] => []
  | v :: vs => v.floats ++ itemFloats vs

/-- The binary numbers in the values of a mapping. -/
def entryFloats : List (MapKey × Value) → List Float
  | [] => []
  | (_, v) :: es => v.floats ++ entryFloats es

/-- The binary numbers in the values of a table of fields. -/
def fieldFloats : List (String × Value) → List Float
  | [] => []
  | (_, v) :: es => v.floats ++ fieldFloats es

end

/-- Every number of a list equals itself: none of them is NaN. -/
def AllNumbers (xs : List Float) : Prop := ∀ x ∈ xs, (x == x) = true

theorem allNumbers_append {xs ys : List Float} :
    AllNumbers (xs ++ ys) ↔ AllNumbers xs ∧ AllNumbers ys := by
  simp only [AllNumbers, List.mem_append, or_imp, forall_and]

/-! ## Equality with oneself -/

mutual

theorem Json.same_self : ∀ v : Json, AllNumbers v.floats → Json.same v v = true
  | .null, _ => rfl
  | .bool b, _ => beq_self_eq_true b
  | .int i, _ => beq_self_eq_true i
  | .float x, h => h x (by simp [Json.floats])
  | .str s, _ => beq_self_eq_true s
  | .arr items, h => Json.sameItems_self items h
  | .obj entries, h => Json.sameEntries_self entries h

theorem Json.sameItems_self : ∀ vs : List Json, AllNumbers (Json.itemFloats vs) →
    Json.sameItems vs vs = true
  | [], _ => rfl
  | v :: vs, h => by
    obtain ⟨hv, hvs⟩ := allNumbers_append.1 h
    rw [Json.sameItems, Json.same_self v hv, Json.sameItems_self vs hvs]
    rfl

theorem Json.sameEntries_self : ∀ es : List (String × Json), AllNumbers (Json.entryFloats es) →
    Json.sameEntries es es = true
  | [], _ => rfl
  | (k, v) :: es, h => by
    obtain ⟨hv, hes⟩ := allNumbers_append.1 h
    rw [Json.sameEntries, beq_self_eq_true, Json.same_self v hv, Json.sameEntries_self es hes]
    rfl

end

mutual

/-- A value without NaN has the content of itself. -/
theorem Value.same_self : ∀ v : Value, AllNumbers v.floats → v.same v = true
  | .null, _ => by rw [Value.same]
  | .bool _, _ | .int _, _ | .str _, _ | .date _, _ | .datetime _, _ => by
    rw [Value.same, beq_self_eq_true]
  | .float x, h => by
    rw [Value.same]
    exact h x (by simp [Value.floats])
  | .list items, h => by
    rw [Value.same]
    exact sameItems_self items h
  | .map entries, h => by
    rw [Value.same]
    exact sameEntries_self entries h
  | .record r, h => by
    rw [Value.same]
    exact Record.same_of_numbers r h
  | .raw v, h => by
    rw [Value.same]
    exact Json.same_self v h

theorem Record.same_of_numbers : ∀ r : Record, AllNumbers r.floats → r.same r = true
  | ⟨schema, fields, extra⟩, h => by
    obtain ⟨hfields, hextra⟩ := allNumbers_append.1 h
    rw [Record.same, beq_self_eq_true, sameFields_of_numbers fields hfields,
      sameFields_of_numbers extra hextra]
    rfl

theorem sameItems_self : ∀ vs : List Value, AllNumbers (itemFloats vs) → sameItems vs vs = true
  | [], _ => by rw [sameItems]
  | v :: vs, h => by
    obtain ⟨hv, hvs⟩ := allNumbers_append.1 h
    rw [sameItems, Value.same_self v hv, sameItems_self vs hvs]
    rfl

theorem sameEntries_self : ∀ es : List (MapKey × Value), AllNumbers (entryFloats es) →
    sameEntries es es = true
  | [], _ => by rw [sameEntries]
  | (k, v) :: es, h => by
    obtain ⟨hv, hes⟩ := allNumbers_append.1 h
    rw [sameEntries, beq_self_eq_true, Value.same_self v hv, sameEntries_self es hes]
    rfl

theorem sameFields_of_numbers : ∀ es : List (String × Value), AllNumbers (fieldFloats es) →
    sameFields es es = true
  | [], _ => by rw [sameFields]
  | (k, v) :: es, h => by
    obtain ⟨hv, hes⟩ := allNumbers_append.1 h
    rw [sameFields, beq_self_eq_true, Value.same_self v hv, sameFields_of_numbers es hes]
    rfl

end

end GardenMap
