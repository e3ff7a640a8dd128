import GardenMap.Proofs.Record.Keys
import GardenMap.Proofs.Tables
import GardenMap.Proofs.Time.Text

/-!
# What is in a value

`Value.All P Q` says that the numbers of a value have `P` and its instants, keys included, have
`Q`, at any depth. Wire forms, which are defined by recursion, are maps over the parts of a value,
and a value without an infinite number has an absent wire form only if it is absent itself.
-/

namespace GardenMap

/-! ## Numbers and instants -/

/-- The instant of a key, if it is one, has the property. -/
def MapKey.All (Q : Instant → Prop) : MapKey → Prop
  | .datetime t => Q t
  | _ => True

section

variable (P : Float → Prop) (Q : Instant → Prop)

mutual

/-- The numbers in a value have one property and the instants in it another. -/
def Value.All : Value → Prop
  | .float x => P x
  | .datetime t => Q t
  | .list items => allItems items
  | .map entries => allEntries entries
  | .record r => r.All
  | _ => True

/-- The same of the fields and the extra keys of a record. -/
def Record.All : Record → Prop
  | ⟨_, fields, extra⟩ => allFields fields ∧ allFields extra

def allItems : List Value → Prop
  | [] => True
  | v :: vs => v.All ∧ allItems vs

def allEntries : List (MapKey × Value) → Prop
  | [] => True
  | (k, v) :: es => k.All Q ∧ v.All ∧ allEntries es

def allFields : List (String × Value) → Prop
  | [] => True
  | (_, v) :: es => v.All ∧ allFields es

end

variable {P Q}

theorem allItems_iff {vs : List Value} : allItems P Q vs ↔ ∀ v ∈ vs, v.All P Q := by
  induction vs with
  | nil => simp [allItems]
  | cons v vs ih => rw [allItems, ih, List.forall_mem_cons]

theorem allEntries_iff {es : List (MapKey × Value)} :
    allEntries P Q es ↔ ∀ e ∈ es, e.1.All Q ∧ e.2.All P Q := by
  induction es with
  | nil => simp [allEntries]
  | cons e es ih =>
    obtain ⟨k, v⟩ := e
    rw [allEntries, ih, List.forall_mem_cons, and_assoc]

theorem allFields_iff {es : List (String × Value)} :
    allFields P Q es ↔ ∀ e ∈ es, e.2.All P Q := by
  induction es with
  | nil => simp [allFields]
  | cons e es ih =>
    obtain ⟨k, v⟩ := e
    rw [allFields, ih, List.forall_mem_cons]

theorem Record.all_of_get? {r : Record} (h : (Value.record r).All P Q) {k : String} {v : Value}
    (hv : Table.get? r.fields k = some v) : v.All P Q := by
  obtain ⟨schema, fields, extra⟩ := r
  exact allFields_iff.1 h.1 _ (Table.mem_of_get? hv)

end

/-- Every number in the value is finite. A wire value holds finite numbers only. -/
def Value.IsFinite : Value → Prop := Value.All (fun x => Decimal.isFinite x = true) fun _ => True

/-- Every instant in the value, keys included, is a whole number of milliseconds. -/
def Value.IsWhole : Value → Prop := Value.All (fun _ => True) Instant.IsWhole

/-- A key that is a whole number of milliseconds, if it is an instant. -/
def MapKey.IsWhole : MapKey → Prop := MapKey.All Instant.IsWhole

/-! ## Wire forms -/

theorem rawEntries_eq (es : List (MapKey × Value)) :
    rawEntries es = es.map fun e => (e.1.text, e.2.toRaw) := by
  induction es with
  | nil => rfl
  | cons e es ih => rw [rawEntries, ih, List.map_cons]

theorem rawFields_eq (es : List (String × Value)) :
    rawFields es = es.map fun e => (e.1, e.2.toRaw) := by
  induction es with
  | nil => rfl
  | cons e es ih => rw [rawFields, ih, List.map_cons]

theorem toRaw_of_isNull {v : Value} (h : v.isNull = true) : v.toRaw = .null := by
  cases v with
  | null => rfl
  | raw w =>
    cases w with
    | null => rfl
    | _ => cases h
  | _ => cases h

theorem isNull_of_toRaw {v : Value} (hfin : v.IsFinite) (h : v.toRaw = .null) :
    v.isNull = true := by
  cases v with
  | float x =>
    have hx : Decimal.isFinite x = true := hfin
    rw [Value.toRaw, Json.ofFloat, if_pos hx] at h
    cases h
  | raw w =>
    rw [Value.toRaw] at h
    rw [h]
    rfl
  | record r =>
    obtain ⟨schema, fields, extra⟩ := r
    cases h
  | null => rfl
  | _ => cases h

theorem toRaw_float {x : Float} (h : Decimal.isFinite x = true) :
    (Value.float x).toRaw = .float x := by
  rw [Value.toRaw, Json.ofFloat, if_pos h]

/-- The entries of the wire form of a record. -/
def Record.rawEntries (r : Record) : Object :=
  Table.putAll (Table.ofList (rawFields r.extra)) (rawFields r.fields)

theorem toRaw_record (r : Record) : (Value.record r).toRaw = .obj r.rawEntries := by
  obtain ⟨schema, fields, extra⟩ := r
  rw [Value.toRaw, Record.toRaw]
  rfl

theorem Record.sorted_rawEntries (r : Record) : Table.Sorted r.rawEntries :=
  Table.sorted_putAll (Table.sorted_ofList _) _

theorem Record.get?_rawEntries {r : Record} (hf : Table.Sorted r.fields)
    (he : Table.Sorted r.extra) (k : String) :
    Table.get? r.rawEntries k =
      ((Table.get? r.fields k).or (Table.get? r.extra k)).map Value.toRaw := by
  have hfields : Table.ofList (rawFields r.fields) = rawFields r.fields := by
    rw [rawFields_eq]
    exact Table.ofList_eq_self (Table.sorted_map hf Value.toRaw)
  have hextra : Table.ofList (rawFields r.extra) = rawFields r.extra := by
    rw [rawFields_eq]
    exact Table.ofList_eq_self (Table.sorted_map he Value.toRaw)
  unfold Record.rawEntries
  rw [Table.get?_putAll, ← Table.get?_ofList, hfields, hextra, rawFields_eq, rawFields_eq,
    Table.get?_map, Table.get?_map, Option.map_or]

end GardenMap
