import GardenMap.Proofs.Record.Keys
import GardenMap.Proofs.Record.Sameness
import GardenMap.Proofs.Tables
import Mathlib.Data.List.Forall2

/-!
# Sameness is likeness

Two values are alike when they are built alike from like parts (`Value.Alike`). Lists are compared
element by element, mappings and records by what they hold at each key, and records also by the
identity of their schemas, but not by their own. Sameness, which compares tables entry by entry,
decides likeness of values without binary numbers (`same_iff_alike`). It falls back to the equality
of separate values, which no record passes, only where neither records, lists nor mappings are
compared with their like.

Proof. Both come down to equality. Sameness of values does by induction on the parts of a value
(`Value.eq_of_same`), likeness by induction on its derivation, as sorted tables that hold like
values at the same keys are equal (`Value.eq_of_alike`).
-/

namespace GardenMap

/-- Tables with entries at the same keys, which are related. -/
def Table.Agree {κ α : Type} [Ord κ] (R : α → α → Prop) (t u : Table κ α) : Prop :=
  (∀ k, t.has k = u.has k) ∧ ∀ k v w, t.get? k = some v → u.get? k = some w → R v w

theorem Table.eq_of_agree {κ α : Type} [Ord κ] [Std.TransOrd κ] [Std.LawfulEqOrd κ] [DecidableEq κ]
    {t u : Table κ α} (ht : t.Sorted) (hu : u.Sorted) (h : t.Agree Eq u) : t = u := by
  obtain ⟨hkeys, hvalues⟩ := h
  refine eq_of_get? ht hu fun k => ?_
  have hk := hkeys k
  unfold has at hk
  cases hv : get? t k with
  | none =>
    rw [hv, Option.isSome_none] at hk
    exact (Option.not_isSome_iff_eq_none.1 (Bool.not_eq_true _ ▸ hk.symm)).symm
  | some v =>
    rw [hv, Option.isSome_some] at hk
    obtain ⟨w, hw⟩ := Option.isSome_iff_exists.1 hk.symm
    rw [hw, hvalues k v w hv hw]

namespace Value

/-- A value with no values inside. -/
def IsSingle (v : Value) : Prop := v.items? = none ∧ v.entries? = none ∧ v.record? = none

/-- Values that are built alike. -/
inductive Alike : Value → Value → Prop
  | single {v : Value} : v.IsSingle → Alike v v
  | list {as bs : List Value} :
      as.length = bs.length →
      (∀ (i : Nat) v w, as[i]? = some v → bs[i]? = some w → Alike v w) →
      Alike (.list as) (.list bs)
  | map {as bs : List (MapKey × Value)} :
      (∀ k, Table.has as k = Table.has bs k) →
      (∀ k v w, Table.get? as k = some v → Table.get? bs k = some w → Alike v w) →
      Alike (.map as) (.map bs)
  | record {r s : Record} :
      r.schema = s.schema →
      (∀ k, Table.has r.fields k = Table.has s.fields k) →
      (∀ k v w, Table.get? r.fields k = some v → Table.get? s.fields k = some w → Alike v w) →
      (∀ k, Table.has r.extra k = Table.has s.extra k) →
      (∀ k v w, Table.get? r.extra k = some v → Table.get? s.extra k = some w → Alike v w) →
      Alike (.record r) (.record s)

/-- Every mapping in the value is a table, and so are the fields and the extra keys of every
record. -/
inductive IsTabled : Value → Prop
  | single {v : Value} : v.IsSingle → IsTabled v
  | list {vs : List Value} : (∀ v ∈ vs, IsTabled v) → IsTabled (.list vs)
  | map {es : List (MapKey × Value)} :
      Table.Sorted es → (∀ e ∈ es, IsTabled e.2) → IsTabled (.map es)
  | record {r : Record} :
      Table.Sorted r.fields → (∀ e ∈ r.fields, IsTabled e.2) →
      Table.Sorted r.extra → (∀ e ∈ r.extra, IsTabled e.2) → IsTabled (.record r)

end Value

/-- Records of one schema whose fields and extra keys are alike. -/
def Record.Alike (r s : Record) : Prop :=
  r.schema = s.schema ∧ Table.Agree Value.Alike r.fields s.fields ∧
    Table.Agree Value.Alike r.extra s.extra

theorem Value.alike_record_iff {r s : Record} :
    (Value.record r).Alike (.record s) ↔ r.Alike s := by
  constructor
  · intro h
    cases h with
    | single h => cases h.2.2
    | record hschema hfields hfield hextra hother =>
      exact ⟨hschema, ⟨hfields, hfield⟩, ⟨hextra, hother⟩⟩
  · rintro ⟨hschema, ⟨hfields, hfield⟩, ⟨hextra, hother⟩⟩
    exact .record hschema hfields hfield hextra hother

/-! ## Induction on parts -/

theorem Json.parts_induction {P : Json → Prop}
    (single : ∀ v : Json, v.items? = none → v.entries? = none → P v)
    (arr : ∀ vs, (∀ v ∈ vs, P v) → P (.arr vs))
    (obj : ∀ es : Object, (∀ e ∈ es, P e.2) → P (.obj es)) (v : Json) : P v := by
  match v with
  | .arr vs => exact arr vs fun w hw => Json.parts_induction single arr obj w
  | .obj es => exact obj es fun e he => Json.parts_induction single arr obj e.2
  | .null | .bool _ | .int _ | .float _ | .str _ => exact single _ rfl rfl
termination_by sizeOf v
decreasing_by
  · have := List.sizeOf_lt_of_mem hw
    simp
    omega
  · have := List.sizeOf_lt_of_mem he
    obtain ⟨k, w⟩ := e
    simp at this ⊢
    omega

theorem Value.parts_induction {P : Value → Prop} (single : ∀ v : Value, v.IsSingle → P v)
    (list : ∀ vs, (∀ v ∈ vs, P v) → P (.list vs))
    (map : ∀ es : List (MapKey × Value), (∀ e ∈ es, P e.2) → P (.map es))
    (record : ∀ r : Record, (∀ e ∈ r.fields, P e.2) → (∀ e ∈ r.extra, P e.2) → P (.record r))
    (v : Value) : P v := by
  match v with
  | .list vs => exact list vs fun w hw => Value.parts_induction single list map record w
  | .map es => exact map es fun e he => Value.parts_induction single list map record e.2
  | .record ⟨schema, fields, extra⟩ =>
    exact record _ (fun e he => Value.parts_induction single list map record e.2)
      fun e he => Value.parts_induction single list map record e.2
  | .null | .bool _ | .int _ | .float _ | .str _ | .date _ | .datetime _ | .raw _ =>
    exact single _ ⟨rfl, rfl, rfl⟩
termination_by sizeOf v
decreasing_by
  · have := List.sizeOf_lt_of_mem hw
    simp
    omega
  all_goals
    have := List.sizeOf_lt_of_mem he
    obtain ⟨k, w⟩ := e
    simp at this ⊢
    omega

/-! ## Binary numbers in parts -/

theorem Json.itemFloats_eq (vs : List Json) : Json.itemFloats vs = vs.flatMap Json.floats := by
  induction vs with
  | nil => rfl
  | cons v vs ih => rw [Json.itemFloats, ih, List.flatMap_cons]

theorem Json.entryFloats_eq (es : Object) : Json.entryFloats es = es.flatMap fun e => e.2.floats := by
  induction es with
  | nil => rfl
  | cons e es ih => rw [Json.entryFloats, ih, List.flatMap_cons]

theorem itemFloats_eq (vs : List Value) : itemFloats vs = vs.flatMap Value.floats := by
  induction vs with
  | nil => rfl
  | cons v vs ih => rw [itemFloats, ih, List.flatMap_cons]

theorem entryFloats_eq (es : List (MapKey × Value)) :
    entryFloats es = es.flatMap fun e => e.2.floats := by
  induction es with
  | nil => rfl
  | cons e es ih => rw [entryFloats, ih, List.flatMap_cons]

theorem fieldFloats_eq (es : List (String × Value)) :
    fieldFloats es = es.flatMap fun e => e.2.floats := by
  induction es with
  | nil => rfl
  | cons e es ih => rw [fieldFloats, ih, List.flatMap_cons]

/-! ## Sameness of parts -/

theorem Json.sameItems_iff {as bs : List Json} :
    Json.sameItems as bs = true ↔ List.Forall₂ (fun a b => Json.same a b = true) as bs := by
  induction as generalizing bs with
  | nil => cases bs <;> simp [Json.sameItems]
  | cons a as ih => cases bs <;> simp [Json.sameItems, ih]

theorem Json.sameEntries_iff {as bs : Object} :
    Json.sameEntries as bs = true ↔
      List.Forall₂ (fun e f => e.1 = f.1 ∧ Json.same e.2 f.2 = true) as bs := by
  induction as generalizing bs with
  | nil => cases bs <;> simp [Json.sameEntries]
  | cons a as ih => cases bs <;> simp [Json.sameEntries, ih]

theorem sameItems_iff {as bs : List Value} :
    sameItems as bs = true ↔ List.Forall₂ (fun a b => a.same b = true) as bs := by
  induction as generalizing bs with
  | nil => cases bs <;> simp [sameItems]
  | cons a as ih => cases bs <;> simp [sameItems, ih]

theorem sameEntries_iff {as bs : List (MapKey × Value)} :
    sameEntries as bs = true ↔
      List.Forall₂ (fun e f => e.1 = f.1 ∧ e.2.same f.2 = true) as bs := by
  induction as generalizing bs with
  | nil => cases bs <;> simp [sameEntries]
  | cons e as ih =>
    obtain ⟨k, a⟩ := e
    rcases bs with _ | ⟨⟨l, b⟩, bs⟩ <;> simp [sameEntries, ih]

theorem sameFields_iff {as bs : List (String × Value)} :
    sameFields as bs = true ↔
      List.Forall₂ (fun e f => e.1 = f.1 ∧ e.2.same f.2 = true) as bs := by
  induction as generalizing bs with
  | nil => cases bs <;> simp [sameFields]
  | cons e as ih =>
    obtain ⟨k, a⟩ := e
    rcases bs with _ | ⟨⟨l, b⟩, bs⟩ <;> simp [sameFields, ih]

theorem forall₂_iff_all_zip {α : Type} (R : α → α → Bool) (as bs : List α) :
    List.Forall₂ (fun a b => R a b = true) as bs ↔
      (as.length == bs.length && (as.zip bs).all fun p => R p.1 p.2) = true := by
  rw [List.forall₂_iff_zip, Bool.and_eq_true, beq_iff_eq, List.all_eq_true]
  exact and_congr_right fun _ => ⟨fun h p hp => h hp, fun h a b hp => h (a, b) hp⟩

theorem eq_of_forall₂ {α : Type} {R : α → α → Prop} {as bs : List α} (h : List.Forall₂ R as bs)
    (heq : ∀ a ∈ as, ∀ b, R a b → a = b) : as = bs := by
  induction h with
  | nil => rfl
  | cons hab _ ih =>
    rw [heq _ List.mem_cons_self _ hab, ih fun a ha => heq a (List.mem_cons_of_mem _ ha)]

/-! ## Sameness is equality -/

/-- A wire value without binary numbers is the same as itself only. -/
theorem Json.eq_of_same {a b : Json} (ha : a.floats = []) (h : Json.same a b = true) : a = b := by
  induction a using Json.parts_induction generalizing b with
  | arr as ih =>
    rw [Json.floats, Json.itemFloats_eq, List.flatMap_eq_nil_iff] at ha
    cases b with
    | arr bs =>
      exact congrArg Json.arr
        (eq_of_forall₂ (Json.sameItems_iff.1 h) fun a hmem b => ih a hmem (ha a hmem))
    | _ => cases h
  | obj as ih =>
    rw [Json.floats, Json.entryFloats_eq, List.flatMap_eq_nil_iff] at ha
    cases b with
    | obj bs =>
      exact congrArg Json.obj (eq_of_forall₂ (Json.sameEntries_iff.1 h)
        fun e hmem f hef => Prod.ext hef.1 (ih e hmem (ha e hmem) hef.2))
    | _ => cases h
  | single a hitems hentries =>
    cases a with
    | arr => cases hitems
    | obj => cases hentries
    | float => cases ha
    | _ => cases b <;> simp_all [Json.same]

namespace Value

variable {a b : Value}

theorem eq_of_same_single (hsingle : a.IsSingle) (ha : a.floats = []) (h : a.same b = true) :
    a = b := by
  obtain ⟨hitems, hentries, hrecord⟩ := hsingle
  cases a with
  | list => cases hitems
  | map => cases hentries
  | record => cases hrecord
  | float => cases ha
  | raw v =>
    cases b with
    | raw w =>
      rw [same] at h
      exact congrArg raw (Json.eq_of_same ha h)
    | _ => simp [same] at h
  | _ => cases b <;> simp_all [same]

/-- A value without binary numbers is the same as itself only. -/
theorem eq_of_same (ha : a.floats = []) (h : a.same b = true) : a = b := by
  induction a using parts_induction generalizing b with
  | list as ih =>
    rw [floats, itemFloats_eq, List.flatMap_eq_nil_iff] at ha
    cases b with
    | list bs =>
      rw [same] at h
      exact congrArg list
        (eq_of_forall₂ (sameItems_iff.1 h) fun a hmem b => ih a hmem (ha a hmem))
    | _ => simp [same] at h
  | map as ih =>
    rw [floats, entryFloats_eq, List.flatMap_eq_nil_iff] at ha
    cases b with
    | map bs =>
      rw [same] at h
      exact congrArg map (eq_of_forall₂ (sameEntries_iff.1 h)
        fun e hmem f hef => Prod.ext hef.1 (ih e hmem (ha e hmem) hef.2))
    | _ => simp [same] at h
  | record r ihfields ihextra =>
    obtain ⟨schema, fields, extra⟩ := r
    rw [floats, Record.floats, List.append_eq_nil_iff, fieldFloats_eq, fieldFloats_eq,
      List.flatMap_eq_nil_iff, List.flatMap_eq_nil_iff] at ha
    cases b with
    | record s =>
      obtain ⟨schema', fields', extra'⟩ := s
      simp only [same, Record.same, Bool.and_eq_true, beq_iff_eq] at h
      obtain ⟨⟨rfl, hfields⟩, hextra⟩ := h
      obtain rfl := eq_of_forall₂ (sameFields_iff.1 hfields)
        fun e hmem f hef => Prod.ext hef.1 (ihfields e hmem (ha.1 e hmem) hef.2)
      obtain rfl := eq_of_forall₂ (sameFields_iff.1 hextra)
        fun e hmem f hef => Prod.ext hef.1 (ihextra e hmem (ha.2 e hmem) hef.2)
      rfl
    | _ => simp [same] at h
  | single a hsingle => exact eq_of_same_single hsingle ha h

theorem same_iff_eq (ha : a.floats = []) : a.same b = true ↔ a = b := by
  refine ⟨eq_of_same ha, fun h => h ▸ same_self a fun x hx => ?_⟩
  rw [ha] at hx
  cases hx

/-! ## Likeness is equality -/

theorem Alike.refl (v : Value) : v.Alike v := by
  induction v using parts_induction with
  | single v hv => exact .single hv
  | list vs ih =>
    refine .list rfl fun i v w hv hw => ?_
    cases hv.symm.trans hw
    exact ih v (List.mem_of_getElem? hv)
  | map es ih =>
    refine .map (fun _ => rfl) fun k v w hv hw => ?_
    cases hv.symm.trans hw
    exact ih _ (Table.mem_of_get? hv)
  | record r ihfields ihextra =>
    refine .record rfl (fun _ => rfl) (fun k v w hv hw => ?_) (fun _ => rfl)
      fun k v w hv hw => ?_
    · cases hv.symm.trans hw
      exact ihfields _ (Table.mem_of_get? hv)
    · cases hv.symm.trans hw
      exact ihextra _ (Table.mem_of_get? hv)

theorem IsTabled.of_items {vs : List Value} (h : (Value.list vs).IsTabled) : ∀ v ∈ vs, v.IsTabled := by
  cases h with
  | single h => cases h.1
  | list h => exact h

theorem IsTabled.of_entries {es : List (MapKey × Value)} (h : (Value.map es).IsTabled) :
    Table.Sorted es ∧ ∀ k v, Table.get? es k = some v → v.IsTabled := by
  cases h with
  | single h => cases h.2.1
  | map hes h => exact ⟨hes, fun k v hv => h _ (Table.mem_of_get? hv)⟩

theorem IsTabled.of_record {r : Record} (h : (Value.record r).IsTabled) :
    (Table.Sorted r.fields ∧ ∀ k v, Table.get? r.fields k = some v → v.IsTabled) ∧
      Table.Sorted r.extra ∧ ∀ k v, Table.get? r.extra k = some v → v.IsTabled := by
  cases h with
  | single h => cases h.2.2
  | record hfields hf hextra he =>
    exact ⟨⟨hfields, fun k v hv => hf _ (Table.mem_of_get? hv)⟩,
      hextra, fun k v hv => he _ (Table.mem_of_get? hv)⟩

/-- Like values are equal, since their tables are sorted. -/
theorem eq_of_alike (h : a.Alike b) (ha : a.IsTabled) (hb : b.IsTabled) : a = b := by
  induction h with
  | single => rfl
  | @list as bs hlength _ ih =>
    refine congrArg list (List.ext_getElem hlength fun i hi hi' => ?_)
    exact ih i _ _ (List.getElem?_eq_getElem hi) (List.getElem?_eq_getElem hi')
      (ha.of_items _ (List.getElem_mem hi)) (hb.of_items _ (List.getElem_mem hi'))
  | map hkeys _ ih =>
    obtain ⟨hsorted, hparts⟩ := ha.of_entries
    obtain ⟨hsorted', hparts'⟩ := hb.of_entries
    exact congrArg map (Table.eq_of_agree hsorted hsorted' ⟨hkeys, fun k v w hv hw =>
      ih k v w hv hw (hparts k v hv) (hparts' k w hw)⟩)
  | @record r s hschema hfields _ hextra _ ihfields ihextra =>
    obtain ⟨⟨hsorted, hparts⟩, hsortedExtra, hothers⟩ := ha.of_record
    obtain ⟨⟨hsorted', hparts'⟩, hsortedExtra', hothers'⟩ := hb.of_record
    obtain ⟨schema, fields, extra⟩ := r
    obtain ⟨schema', fields', extra'⟩ := s
    obtain rfl := Table.eq_of_agree hsorted hsorted' ⟨hfields, fun k v w hv hw =>
      ihfields k v w hv hw (hparts k v hv) (hparts' k w hw)⟩
    obtain rfl := Table.eq_of_agree hsortedExtra hsortedExtra' ⟨hextra, fun k v w hv hw =>
      ihextra k v w hv hw (hothers k v hv) (hothers' k w hw)⟩
    obtain rfl : schema = schema' := hschema
    rfl

theorem alike_iff_eq (ha : a.IsTabled) (hb : b.IsTabled) : a.Alike b ↔ a = b :=
  ⟨fun h => eq_of_alike h ha hb, fun h => h ▸ Alike.refl a⟩

/-! ## The rule of sameness -/

/-- Sameness compares lengths before elements. Where it is not about two records, two lists or two
mappings it is the equality of separate values, which no value with a record in it passes. -/
theorem same_eq (a b : Value) :
    a.same b =
      match a, b with
      | .record r, .record s => r.same s
      | .list as, .list bs => as.length == bs.length && (as.zip bs).all fun p => p.1.same p.2
      | .map as, .map bs =>
        as.length == bs.length && (as.zip bs).all fun p => p.1.1 == p.2.1 && p.1.2.same p.2.2
      | a, b => a.equal b := by
  cases a with
  | record r =>
    cases b with
    | record s => rw [same]
    | _ => simp [same, equal]
  | list as =>
    cases b with
    | list bs =>
      rw [same, Bool.eq_iff_iff, sameItems_iff]
      exact forall₂_iff_all_zip same as bs
    | _ => simp [same, equal]
  | map as =>
    cases b with
    | map bs =>
      rw [same, Bool.eq_iff_iff, sameEntries_iff]
      simpa only [Bool.and_eq_true, beq_iff_eq] using
        forall₂_iff_all_zip (fun e f => e.1 == f.1 && e.2.same f.2) as bs
    | _ => simp [same, equal]
  | _ => cases b <;> simp [same, equal, isPlain]

end Value

/-! ## Decision -/

/-- A record whose fields and extra keys are tables, at any depth. -/
def Record.IsTabled (r : Record) : Prop := (Value.record r).IsTabled

/-- Values without binary numbers are the same exactly when they are alike, which is when they are
equal, and so are records. Sameness of any values compares lengths before elements, and where it is
not about two records, two lists or two mappings it is the equality of separate values. -/
theorem same_iff_alike :
    (∀ a b : Value, a.floats = [] → b.floats = [] → a.IsTabled → b.IsTabled →
      (a.same b = true ↔ a.Alike b) ∧ (a.Alike b ↔ a = b)) ∧
    (∀ r s : Record, r.floats = [] → s.floats = [] → r.IsTabled → s.IsTabled →
      (r.same s = true ↔ r.Alike s) ∧ (r.Alike s ↔ r = s)) ∧
    ∀ a b : Value, a.same b =
      match a, b with
      | .record r, .record s => r.same s
      | .list as, .list bs => as.length == bs.length && (as.zip bs).all fun p => p.1.same p.2
      | .map as, .map bs =>
        as.length == bs.length && (as.zip bs).all fun p => p.1.1 == p.2.1 && p.1.2.same p.2.2
      | a, b => a.equal b := by
  have hvalues : ∀ a b : Value, a.floats = [] → a.IsTabled → b.IsTabled →
      (a.same b = true ↔ a.Alike b) ∧ (a.Alike b ↔ a = b) := fun a b ha hta htb =>
    ⟨(Value.same_iff_eq ha).trans (Value.alike_iff_eq hta htb).symm, Value.alike_iff_eq hta htb⟩
  refine ⟨fun a b ha _ => hvalues a b ha, fun r s hr _ hrt hst => ?_, Value.same_eq⟩
  obtain ⟨hsame, heq⟩ := hvalues (.record r) (.record s) (by rw [Value.floats, hr]) hrt hst
  rw [Value.same, Value.alike_record_iff] at hsame
  rw [Value.alike_record_iff, Value.record.injEq] at heq
  exact ⟨hsame, heq⟩

/-- A bed of a schema named `Bed`, with an undeclared key. -/
def bed (serial : Nat) : Record :=
  ⟨⟨"Bed", serial⟩, [("crop", .str "kale")], [("rows", .raw (.arr [.int 3]))]⟩

/-- A garden with one bed, inside a list inside a mapping. -/
def garden (serial : Nat) : Value := .map [(.int 1, .list [.record (bed serial)])]

theorem isTabled_bed (serial : Nat) : (bed serial).IsTabled := by
  refine .record ?_ ?_ ?_ ?_
  · simp [bed, Table.sorted_cons]
  · intro e he
    rw [List.mem_singleton.1 he]
    exact .single ⟨rfl, rfl, rfl⟩
  · simp [bed, Table.sorted_cons]
  · intro e he
    rw [List.mem_singleton.1 he]
    exact .single ⟨rfl, rfl, rfl⟩

theorem isTabled_garden (serial : Nat) : (garden serial).IsTabled := by
  refine .map (by simp [Table.sorted_cons]) fun e he => ?_
  rw [List.mem_singleton.1 he]
  refine .list fun v hv => ?_
  rw [List.mem_singleton.1 hv]
  exact isTabled_bed serial

theorem floats_bed (serial : Nat) : (bed serial).floats = [] := by
  simp [bed, Record.floats, fieldFloats, Value.floats, Json.floats, Json.itemFloats]

theorem floats_garden (serial : Nat) : (garden serial).floats = [] := by
  simp [garden, Value.floats, entryFloats, itemFloats, floats_bed]

/-- Gardens with separate beds are the same, and so are the beds. A schema of the same name is another
one, so gardens with beds of the two are not. -/
theorem same_iff_alike_gardens :
    ((garden 0).floats = [] ∧ (garden 1).floats = []) ∧
    ((garden 0).IsTabled ∧ (garden 1).IsTabled) ∧
    (garden 0).same (garden 0) = true ∧ ¬(garden 0).Alike (garden 1) ∧
    (garden 0).same (garden 1) = false ∧
    (bed 0).same (bed 0) = true ∧ ¬(bed 0).Alike (bed 1) := by
  obtain ⟨hvalues, hrecords, -⟩ := same_iff_alike
  have hself := hvalues _ _ (floats_garden 0) (floats_garden 0) (isTabled_garden 0)
    (isTabled_garden 0)
  have hother := hvalues _ _ (floats_garden 0) (floats_garden 1) (isTabled_garden 0)
    (isTabled_garden 1)
  have hbed := hrecords _ _ (floats_bed 0) (floats_bed 0) (isTabled_bed 0) (isTabled_bed 0)
  have hbeds := hrecords _ _ (floats_bed 0) (floats_bed 1) (isTabled_bed 0) (isTabled_bed 1)
  have hnever : ¬(garden 0).Alike (garden 1) := fun h => by
    simpa [garden, bed] using hother.2.1 h
  refine ⟨⟨floats_garden 0, floats_garden 1⟩, ⟨isTabled_garden 0, isTabled_garden 1⟩,
    hself.1.2 (hself.2.2 rfl), hnever, ?_, hbed.1.2 (hbed.2.2 rfl), fun h => ?_⟩
  · exact Bool.eq_false_iff.2 fun h => hnever (hother.1.1 h)
  · simpa [bed] using hbeds.2.1 h

end GardenMap
