import GardenMap.Proofs.Farm.Points
import GardenMap.Proofs.Record.Typing

/-!
# Conversion gives values of the shape

Whatever payload a shape is read from, the value has the shape (`Domain.hasShape_of_read`).

Proof. A payload that is sent to a member of a family ends at a schema whose converter is built
like any other (`follow_builds`), so its fields may be taken to be of their shapes. The hooks that
run after them are those of points: they fill fields with values of the shapes that the fields have
(`Domain.Regular`). A union with one shape and without null has the converter of that shape, so
before anything else such unions are taken off (`exists_form`).
-/

namespace GardenMap

/-! ## What a shape is made of -/

/-- The first shape is a part of the second, or of a member of the family it is the base of. -/
def Domain.Part (d : Domain) (p s : Shape) : Prop :=
  Shape.Part d.catalog p s ∨ ∃ id member, s = .record id ∧ p = .record member ∧ d.Member id member

/-- The first shape is met in values of the second. -/
def Domain.Within (d : Domain) : Shape → Shape → Prop := Relation.ReflTransGen d.Part

/-- The only hooks of a schema are those of points, and the fields that these fill have the shapes
that they have in points. If the field for undeclared keys is a declared one, then it is a mapping
from texts to anything. -/
structure Domain.Regular (d : Domain) (id : SchemaId) : Prop where
  hooks : ∀ t ∈ d.catalog.lineage id, t.finish = [] ∨ t = Farm.point
  filled : Farm.point ∈ d.catalog.lineage id → ∀ f ∈ d.catalog.allFields id,
    ∀ e ∈ Farm.fillShapes, f.name = e.1 → f.shape = e.2
  bucket : ∀ f ∈ d.catalog.allFields id, d.catalog.metadataField? id = some f.name →
    f.shape = .map .str .any

/-- Every schema met in values of the shape is regular. -/
def Domain.RegularWithin (d : Domain) (s : Shape) : Prop :=
  ∀ id, d.Within (.record id) s → d.Regular id

/-- The forms of shapes and of their converters. -/
inductive Shape.Form (c : Catalog) : Shape → Converter → Prop
  | single {s : Shape} {kind : Scalar} (hs : s.scalar? = some kind) : Form c s (.scalar kind)
  | absent (s : Shape) : Form c s .absent
  | optional {inner : Shape} {conv : Converter} (h : Builds c inner conv) :
      Form c (.optional inner) (.nullable conv)
  | union {members : List Shape} {only : Shape} {conv : Converter}
      (hm : concrete members = [only]) (h : Builds c only conv) :
      Form c (.union members) (.nullable conv)
  | list {item : Shape} {conv : Converter} (h : Builds c item conv) :
      Form c (.list item) (.list conv)
  | map {key value : Shape} {kind : Scalar} {conv : Converter} (hkey : key.key? = some kind)
      (h : Builds c value conv) : Form c (.map key value) (.map kind conv)
  | record {id : SchemaId} {fs : List (String × Converter)}
      (h : Builds c (.record id) (.record id fs)) : Form c (.record id) (.record id fs)

/-- The second shape is the first one inside optional shapes and unions with one member besides
null. -/
inductive Shape.Unwraps : Shape → Shape → Prop
  | refl {s : Shape} : Unwraps s s
  | optional {inner t : Shape} (h : Unwraps inner t) : Unwraps (.optional inner) t
  | union {members : List Shape} {only t : Shape} (hm : concrete members = [only])
      (h : Unwraps only t) : Unwraps (.union members) t

theorem Builds.exists_unwraps {c : Catalog} {s : Shape} {conv : Converter} (h : Builds c s conv) :
    ∃ t, s.Unwraps t ∧ t.Form c conv := by
  have single : ∀ {kind}, s.scalar? = some kind → ∃ t, s.Unwraps t ∧ t.Form c conv := fun hs =>
    ⟨s, .refl, h.of_single hs ▸ .single hs⟩
  match s with
  | .any | .bool | .int | .float | .str | .date | .datetime => exact single rfl
  | .null =>
    obtain ⟨made, convs, hr, -⟩ := h.inv
    cases hr
  | .optional inner =>
    obtain ⟨part, rfl, hpart⟩ := h.of_optional
    exact ⟨_, .refl, .optional hpart⟩
  | .list item =>
    obtain ⟨part, rfl, hpart⟩ := h.of_list
    exact ⟨_, .refl, .list hpart⟩
  | .map key value =>
    obtain ⟨kind, part, hkind, rfl, hpart⟩ := h.of_map
    exact ⟨_, .refl, .map hkind hpart⟩
  | .union members =>
    obtain ⟨-, rfl⟩ | ⟨only, part, hm, hpart, rfl⟩ := h.of_union
    · exact ⟨_, .refl, .absent _⟩
    split
    · exact ⟨_, .refl, .union hm hpart⟩
    · obtain ⟨t, hunwraps, hform⟩ := hpart.exists_unwraps
      exact ⟨t, .union hm hunwraps, hform⟩
  | .record id =>
    obtain ⟨fs, rfl, -⟩ := h.of_record
    exact ⟨_, .refl, .record h⟩
termination_by sizeOf s
decreasing_by exact Shape.sizeOf_lt_of_concrete (by assumption)

namespace Domain

variable {d : Domain}

/-! ## Parts -/

theorem part_optional (inner : Shape) : d.Part inner (.optional inner) :=
  .inl ⟨_, rfl, List.mem_singleton_self inner⟩

theorem part_union {members : List Shape} {only : Shape} (hm : Shape.concrete members = [only]) :
    d.Part only (.union members) := by
  have hr : (Shape.union members).recipe d.catalog =
      .ok (.around only (if Shape.hasNull members then .nullable else id)) := by
    simp only [Shape.recipe, hm]
  exact .inl ⟨_, hr, List.mem_singleton_self only⟩

theorem part_list (item : Shape) : d.Part item (.list item) :=
  .inl ⟨_, rfl, List.mem_singleton_self item⟩

theorem part_map {key value : Shape} {kind : Scalar} (hkey : key.key? = some kind) :
    d.Part value (.map key value) := by
  have hr : (Shape.map key value).recipe d.catalog =
      .ok ⟨[key, value], fun convs => .map kind (convs.getLastD .absent)⟩ := by
    simp only [Shape.recipe, hkey]
  exact .inl ⟨_, hr, by simp⟩

theorem part_field {id : SchemaId} {f : Field} (hf : f ∈ d.catalog.allFields id) :
    d.Part f.shape (.record id) :=
  .inl ⟨_, rfl, List.mem_map.2 ⟨f, hf, rfl⟩⟩

theorem RegularWithin.trans {p s : Shape} (h : d.RegularWithin s) (hp : d.Within p s) :
    d.RegularWithin p :=
  fun id hid => h id (Relation.ReflTransGen.trans hid hp)

theorem RegularWithin.part {p s : Shape} (h : d.RegularWithin s) (hp : d.Part p s) :
    d.RegularWithin p :=
  h.trans (.single hp)

theorem within_member {id member : SchemaId} (h : Relation.ReflTransGen d.Member id member) :
    d.Within (.record member) (.record id) := by
  induction h with
  | refl => exact .refl
  | tail _ hstep ih => exact .head (.inr ⟨_, _, rfl, rfl, hstep⟩) ih

/-! ## Forms -/

theorem within_of_unwraps {s t : Shape} (h : s.Unwraps t) : d.Within t s := by
  induction h with
  | refl => exact .refl
  | optional _ ih => exact ih.tail (part_optional _)
  | union hm _ ih => exact ih.tail (part_union hm)

theorem hasShape_of_unwraps {s t : Shape} (h : s.Unwraps t) {v : Value} (hv : d.HasShape t v) :
    d.HasShape s v := by
  induction h with
  | refl => exact hv
  | optional _ ih => exact .optional (ih hv)
  | union hm _ ih => exact .union hm (ih hv)

/-- Up to unions that have the converter of their only member, a shape and its converter are of the
same form. -/
theorem exists_form {s : Shape} {conv : Converter} (h : Builds d.catalog s conv) :
    ∃ t, t.Form d.catalog conv ∧ d.Within t s ∧ ∀ v, d.HasShape t v → d.HasShape s v := by
  obtain ⟨t, hunwraps, hform⟩ := h.exists_unwraps
  exact ⟨t, hform, within_of_unwraps hunwraps, fun _ hv => hasShape_of_unwraps hunwraps hv⟩

/-! ## Members of families -/

theorem base_of_rootedFamily? {c : Catalog} {id : SchemaId} {f : Family}
    (h : c.rootedFamily? id = some f) : f.base = id :=
  of_decide_eq_true (Option.filter_eq_some_iff.1 h).2

theorem select_mem {f : Family} {index : FamilyIndex} {tag : Option String}
    (h : f.select index tag ≠ f.base) : f.select index tag ∈ index.map (·.2) := by
  unfold Family.select at h ⊢
  cases hget : tag.bind (Table.get? index) with
  | none => simp [hget] at h
  | some member =>
    obtain ⟨tag, -, htag⟩ := Option.bind_eq_some_iff.1 hget
    exact List.mem_map.2 ⟨_, Table.mem_of_get? htag, rfl⟩

/-- Wherever the tags of a payload lead, the converter there is the one of the schema. -/
theorem follow_builds {es : Object} {steps : Nat} {start target : Conversion.Target}
    (h : d.follow es steps start = .ok target)
    (hb : Builds d.catalog (.record start.schema) (.record start.schema start.fields)) :
    Relation.ReflTransGen d.Member start.schema target.schema ∧
      Builds d.catalog (.record target.schema) (.record target.schema target.fields) := by
  induction steps generalizing start with
  | zero =>
    cases h
    exact ⟨.refl, hb⟩
  | succ steps ih =>
    rw [follow_succ] at h
    cases hf : d.catalog.rootedFamily? start.schema with
    | none =>
      rw [hf] at h
      cases h
      exact ⟨.refl, hb⟩
    | some family =>
      rw [hf] at h
      simp only at h
      split at h
      · cases h
        exact ⟨.refl, hb⟩
      · next hne =>
        generalize (Table.get? es family.discriminator).bind Json.str? = tag at h hne
        have hmember : d.Member start.schema (family.select (d.indexOf family) tag) := by
          refine ⟨family, hf, select_mem ?_⟩
          rw [base_of_rootedFamily? hf]
          exact hne
        cases hconv : d.catalog.converter (.record (family.select (d.indexOf family) tag)) with
        | error e =>
          rw [hconv] at h
          cases h
        | ok conv =>
          rw [hconv] at h
          have hbuild := Catalog.converter_eq_ok.1 hconv
          obtain ⟨fs, rfl, -⟩ := hbuild.of_record
          obtain ⟨hreach, htarget⟩ := ih h hbuild
          exact ⟨.head hmember hreach, htarget⟩

end Domain

/-! ## Finishing -/

theorem Farm.filled_point (d : Domain) (id : SchemaId) {step : FinishStep}
    (h : step ∈ Farm.point.finish) :
    ∃ (e : String × Value) (s : Shape), (∀ r : Record, r.schema = id →
      r.finish step = r.fill e.1 e.2) ∧ (e.1, s) ∈ Farm.fillShapes ∧ d.HasShape s e.2 := by
  have fills : ∀ {field : String} {v : Value} {s : Shape}, (field, s) ∈ Farm.fillShapes →
      d.HasShape s v → ∃ (e : String × Value) (s : Shape), (∀ r : Record, r.schema = id →
        r.finish (.fill field v) = r.fill e.1 e.2) ∧ (e.1, s) ∈ Farm.fillShapes ∧
          d.HasShape s e.2 :=
    fun {field v s} hs hv => ⟨(field, v), s, fun r _ => r.finish_fill field v, hs, hv⟩
  have int : d.HasShape .int (.int 0) := .single rfl (.int 0 (by decide))
  simp only [Farm.point, List.mem_cons, List.not_mem_nil, or_false] at h
  rcases h with rfl | rfl | rfl | rfl | rfl | rfl
  · exact ⟨(Farm.pointerType, .str (Farm.pointFamily.tagOf id)), .str, fun r hr => hr ▸ rfl,
      by simp [Farm.fillShapes], .single rfl (.str _)⟩
  · exact fills (s := .map .str .any) (by simp [Farm.fillShapes]) (.map rfl (by simp) (by simp))
  · exact fills (by simp [Farm.fillShapes]) int
  · exact fills (by simp [Farm.fillShapes]) int
  · exact fills (by simp [Farm.fillShapes]) int
  · exact fills (s := .float) (by simp [Farm.fillShapes]) (.single rfl (.float _))

namespace Record.Typed

variable {d : Domain} {r : Record}

theorem finish (hr : r.Typed d) (hregular : d.Regular r.schema) {step : FinishStep}
    (hstep : step ∈ (d.catalog.lineage r.schema).flatMap (·.finish)) :
    (r.finish step).Typed d ∧ (r.finish step).schema = r.schema := by
  obtain ⟨t, ht, hstep⟩ := List.mem_flatMap.1 hstep
  rcases hregular.hooks t ht with hnone | rfl
  · rw [hnone] at hstep
    cases hstep
  obtain ⟨e, s, hfilled, hs, hv⟩ := Farm.filled_point d r.schema hstep
  rw [hfilled r rfl]
  refine ⟨hr.fill fun f hf hname => ?_, schema_fill r e.1 e.2⟩
  rw [hregular.filled ht f hf (e.1, s) hs hname]
  exact hv

theorem foldl_finish (hr : r.Typed d) (hregular : d.Regular r.schema) (steps : List FinishStep)
    (hsteps : ∀ step ∈ steps, step ∈ (d.catalog.lineage r.schema).flatMap (·.finish)) :
    (steps.foldl Record.finish r).Typed d ∧ (steps.foldl Record.finish r).schema = r.schema := by
  induction steps generalizing r with
  | nil => exact ⟨hr, rfl⟩
  | cons step steps ih =>
    obtain ⟨hstep, hrest⟩ := List.forall_mem_cons.1 hsteps
    obtain ⟨htyped, hschema⟩ := hr.finish hregular hstep
    rw [← hschema] at hregular hrest ⊢
    exact ih htyped hregular hrest

theorem assemble {id : SchemaId} (hregular : d.Regular id) {fields : List (String × Value)}
    (h : ∀ f ∈ d.catalog.allFields id, ∃ v, Table.get? fields f.name = some v ∧
      d.HasShape f.shape v) (es : Object) :
    (d.catalog.assemble id fields es).Typed d ∧ (d.catalog.assemble id fields es).schema = id := by
  have hdefaults : d.catalog.withDefaults id fields = fields := by
    refine Catalog.withDefaults_eq_self fun f hf => ?_
    obtain ⟨v, hv, -⟩ := h f hf
    rw [Table.has, hv]
    rfl
  have hraw : Record.Typed d ⟨id, fields, Catalog.extras fields es⟩ := h
  unfold Catalog.assemble
  simp only
  rw [hdefaults]
  exact hraw.foldl_finish hregular _ fun _ hstep => hstep

end Record.Typed

/-! ## Conversion -/

namespace Domain

variable {d : Domain}

/-- What the payload is converted to along a converter has the shapes that the converter is for. -/
def Types (d : Domain) (conv : Converter) (raw : Json) : Prop :=
  ∀ s v, Builds d.catalog s conv → d.RegularWithin s → d.apply conv raw = .ok v → d.HasShape s v

theorem types_of_form {conv : Converter} {raw : Json}
    (h : ∀ s v, s.Form d.catalog conv → d.RegularWithin s → d.apply conv raw = .ok v →
      d.HasShape s v) : d.Types conv raw := by
  intro s v hb hs happly
  obtain ⟨t, hform, hwithin, hshape⟩ := exists_form hb
  exact hshape v (h t v hform (hs.trans hwithin) happly)

theorem hasShape_fields {id : SchemaId} {fs : List (String × Converter)}
    (hb : Builds d.catalog (.record id) (.record id fs)) (hs : d.RegularWithin (.record id))
    {es : Object} (hparts : ∀ conv name, d.Types conv ((Table.get? es name).getD .null))
    {fields : List (String × Value)} (h : d.fields fs es [] = .ok fields) :
    ∀ f ∈ d.catalog.allFields id, ∃ v, Table.get? fields f.name = some v ∧
      d.HasShape f.shape v := by
  obtain ⟨fs', heq, hnames, hfields⟩ := hb.of_record
  cases heq
  intro f hf
  have hname : f.name ∈ fs.map (·.1) := by
    rw [hnames]
    exact List.mem_map.2 ⟨f, hf, rfl⟩
  obtain ⟨e, he, hef⟩ := List.mem_map.1 hname
  obtain ⟨g, hg, hge, hbuild⟩ := hfields e he
  obtain rfl : g = f := Catalog.eq_of_name_eq hg hf (hge.trans hef)
  have hnodup : (fs.map (·.1)).Nodup := by
    rw [hnames]
    exact Catalog.nodup_allFields _ _
  obtain ⟨v, hv, happly⟩ := get?_fields h hnodup e he
  rw [hef] at hv
  exact ⟨v, hv, hparts _ _ _ _ hbuild (hs.part (part_field hg)) happly⟩

theorem types (conv : Converter) (raw : Json) : d.Types conv raw := by
  induction conv, raw using Conversion.conversion_induction with
  | scalar kind raw =>
    refine types_of_form fun s v hform _ h => ?_
    cases hform with
    | single hs =>
      rw [apply_scalar] at h
      obtain rfl | hv := (Scalar.has_of_convert h).holds
      · exact .null s
      · exact .single hs hv
  | absent raw =>
    intro s v _ _ h
    rw [apply_absent] at h
    cases h
    exact .null s
  | nullable inner raw ih =>
    refine types_of_form fun s v hform hs h => ?_
    rw [apply_nullable] at h
    split at h
    · cases h
      exact .null s
    cases hform with
    | optional hb => exact .optional (ih _ v hb (hs.part (part_optional _)) h)
    | union hm hb => exact .union hm (ih _ v hb (hs.part (part_union hm)) h)
  | list item raw ih =>
    refine types_of_form fun s v hform hs h => ?_
    obtain rfl | ⟨vs, xs, hvs, hxs, rfl⟩ := of_apply_list h
    · exact .null s
    cases hform with
    | list hb =>
      refine .list fun x hx => ?_
      obtain ⟨w, hw, hwx⟩ := of_items hxs x hx
      exact ih vs hvs w hw _ x hb (hs.part (part_list _)) hwx
  | map key value raw ih =>
    refine types_of_form fun s v hform hs h => ?_
    obtain rfl | ⟨es, entries, hes, hentries, rfl⟩ := of_apply_map h
    · exact .null s
    cases hform with
    | map hkey hb =>
      have hfrom : ∀ e ∈ entries,
          ∃ f ∈ es, key.convertKey f.1 = .ok e.1 ∧ d.apply value f.2 = .ok e.2 :=
        fun e he => (of_entries hentries e he).resolve_left List.not_mem_nil
      refine .map (Option.filter_eq_some_iff.1 hkey).1 (fun e he => ?_) fun e he => ?_
      · obtain ⟨f, -, hk, -⟩ := hfrom e he
        exact Scalar.holdsKey_of_convertKey hk
      · obtain ⟨f, hf, -, hv⟩ := hfrom e he
        exact ih es hes f hf _ e.2 hb (hs.part (part_map hkey)) hv
  | record id fs raw ih =>
    refine types_of_form fun s v hform hs h => ?_
    obtain rfl | ⟨es, target, fields, hes, hfollow, hfields, rfl⟩ := of_apply_record h
    · exact .null s
    cases hform with
    | record hb =>
      -- the fields are those of the schema that the tags lead to, which need not be `id`
      obtain ⟨hmember, hbuild⟩ := follow_builds hfollow hb
      have hregular := hs.trans (within_member hmember)
      have hshapes := hasShape_fields hbuild hregular (ih es hes) hfields
      obtain ⟨htyped, hschema⟩ := Record.Typed.assemble (hregular _ .refl) hshapes es
      rw [hasShape_record_iff, hschema]
      exact ⟨hmember, htyped⟩

/-- A value that is read from a payload under a shape has the shape. -/
theorem hasShape_of_read {s : Shape} (hs : d.RegularWithin s) {raw : Json} {v : Value}
    (h : d.read s raw = .ok v) : d.HasShape s v := by
  unfold read at h
  cases hconv : d.catalog.converter s with
  | error e =>
    rw [hconv] at h
    cases h
  | ok conv =>
    rw [hconv] at h
    simp only at h
    cases happly : d.apply conv raw with
    | error e =>
      rw [happly] at h
      cases h
    | ok w =>
      rw [happly] at h
      cases h
      exact types conv raw s v (Catalog.converter_eq_ok.1 hconv) hs happly

end Domain

end GardenMap
