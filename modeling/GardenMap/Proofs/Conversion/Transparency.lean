import GardenMap.Proofs.Conversion.Dispatch
import GardenMap.Proofs.Conversion.Shapes
import GardenMap.Proofs.Conversion.WellFormed
import GardenMap.Proofs.Record.Soundness

/-!
# Tags are transparent

A payload that its tag sends from the base of a family to a member becomes the record that it becomes
for the member itself, or is refused for the same reason (`tag_is_transparent`). The base must have a
converter, or nothing is sent anywhere (`tag_is_not_read_without_converter`): it has one where the
member keeps the fields of the base.

Proof. Both ways convert the same fields by the same converters, so they give one record or one error
(`apply_base`). The error from the base names the member, which the direct one leaves to its shape:
errors of fields name no schema.
-/

namespace GardenMap

/-! ## Two ways to convert a payload -/

namespace Domain

variable {d : Domain}

theorem schema_of_fields_error {fs : List (String × Converter)} {es : Object}
    {done : List (String × Value)} {e : ConvertError} (h : d.fields fs es done = .error e) :
    e.schema = none := by
  induction fs generalizing done with
  | nil =>
    rw [fields_nil] at h
    cases h
  | cons f fs ih =>
    obtain ⟨name, conv⟩ := f
    rw [fields_cons] at h
    cases hv : d.apply conv ((Table.get? es name).getD .null) with
    | error e' =>
      rw [hv] at h
      cases h
      rfl
    | ok x =>
      rw [hv] at h
      exact ih h

variable {f : Family} {member : SchemaId} {fs : List (String × Converter)} {raw : Json}
variable {es : Object}

theorem apply_unrooted (hroot : d.catalog.rootedFamily? member = none)
    (hraw : Payload.record raw = .ok (some es)) :
    d.apply (.record member fs) raw =
      (d.fields fs es []).map fun typed => .record (d.catalog.assemble member typed es) := by
  have hstay : d.follow es d.catalog.length ⟨member, fs, none⟩ = .ok ⟨member, fs, none⟩ :=
    follow_eq_self hroot es _
  rw [apply_record, hraw]
  simp only [hstay]
  cases d.fields fs es [] <;> rfl

/-- The base of a family converts by the fields of the member that the tag names. -/
theorem apply_base (hbase : d.catalog.rootedFamily? f.base = some f)
    (hroot : d.catalog.rootedFamily? member = none)
    (hconv : d.catalog.converter (.record member) = .ok (.record member fs))
    (hraw : Payload.record raw = .ok (some es))
    (hmember : f.select (d.indexOf f) ((Table.get? es f.discriminator).bind Json.str?) = member)
    (fs' : List (String × Converter)) :
    d.apply (.record f.base fs') raw =
      (d.apply (.record member fs) raw).mapError (·.within member.name) := by
  have hne : member ≠ f.base := by
    rintro rfl
    rw [hbase] at hroot
    cases hroot
  have hfollow : d.follow es d.catalog.length ⟨f.base, fs', none⟩ =
      .ok ⟨member, fs, some member.name⟩ := by
    rw [follow_base hbase es hmember fun _ => hroot, if_neg hne, hconv]
    rfl
  rw [apply_unrooted hroot hraw, apply_record, hraw]
  simp only [hfollow]
  cases d.fields fs es [] <;> rfl

end Domain

/-- Two answers to a payload agree: both are one record of the schema, or both refuse the payload in
the name of the schema and for one reason. -/
inductive Agree (schema : SchemaId) (payload : Json) :
    Except Error Record → Except Error Record → Prop
  | made {r : Record} (h : r.schema = schema) : Agree schema payload (.ok r) (.ok r)
  | refused {why why' : Rejection} (h : why.message = why'.message) :
      Agree schema payload (.error (.rejected schema.name payload why))
        (.error (.rejected schema.name payload why'))

namespace Domain

variable {d : Domain} {f : Family} {member : SchemaId} {conv : Converter} {raw : Json}
variable {es : Object}

theorem record_base_agrees (hbase : d.catalog.rootedFamily? f.base = some f)
    (hroot : d.catalog.rootedFamily? member = none)
    (hconv : d.catalog.converter (.record member) = .ok conv)
    (hraw : Payload.record raw = .ok (some es))
    (hmember : f.select (d.indexOf f) ((Table.get? es f.discriminator).bind Json.str?) = member)
    {base : Converter} (hb : d.catalog.converter (.record f.base) = .ok base) :
    Agree member raw (d.record f.base raw) (d.record member raw) := by
  obtain ⟨fs, rfl, -⟩ := (Catalog.converter_eq_ok.1 hconv).of_record
  obtain ⟨fs', rfl, -⟩ := (Catalog.converter_eq_ok.1 hb).of_record
  unfold record read
  simp only [hb, hconv, apply_base hbase hroot hconv hraw hmember fs', apply_unrooted hroot hraw]
  cases ht : d.fields fs es [] with
  | ok typed => exact .made (d.catalog.schema_assemble member typed es)
  | error e =>
    have hnamed : Error.ofMisfit (.record member) raw e =
        .rejected member.name raw (.misfit e) := by
      rw [Error.ofMisfit, schema_of_fields_error ht]
      rfl
    show Agree member raw (.error (Error.ofMisfit _ raw (e.within member.name)))
      (.error (Error.ofMisfit _ raw e))
    rw [hnamed]
    exact .refused rfl

end Domain

theorem Ledger.indexOf_domain {c : Catalog} (l : Ledger) {f : Family}
    (h : c.rootedFamily? f.base = some f) : (l.domain c).indexOf f = f.indexOf c (l f) := by
  have hregistered : l.ofBase c f.base = l f := by
    rw [Ledger.ofBase, h]
    rfl
  exact congrArg (f.indexOf c) hregistered

namespace Desk

theorem answer_record (c : Catalog) (calls : List Call) (id : SchemaId) (raw : Json) :
    ((after c calls).answer c (.record id raw)).1 =
      .record (((Ledger.after calls).domain c).record id raw) :=
  ((valid_after c calls).answer (.record id raw)).1

theorem answer_record_unresolved {c : Catalog} {id : SchemaId} {e : ShapeError}
    (he : c.converter (.record id) = .error e) (calls : List Call) (raw : Json) :
    ((after c calls).answer c (.record id raw)).1 = .record (.error (.unresolved e)) := by
  rw [answer_record]
  unfold Domain.record Domain.read Ledger.domain
  simp only [he]
  rfl

/-- Whatever was called before, take a member that a tag leads to from the base of a family, with a
converter and no family of its own, and a payload, an object or the text of one, that has this tag.
Read for the base or for the member it gives one answer. Only a base without a converter refuses
every payload, and it has one if the member declares the fields of the base as they are. -/
theorem tag_is_transparent (c : Catalog) (calls : List Call) (raw : Json) {f : Family}
    {tag : String} {member : SchemaId} {conv : Converter} {es : Object}
    (hbase : c.rootedFamily? f.base = some f)
    (hmember : ((after c calls).answer c (.subtype f (some tag))).1 = .member member)
    (hroot : c.rootedFamily? member = none) (hconv : c.converter (.record member) = .ok conv)
    (hraw : Payload.record raw = .ok (some es))
    (htag : Table.get? es f.discriminator = some (.str tag)) :
    (∀ base, c.converter (.record f.base) = .ok base → ∃ x y,
      ((after c calls).answer c (.record f.base raw)).1 = .record x ∧
      ((after c calls).answer c (.record member raw)).1 = .record y ∧ Agree member raw x y) ∧
    (∀ e, c.converter (.record f.base) = .error e →
      ((after c calls).answer c (.record f.base raw)).1 = .record (.error (.unresolved e))) ∧
    ((∀ g ∈ c.allFields f.base, g ∈ c.allFields member) →
      ∃ base, c.converter (.record f.base) = .ok base) := by
  rw [subtype_eq_select] at hmember
  refine ⟨fun base hb => ?_, fun e he => answer_record_unresolved he calls raw,
    fun hfields => ?_⟩
  · have hselect : f.select (((Ledger.after calls).domain c).indexOf f)
        ((Table.get? es f.discriminator).bind Json.str?) = member := by
      rw [Ledger.indexOf_domain _ hbase, htag]
      exact Answer.member.inj hmember
    exact ⟨_, _, answer_record c calls f.base raw, answer_record c calls member raw,
      Domain.record_base_agrees hbase hroot hconv hraw hselect hb⟩
  · have hwell : (Shape.record f.base).WellFormed c := by
      cases exists_builds_iff.1 ⟨conv, Catalog.converter_eq_ok.1 hconv⟩ with
      | single h => cases h
      | record h => exact .record fun g hg => h g (hfields g hg)
    obtain ⟨base, hb⟩ := exists_builds_iff.2 hwell
    exact ⟨base, Catalog.converter_eq_ok.2 hb⟩

/-- A plant with a bad place, read as a point and as a plant. -/
theorem tag_is_transparent_for_plants : ∃ x y,
    ((after Farm.schemas [.reset]).answer Farm.schemas (.record Farm.Id.point
      (.obj [(Farm.pointerType, .str "Plant"), ("x", .str "far")]))).1 = .record x ∧
    ((after Farm.schemas [.reset]).answer Farm.schemas (.record Farm.Id.plant
      (.obj [(Farm.pointerType, .str "Plant"), ("x", .str "far")]))).1 = .record y ∧
    Agree Farm.Id.plant (.obj [(Farm.pointerType, .str "Plant"), ("x", .str "far")]) x y := by
  obtain ⟨conv, hconv⟩ := exists_builds_iff.2
    (Farm.hasPoints_domain.wellFormed (show Farm.Id.plant ∈ Farm.pointIds by decide))
  have hmember : ((after Farm.schemas [.reset]).answer Farm.schemas
      (.subtype Farm.pointFamily (some "Plant"))).1 = .member Farm.Id.plant := by
    rw [subtype_eq_select]
    exact congrArg Answer.member (by decide +kernel)
  obtain ⟨hagree, -, hbase⟩ := tag_is_transparent Farm.schemas [.reset]
    (.obj [(Farm.pointerType, .str "Plant"), ("x", .str "far")]) (by decide) hmember (by decide)
    (Catalog.converter_eq_ok.2 hconv) rfl rfl
  obtain ⟨base, hb⟩ := hbase (by decide)
  exact hagree base hb

/-- Boxes, of which crates have a plain number as size. -/
def boxFamily : Family := ⟨⟨"Box", 0⟩, "kind", "GenericBox", [⟨"Crate", 0⟩]⟩

/-- The base of that family, whose size is a union that no converter fits. -/
def boxSchema : Schema where
  id := boxFamily.base
  bases := []
  fields := [⟨"kind", .str⟩, ⟨"size", .union [.int, .str]⟩]
  family := some boxFamily

/-- The member, which declares the size again. -/
def crateSchema : Schema where
  id := ⟨"Crate", 0⟩
  bases := [boxFamily.base]
  fields := [⟨"size", .int⟩]

def boxes : Catalog := [crateSchema, boxSchema]

theorem wellFormed_crate : (Shape.record crateSchema.id).WellFormed boxes := by
  refine .record fun f hf => ?_
  have hfields : boxes.allFields crateSchema.id = [⟨"kind", .str⟩, ⟨"size", .int⟩] := by rfl
  rw [hfields] at hf
  rcases List.mem_pair.1 hf with rfl | rfl <;> exact .single rfl

theorem not_wellFormed_box : ¬(Shape.record boxSchema.id).WellFormed boxes := by
  intro h
  cases h with
  | single hs => cases hs
  | record hfields =>
    cases hfields ⟨"size", .union [.int, .str]⟩ (by decide +kernel) with
    | single hs => cases hs
    | union hone => exact absurd hone (by decide)

/-- A base without a converter refuses the payload of a member before it reads the tag. -/
theorem tag_is_not_read_without_converter :
    ¬∀ (c : Catalog) (calls : List Call) (raw : Json) (f : Family) (tag : String)
      (member : SchemaId) (conv : Converter) (es : Object),
      c.rootedFamily? f.base = some f →
      ((after c calls).answer c (.subtype f (some tag))).1 = .member member →
      c.rootedFamily? member = none → c.converter (.record member) = .ok conv →
      Payload.record raw = .ok (some es) → Table.get? es f.discriminator = some (.str tag) →
      ∃ x y, ((after c calls).answer c (.record f.base raw)).1 = .record x ∧
        ((after c calls).answer c (.record member raw)).1 = .record y ∧ Agree member raw x y := by
  intro h
  have hmember : ((after boxes []).answer boxes (.subtype boxFamily (some "Crate"))).1 =
      .member crateSchema.id := by
    rw [subtype_eq_select]
    exact congrArg Answer.member (by decide +kernel)
  obtain ⟨conv, hconv⟩ := exists_builds_iff.2 wellFormed_crate
  obtain ⟨x, y, hx, -, hagree⟩ := h boxes [] (.obj [("kind", .str "Crate"), ("size", .int 1)])
    boxFamily "Crate" crateSchema.id conv _ (by decide) hmember (by decide)
    (Catalog.converter_eq_ok.2 hconv) rfl rfl
  cases hbox : boxes.converter (.record boxSchema.id) with
  | ok base =>
    exact not_wellFormed_box (exists_builds_iff.1 ⟨base, Catalog.converter_eq_ok.1 hbox⟩)
  | error e =>
    rw [show boxFamily.base = boxSchema.id from rfl, answer_record_unresolved hbox] at hx
    cases hx
    cases hagree

end Desk

end GardenMap
