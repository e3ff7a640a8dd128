import Mathlib.Data.List.Basic
import Mathlib.Logic.Relation
import GardenMap.Proofs.Conversion.Records
import GardenMap.Proofs.Conversion.Resolution

/-!
# Shapes that restore

The converter of a shape restores when the record converters within it do (`restores_of_builds`), by
induction on how it is built. Records of schemas without hooks and families are the simple case
(`restores_of_isPlain`): they are sent nowhere and finished by nothing.
-/

namespace GardenMap

/-! ## How record converters are built -/

namespace Builds

variable {c : Catalog}

theorem inv {s : Shape} {conv : Converter} (h : Builds c s conv) :
    ∃ made convs, s.recipe c = .ok made ∧ convs.length = made.parts.length ∧
      (∀ x ∈ made.parts.zip convs, Builds c x.1 x.2) ∧ conv = made.assemble convs := by
  cases h with
  | intro hr hlen hp => exact ⟨_, _, hr, hlen, hp, rfl⟩

theorem single {s : Shape} {kind : Scalar} (hs : s.scalar? = some kind) :
    Builds c s (.scalar kind) := by
  have hr : s.recipe c = .ok ⟨[], fun _ => .scalar kind⟩ := by
    cases s <;> cases hs <;> rfl
  exact @Builds.intro c s ⟨[], fun _ => .scalar kind⟩ [] hr rfl (by simp)

protected theorem list {item : Shape} {part : Converter} (h : Builds c item part) :
    Builds c (.list item) (.list part) :=
  @Builds.intro _ (.list item) _ [part] rfl rfl (List.forall_mem_singleton.2 h)

protected theorem optional {inner : Shape} {part : Converter} (h : Builds c inner part) :
    Builds c (.optional inner) (.nullable part) :=
  @Builds.intro _ (.optional inner) _ [part] rfl rfl (List.forall_mem_singleton.2 h)

protected theorem map {key value : Shape} {kind : Scalar} {part : Converter}
    (hkey : key.key? = some kind) (h : Builds c value part) :
    Builds c (.map key value) (.map kind part) := by
  have hr : (Shape.map key value).recipe c =
      .ok ⟨[key, value], fun convs => .map kind (convs.getLastD .absent)⟩ := by
    rw [Shape.recipe, hkey]
  have hsingle : key.scalar? = some kind := (Option.filter_eq_some_iff.1 hkey).1
  exact @Builds.intro _ _ _ [.scalar kind, part] hr rfl
    (List.forall_mem_cons.2 ⟨single hsingle, List.forall_mem_singleton.2 h⟩)

theorem of_record {id : SchemaId} {conv : Converter} (h : Builds c (.record id) conv) :
    ∃ fs, conv = .record id fs ∧ fs.map (·.1) = (c.allFields id).map (·.name) ∧
      ∀ f ∈ fs, ∃ g ∈ c.allFields id, g.name = f.1 ∧ Builds c g.shape f.2 := by
  obtain ⟨made, convs, hr, hlen, hp, rfl⟩ := h.inv
  cases hr
  simp only [List.length_map] at hlen
  refine ⟨_, rfl, ?_, fun f hf => ?_⟩
  · exact List.map_fst_zip (by simp [hlen])
  · rw [List.zip_map_left] at hf
    obtain ⟨⟨g, conv⟩, hg, rfl⟩ := List.mem_map.1 hf
    refine ⟨g, (List.of_mem_zip hg).1, rfl, hp (g.shape, conv) ?_⟩
    rw [List.zip_map_left]
    exact List.mem_map.2 ⟨_, hg, rfl⟩

theorem of_single {s : Shape} {kind : Scalar} {conv : Converter} (h : Builds c s conv)
    (hs : s.scalar? = some kind) : conv = .scalar kind := h.det (single hs)

theorem of_optional {inner : Shape} {conv : Converter} (h : Builds c (.optional inner) conv) :
    ∃ part, conv = .nullable part ∧ Builds c inner part := by
  obtain ⟨made, convs, hr, hlen, hp, rfl⟩ := h.inv
  cases hr
  obtain ⟨part, rfl⟩ := List.length_eq_one_iff.1 hlen
  exact ⟨part, rfl, hp (inner, part) (by simp [Recipe.around])⟩

theorem of_list {item : Shape} {conv : Converter} (h : Builds c (.list item) conv) :
    ∃ part, conv = .list part ∧ Builds c item part := by
  obtain ⟨made, convs, hr, hlen, hp, rfl⟩ := h.inv
  cases hr
  obtain ⟨part, rfl⟩ := List.length_eq_one_iff.1 hlen
  exact ⟨part, rfl, hp (item, part) (by simp [Recipe.around])⟩

theorem of_map {key value : Shape} {conv : Converter} (h : Builds c (.map key value) conv) :
    ∃ kind part, key.key? = some kind ∧ conv = .map kind part ∧ Builds c value part := by
  obtain ⟨made, convs, hr, hlen, hp, rfl⟩ := h.inv
  simp only [Shape.recipe] at hr
  split at hr
  · cases hr
  · next kind hkind =>
    cases hr
    obtain ⟨_, part, rfl⟩ := List.length_eq_two.1 hlen
    exact ⟨kind, part, hkind, rfl, hp (value, part) (by simp)⟩

theorem of_union {members : List Shape} {conv : Converter} (h : Builds c (.union members) conv) :
    Shape.concrete members = [] ∧ conv = .absent ∨
      ∃ only part, Shape.concrete members = [only] ∧ Builds c only part ∧
        conv = if Shape.hasNull members then .nullable part else part := by
  obtain ⟨made, convs, hr, hlen, hp, rfl⟩ := h.inv
  simp only [Shape.recipe] at hr
  split at hr
  · next hm =>
    cases hr
    exact .inl ⟨hm, rfl⟩
  · next only hm =>
    cases hr
    obtain ⟨part, rfl⟩ := List.length_eq_one_iff.1 hlen
    refine .inr ⟨only, part, hm, hp (only, part) (by simp [Recipe.around]), ?_⟩
    simp only [Recipe.around, List.headD_cons]
    split <;> rfl
  · cases hr

end Builds

theorem Catalog.exists_converter_single {d : Domain} {single s : Shape} {kind : Scalar}
    (hkind : single.scalar? = some kind) (hs : s = single ∨ s = .optional single) {v : Json}
    (hv : Payload.isNone v = false) :
    ∃ conv, d.catalog.converter s = .ok conv ∧ d.apply conv v = kind.convert v := by
  have hsingle : Builds d.catalog single (.scalar kind) := .single hkind
  rcases hs with rfl | rfl
  · exact ⟨_, Catalog.converter_eq_ok.2 hsingle, by rw [Domain.apply_scalar]⟩
  · refine ⟨_, Catalog.converter_eq_ok.2 hsingle.optional, ?_⟩
    rw [Domain.apply_nullable, hv, Domain.apply_scalar]
    rfl

/-- Neither the schema nor one that it extends has finishing steps or is the base of a family. -/
def Catalog.IsPlain (c : Catalog) (id : SchemaId) : Prop :=
  ∀ s, c.find? id = some s ∨ s ∈ c.lineage id → s.finish = [] ∧ s.family = none

theorem Shape.mem_of_reached {Part : Shape → Shape → Prop} {ss : List Shape}
    (hparts : ∀ s ∈ ss, ∀ p, Part p s → p ∈ ss) {p s : Shape}
    (h : Relation.ReflTransGen Part p s) (hs : s ∈ ss) : p ∈ ss := by
  induction h using Relation.ReflTransGen.head_induction_on with
  | refl => exact hs
  | head hp _ ih => exact hparts _ ih _ hp

namespace Domain

variable {d : Domain}

/-! ## Shapes -/

theorem restores_headD {convs : List Converter} (h : ∀ conv ∈ convs, d.Restores conv) :
    d.Restores (convs.headD .absent) := by
  cases convs with
  | nil => exact restores_absent
  | cons conv convs => exact h conv (by simp)

theorem restores_getLastD {convs : List Converter} (h : ∀ conv ∈ convs, d.Restores conv) :
    d.Restores (convs.getLastD .absent) := by
  rw [List.getLastD_eq_getLast?]
  cases hlast : convs.getLast? with
  | none => exact restores_absent
  | some conv => exact h conv (List.mem_of_getLast? hlast)

theorem restores_assemble {s : Shape} {made : Recipe} {convs : List Converter}
    (hr : s.recipe d.catalog = .ok made) (hs : ∀ id, s ≠ .record id)
    (h : ∀ conv ∈ convs, d.Restores conv) : d.Restores (made.assemble convs) := by
  cases s with
  | any | bool | int | float | str | date | datetime =>
    cases hr
    exact restores_scalar _
  | null => cases hr
  | optional inner =>
    cases hr
    exact (restores_headD h).nullable
  | list item =>
    cases hr
    exact (restores_headD h).list
  | map key value =>
    simp only [Shape.recipe] at hr
    split at hr
    · cases hr
    · cases hr
      exact (restores_getLastD h).map
  | union members =>
    simp only [Shape.recipe] at hr
    split at hr
    · cases hr
      exact restores_absent
    · cases hr
      simp only [Recipe.around]
      split
      · exact (restores_headD h).nullable
      · exact restores_headD h
    · cases hr
  | record id => exact absurd rfl (hs id)

/-- A shape restores when the records within it do. -/
theorem restores_of_builds {P : SchemaId → Prop}
    (hrecord : ∀ id fs, P id → Builds d.catalog (.record id) (.record id fs) →
      (∀ f ∈ fs, d.Restores f.2) → d.Restores (.record id fs))
    {s : Shape} {conv : Converter} (hb : Builds d.catalog s conv)
    (hs : ∀ id, Relation.ReflTransGen (Shape.Part d.catalog) (.record id) s → P id) :
    d.Restores conv := by
  induction hb with
  | @intro s made convs hr hlen hp ih =>
    have hparts : ∀ conv ∈ convs, d.Restores conv := by
      intro conv hconv
      obtain ⟨p, hmem⟩ := exists_zip_snd hlen hconv
      exact ih _ hmem fun id hid => hs id (hid.tail ⟨made, hr, (List.of_mem_zip hmem).1⟩)
    by_cases hid : ∃ id, s = .record id
    · obtain ⟨id, rfl⟩ := hid
      have hb : Builds d.catalog (.record id) (made.assemble convs) := .intro hr hlen hp
      cases hr
      refine hrecord id _ (hs id .refl) hb fun f hf => ?_
      exact hparts f.2 (List.of_mem_zip hf).2
    · exact restores_assemble hr (fun id h => hid ⟨id, h⟩) hparts

/-! ## Records without hooks -/

theorem restores_of_fills {id : SchemaId} {fs : List (String × Converter)}
    {fills : List (String × Value)} (hroot : d.catalog.rootedFamily? id = none)
    (hd : d.Fills id fs fills) : d.Restores (.record id fs) := by
  refine restores_record fun es target hfollow => ?_
  have hstay : ∀ es, d.follow es d.catalog.length ⟨id, fs, none⟩ = .ok ⟨id, fs, none⟩ :=
    fun es => follow_eq_self hroot es _
  rw [hstay] at hfollow
  cases hfollow
  exact ⟨fills, hd, fun typed _ _ => hstay _⟩

theorem restores_of_isPlain {id : SchemaId} {fs : List (String × Converter)}
    (hplain : d.catalog.IsPlain id) (hb : Builds d.catalog (.record id) (.record id fs))
    (h : ∀ f ∈ fs, d.Restores f.2) : d.Restores (.record id fs) := by
  have hroot : d.catalog.rootedFamily? id = none := by
    unfold Catalog.rootedFamily?
    cases hs : d.catalog.find? id with
    | none => rfl
    | some s =>
      rw [Option.bind_some, (hplain s (.inl hs)).2]
      rfl
  obtain ⟨fs', heq, hnames, -⟩ := hb.of_record
  cases heq
  have hfinish : (d.catalog.lineage id).flatMap (·.finish) = [] := by
    rw [List.flatMap_eq_nil_iff]
    exact fun s hs => (hplain s (.inr hs)).1
  have hd : d.Fills id fs [] := ⟨hnames, h, fun r _ => by rw [hfinish]; rfl, by simp, by simp⟩
  exact restores_of_fills hroot hd

end Domain

end GardenMap
