import GardenMap.Conversion.Cache
import GardenMap.Proofs.Conversion.Forms
import GardenMap.Proofs.Conversion.Resolution

/-!
# Conversion with a memory

Conversion asks a source for members and field converters. Two sources that give the same answers
from related states make the same conversions (`convert_agree`), and a cache is such a source beside
the domain that finds everything afresh, as long as its registry is sound and its indexes are those
of the registrations (`Cache.read_agree`).

Proof. Each walk over the parts of a payload agrees when the conversions of the parts do;
`conversion_induction` ties the knot.
-/

namespace GardenMap

/-- The same answer, and related states. -/
def Alike {σ τ α : Type} (R : σ → τ → Prop) (p : α × σ) (q : α × τ) : Prop :=
  ∃ a s t, p = (a, s) ∧ q = (a, t) ∧ R s t

theorem Alike.intro {σ τ α : Type} {R : σ → τ → Prop} {s : σ} {t : τ} (a : α) (h : R s t) :
    Alike R (a, s) (a, t) := ⟨a, s, t, rfl, rfl, h⟩

/-- For every family of the catalog and every schema, from related states. -/
structure Source.Agree {σ τ : Type} (c : Catalog) (A : Source σ) (B : Source τ)
    (R : σ → τ → Prop) : Prop where
  member : ∀ id f tag s t, c.rootedFamily? id = some f → R s t →
    Alike R (A.member f tag s) (B.member f tag t)
  fieldsOf : ∀ id s t, R s t → Alike R (A.fieldsOf id s) (B.fieldsOf id t)

namespace Conversion

variable {σ τ : Type} {c : Catalog} {A : Source σ} {B : Source τ} {R : σ → τ → Prop}

/-! ## Walks -/

theorem dispatch_agree (hAB : A.Agree c B R) (entries : Object) (steps : Nat) (target : Target)
    (s : σ) (t : τ) (h : R s t) :
    Alike R (dispatch c A entries steps target s) (dispatch c B entries steps target t) := by
  induction steps generalizing target s t with
  | zero => exact .intro _ h
  | succ steps ih =>
    rw [dispatch, dispatch]
    cases hf : c.rootedFamily? target.schema with
    | none => exact .intro _ h
    | some f =>
      obtain ⟨member, s₁, t₁, hs, ht, h₁⟩ := hAB.member _ f
        ((Table.get? entries f.discriminator).bind Json.str?) s t hf h
      simp only [hs, ht]
      by_cases hm : member = target.schema
      · rw [if_pos hm, if_pos hm]
        exact .intro _ h₁
      rw [if_neg hm, if_neg hm]
      obtain ⟨fields, s₂, t₂, hs, ht, h₂⟩ := hAB.fieldsOf member s₁ t₁ h₁
      rw [hs, ht]
      cases fields with
      | error e => exact .intro _ h₂
      | ok fields => exact ih _ s₂ t₂ h₂

/-- The conversions of a payload agree. -/
def AgreeOn (c : Catalog) (A : Source σ) (B : Source τ) (R : σ → τ → Prop) (conv : Converter)
    (v : Json) : Prop := ∀ s t, R s t → Alike R (convert c A conv v s) (convert c B conv v t)

theorem convertItems_agree {item : Converter} {vs : List Json}
    (hvs : ∀ v ∈ vs, AgreeOn c A B R item v) (position : Nat) (s : σ) (t : τ) (h : R s t) :
    Alike R (convertItems c A item vs position s) (convertItems c B item vs position t) := by
  induction vs generalizing position s t with
  | nil =>
    rw [convertItems, convertItems]
    exact .intro _ h
  | cons v vs ih =>
    rw [convertItems, convertItems]
    obtain ⟨x, s₁, t₁, hs, ht, h₁⟩ := hvs v (by simp) s t h
    rw [hs, ht]
    cases x with
    | error e => exact .intro _ h₁
    | ok x =>
      obtain ⟨xs, s₂, t₂, hs, ht, h₂⟩ :=
        ih (fun w hw => hvs w (by simp [hw])) (position + 1) s₁ t₁ h₁
      simp only
      rw [hs, ht]
      cases xs <;> exact .intro _ h₂

theorem convertEntries_agree {key : Scalar} {value : Converter} {es : Object}
    (hes : ∀ e ∈ es, AgreeOn c A B R value e.2) (done : List (MapKey × Value)) (s : σ) (t : τ)
    (h : R s t) :
    Alike R (convertEntries c A key value es done s) (convertEntries c B key value es done t) := by
  induction es generalizing done s t with
  | nil =>
    rw [convertEntries, convertEntries]
    exact .intro _ h
  | cons e es ih =>
    obtain ⟨k, v⟩ := e
    rw [convertEntries, convertEntries]
    cases key.convertKey k with
    | error e => exact .intro _ h
    | ok typedKey =>
      obtain ⟨x, s₁, t₁, hs, ht, h₁⟩ := hes (k, v) (by simp) s t h
      simp only at hs ht ⊢
      rw [hs, ht]
      cases x with
      | error e => exact .intro _ h₁
      | ok x => exact ih (fun w hw => hes w (by simp [hw])) _ s₁ t₁ h₁

theorem convertFields_agree {es : Object}
    (hes : ∀ conv name, AgreeOn c A B R conv ((Table.get? es name).getD .null))
    (fields : List (String × Converter)) (done : List (String × Value)) (s : σ) (t : τ)
    (h : R s t) :
    Alike R (convertFields c A fields es done s) (convertFields c B fields es done t) := by
  induction fields generalizing done s t with
  | nil =>
    rw [convertFields, convertFields]
    exact .intro _ h
  | cons f fields ih =>
    obtain ⟨name, conv⟩ := f
    rw [convertFields, convertFields]
    obtain ⟨x, s₁, t₁, hs, ht, h₁⟩ := hes conv name s t h
    rw [hs, ht]
    cases x with
    | error e => exact .intro _ h₁
    | ok x => exact ih _ s₁ t₁ h₁

/-! ## Conversions -/

/-- Sources that agree make the same conversions. -/
theorem convert_agree (hAB : A.Agree c B R) (conv : Converter) (v : Json) :
    AgreeOn c A B R conv v := by
  induction conv, v using conversion_induction with
  | scalar kind v =>
    intro s t h
    rw [convert_scalar, convert_scalar]
    exact .intro _ h
  | absent v =>
    intro s t h
    rw [convert_absent, convert_absent]
    exact .intro _ h
  | nullable inner v ih =>
    intro s t h
    rw [convert_nullable, convert_nullable]
    split
    · exact .intro _ h
    · exact ih s t h
  | list item v ih =>
    intro s t h
    rw [convert_list, convert_list]
    rcases hv : Payload.items v with _ | _ | vs
    · exact .intro _ h
    · exact .intro _ h
    · obtain ⟨xs, s₁, t₁, hs, ht, h₁⟩ := convertItems_agree (ih vs hv) 0 s t h
      simp only
      rw [hs, ht]
      cases xs <;> exact .intro _ h₁
  | map key value v ih =>
    intro s t h
    rw [convert_map, convert_map]
    rcases hv : Payload.entries v with _ | _ | es
    · exact .intro _ h
    · exact .intro _ h
    · obtain ⟨xs, s₁, t₁, hs, ht, h₁⟩ := convertEntries_agree (ih es hv) [] s t h
      simp only
      rw [hs, ht]
      cases xs <;> exact .intro _ h₁
  | record schema fields v ih =>
    intro s t h
    rw [convert_record, convert_record]
    rcases hv : Payload.record v with _ | _ | es
    · exact .intro _ h
    · exact .intro _ h
    · obtain ⟨target, s₁, t₁, hs, ht, h₁⟩ :=
        dispatch_agree hAB es c.length ⟨schema, fields, none⟩ s t h
      simp only
      rw [hs, ht]
      cases target with
      | error e => exact .intro _ h₁
      | ok target =>
        obtain ⟨typed, s₂, t₂, hs, ht, h₂⟩ :=
          convertFields_agree (ih es hv) target.fields [] s₁ t₁ h₁
        simp only
        rw [hs, ht]
        cases typed <;> exact .intro _ h₂

end Conversion

/-! ## Rosters -/

namespace Roster

/-- The roster has these registrations, and its index, if it has one, is theirs. -/
def Knows (c : Catalog) (f : Family) (registered : List SchemaId) (r : Roster) : Prop :=
  r.registered = registered ∧ ∀ index, r.index = some index → index = f.indexOf c registered

variable {c : Catalog} {f : Family} {registered : List SchemaId} {r : Roster}

theorem knows_unindexed (c : Catalog) (f : Family) (registered : List SchemaId) :
    Knows c f registered ⟨registered, none⟩ := ⟨rfl, fun _ h => by cases h⟩

theorem Knows.indexed (h : Knows c f registered r) :
    (r.indexed c f).1 = f.indexOf c registered ∧ Knows c f registered (r.indexed c f).2 := by
  obtain ⟨hr, hindex⟩ := h
  unfold Roster.indexed
  cases hi : r.index with
  | some index => exact ⟨hindex index hi, hr, hindex⟩
  | none =>
    subst hr
    refine ⟨rfl, rfl, fun index h => ?_⟩
    cases h
    rfl

theorem Knows.resolve (h : Knows c f registered r) (tag : Option String) :
    (r.resolve c f tag).1 = f.select (f.indexOf c registered) tag ∧
      Knows c f registered (r.resolve c f tag).2 := by
  unfold Roster.resolve
  cases tag with
  | none => exact ⟨rfl, h⟩
  | some tag => exact ⟨by rw [← h.indexed.1], h.indexed.2⟩

theorem Knows.members (h : Knows c f registered r) :
    (r.members c f).1 = (f.indexOf c registered).map (·.2) ∧
      Knows c f registered (r.members c f).2 := by
  unfold Roster.members
  exact ⟨by rw [← h.indexed.1], h.indexed.2⟩

/-- Registrations with one more, unless it is there already. -/
def enlist (registered : List SchemaId) (s : SchemaId) : List SchemaId :=
  if registered.contains s then registered else registered ++ [s]

theorem Knows.register (h : Knows c f registered r) (s : SchemaId) :
    Knows c f (enlist registered s) (r.register s) := by
  unfold Roster.register enlist
  rw [h.1]
  split
  · exact h
  · exact knows_unindexed c f _

end Roster

/-! ## Caches -/

namespace Cache

/-- The converters are built, and every index is that of the registrations. -/
def Holds (c : Catalog) (registered : SchemaId → List SchemaId) (m : Cache) : Prop :=
  m.registry.Sound c ∧
    ∀ base f, c.rootedFamily? base = some f → (m.rosters base).Knows c f (registered base)

variable {c : Catalog} {registered : SchemaId → List SchemaId} {m : Cache}

theorem base_of_rootedFamily? {id : SchemaId} {f : Family} (h : c.rootedFamily? id = some f) :
    f.base = id := by
  unfold Catalog.rootedFamily? at h
  simpa using (Option.mem_filter_iff.1 h).2

theorem Holds.resolve (h : m.Holds c registered) (shape : Shape) :
    (m.resolve c shape).1 = c.converter shape ∧ (m.resolve c shape).2.Holds c registered :=
  ⟨Registry.resolve_fst h.1 shape, (Registry.resolve_sound [] shape m.registry h.1).1, h.2⟩

theorem Holds.setRoster (h : m.Holds c registered) {base : SchemaId} {r : Roster}
    (hr : ∀ f, c.rootedFamily? base = some f → r.Knows c f (registered base)) :
    (m.setRoster base r).Holds c registered := by
  refine ⟨h.1, fun b f hf => ?_⟩
  unfold Cache.setRoster
  simp only
  split
  · next heq =>
    subst heq
    exact hr f hf
  · exact h.2 b f hf

theorem Holds.member (h : m.Holds c registered) {f : Family}
    (hf : c.rootedFamily? f.base = some f) (tag : Option String) :
    (m.member c f tag).1 = f.select (f.indexOf c (registered f.base)) tag ∧
      (m.member c f tag).2.Holds c registered := by
  obtain ⟨hid, hr⟩ := (h.2 f.base f hf).resolve tag
  refine ⟨hid, h.setRoster fun g hg => ?_⟩
  cases hf.symm.trans hg
  exact hr

theorem source_agree (c : Catalog) (registered : SchemaId → List SchemaId) :
    (Cache.source c).Agree c (Domain.source ⟨c, registered⟩) fun m _ => m.Holds c registered where
  member id f tag m _ hf h := by
    have hbase := base_of_rootedFamily? hf
    subst hbase
    obtain ⟨hid, hm⟩ := h.member hf tag
    exact ⟨_, _, (), rfl, Prod.ext hid.symm rfl, hm⟩
  fieldsOf id m _ h := by
    obtain ⟨hfound, hm⟩ := h.resolve (.record id)
    refine ⟨_, _, (), rfl, Prod.ext ?_ rfl, hm⟩
    exact congrArg (Except.map Converter.fields) hfound.symm

theorem Holds.convert (h : m.Holds c registered) (conv : Converter) (v : Json) :
    (Conversion.convert c (source c) conv v m).1 = Domain.apply ⟨c, registered⟩ conv v ∧
      (Conversion.convert c (source c) conv v m).2.Holds c registered := by
  obtain ⟨x, m₁, _, hs, ht, h₁⟩ :=
    Conversion.convert_agree (source_agree c registered) conv v m () h
  rw [Domain.apply, hs, ht]
  exact ⟨rfl, h₁⟩

theorem Holds.read (h : m.Holds c registered) (shape : Shape) (v : Json) :
    (m.read c shape v).1 = Domain.read ⟨c, registered⟩ shape v ∧
      (m.read c shape v).2.Holds c registered := by
  obtain ⟨hfound, h₁⟩ := h.resolve shape
  unfold Cache.read Domain.read
  rw [← hfound]
  generalize m.resolve c shape = out at h₁ ⊢
  rcases out with ⟨_ | conv, m₁⟩
  · exact ⟨rfl, h₁⟩
  · obtain ⟨hx, h₂⟩ := Holds.convert h₁ conv v
    exact ⟨congrArg (Except.mapError (Error.ofMisfit shape v)) hx, h₂⟩

theorem Holds.record (h : m.Holds c registered) (schema : SchemaId) (v : Json) :
    (m.record c schema v).1 = Domain.record ⟨c, registered⟩ schema v ∧
      (m.record c schema v).2.Holds c registered := by
  obtain ⟨hx, h₁⟩ := h.read (.record schema) v
  exact ⟨by rw [Domain.record, ← hx]; rfl, h₁⟩

end Cache

end GardenMap
