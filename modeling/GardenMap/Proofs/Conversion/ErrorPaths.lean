import GardenMap.Proofs.Conversion.Typing

/-!
# Errors point at their place

The path of an error leads through the payload, and what it ends at is refused on its own for the
same reason, or is the value of a key that is refused (`Domain.blames_of_error`). Each segment leads
to one part only (`Domain.Step.unique`), so the path does.

Proof. An error without a path is one of the payload itself. Every other error comes from a part of a
list, a mapping or a record, one segment further down, and the segment is put in front of its path
(`of_items_error`, `of_entries_error`, `of_fields_error`). Optional shapes and unions with one member
add no segment.
-/

namespace GardenMap

open Conversion

/-! ## Errors of the payload itself -/

/-- What fails does so at the payload itself. -/
def FailsHere {α : Type} (x : Except ConvertError α) : Prop := ∀ e, x = .error e → e.path = []

namespace FailsHere

variable {α β : Type}

theorem ok (a : α) : FailsHere (.ok a) := nofun

theorem error (reason : Misfit) : FailsHere (.error (α := α) (.here reason)) := by
  intro e h
  cases h
  rfl

theorem bind {x : Except ConvertError α} {f : α → Except ConvertError β} (hx : FailsHere x)
    (hf : ∀ a, FailsHere (f a)) : FailsHere (x >>= f) := by
  cases x with
  | error e' =>
    intro e h
    cases h
    exact hx e' rfl
  | ok a => exact hf a

end FailsHere

theorem Payload.failsHere_literal (text : String) : FailsHere (Payload.literal text) := by
  unfold Payload.literal
  split
  · exact .ok _
  · exact .error _

theorem Payload.failsHere_spelled (v : Json) : FailsHere (Payload.spelled v) := by
  unfold Payload.spelled
  split
  · exact failsHere_literal _
  · exact .ok _

theorem Payload.failsHere_items (v : Json) : FailsHere (Payload.items v) := by
  unfold Payload.items
  split
  · exact .ok _
  · exact .ok _
  · exact .bind (failsHere_literal _) fun w => by
      split
      · exact .ok _
      · exact .error _
  · exact .error _

theorem Payload.failsHere_entries (v : Json) : FailsHere (Payload.entries v) := by
  unfold Payload.entries
  split
  · exact .ok _
  · exact .ok _
  · exact .bind (failsHere_literal _) fun w => by
      split
      · exact .ok _
      · exact .error _
  · exact .error _

theorem Payload.failsHere_record (v : Json) : FailsHere (Payload.record v) :=
  .bind (failsHere_spelled v) fun w => by
    split
    · exact .ok _
    · exact .ok _
    · exact .error _

theorem Scalar.failsHere_ofPhrase {α : Type} (f : α → Value) (x : Except PhraseError α) :
    FailsHere (Scalar.ofPhrase f x) := by
  cases x with
  | ok a => exact .ok _
  | error e => exact .error _

theorem Scalar.failsHere_convert (kind : Scalar) (v : Json) : FailsHere (kind.convert v) := by
  cases kind with
  | any => exact .ok _
  | bool =>
    refine .bind (Payload.failsHere_spelled v) fun w => ?_
    unfold toBool
    split <;> first | exact .ok _ | exact .error _
  | int =>
    refine .bind (Payload.failsHere_spelled v) fun w => ?_
    unfold toInt
    split <;> (try split) <;> first | exact .ok _ | exact .error _
  | float =>
    refine .bind (Payload.failsHere_spelled v) fun w => ?_
    unfold toFloat
    split <;> (try split) <;> first | exact .ok _ | exact .error _
  | str =>
    show FailsHere (toStr v)
    unfold toStr
    split <;> first | exact .ok _ | exact .error _
  | date =>
    show FailsHere (toDate v)
    unfold toDate
    split <;> (try split) <;>
      first | exact .ok _ | exact .error _ | exact failsHere_ofPhrase _ _
  | datetime =>
    show FailsHere (toDatetime v)
    unfold toDatetime
    split <;> (try split) <;>
      first | exact .ok _ | exact .error _ | exact failsHere_ofPhrase _ _

theorem Value.failsHere_toKey (v : Value) : FailsHere v.toKey := by
  unfold Value.toKey
  split
  · exact .ok _
  · exact .error _

/-! ## Ways through a payload -/

namespace Domain

/-- The schema that the tags of a record payload lead to. -/
def leadsTo (d : Domain) (es : Object) : Nat → SchemaId → SchemaId
  | 0, id => id
  | steps + 1, id =>
    match d.catalog.rootedFamily? id with
    | none => id
    | some f =>
      let member := f.select (d.indexOf f) ((Table.get? es f.discriminator).bind Json.str?)
      if member = id then id else d.leadsTo es steps member

/-- A segment leads from a payload and its shape to a part and the shape expected there. Text on the
way is read as the literal that it spells. -/
inductive Step (d : Domain) : Shape → Json → String → Shape → Json → Prop
  | item {s item : Shape} {r u : Json} {vs : List Json} {i : Nat}
      (hs : s.Unwraps (.list item)) (hr : Payload.spelled r = .ok (.arr vs))
      (hu : vs[i]? = some u) : Step d s r (toString i) item u
  | entry {s key value : Shape} {r u : Json} {es : Object} {k : String}
      (hs : s.Unwraps (.map key value)) (hr : Payload.spelled r = .ok (.obj es))
      (hu : (k, u) ∈ es) : Step d s r k value u
  | field {s : Shape} {id : SchemaId} {r u : Json} {es : Object} {f : Field}
      (hs : s.Unwraps (.record id)) (hr : Payload.spelled r = .ok (.obj es))
      (hf : f ∈ d.catalog.allFields (d.leadsTo es d.catalog.length id))
      (hu : (f.name, u) ∈ es) : Step d s r f.name f.shape u

/-- A path leads from a payload and its shape to a part and the shape expected there. -/
inductive Leads (d : Domain) : Shape → Json → List String → Shape → Json → Prop
  | here (s : Shape) (r : Json) : Leads d s r [] s r
  | step {s t p : Shape} {r u w : Json} {segment : String} {path : List String}
      (hstep : d.Step s r segment p w) (h : Leads d p w path t u) :
      Leads d s r (segment :: path) t u

/-- Under the shape the payload itself is refused, for this reason. -/
def Refuses (d : Domain) (s : Shape) (r : Json) (reason : Misfit) : Prop :=
  ∃ conv e, d.catalog.converter s = .ok conv ∧ d.apply conv r = .error e ∧
    e.path = [] ∧ e.reason = reason

/-- Under the shape the text of a key is refused, or its value is no key, for this reason. -/
def RefusesKey (d : Domain) (key : Shape) (k : String) (reason : Misfit) : Prop :=
  d.Refuses key (.str k) reason ∨
    ∃ conv x, d.catalog.converter key = .ok conv ∧ d.apply conv (.str k) = .ok x ∧
      x.toKey? = none ∧ reason = .notKey x.kind

/-- A path leads to a part of the payload that is refused for this reason, or its last segment is a
key of a mapping that is. -/
def Blames (d : Domain) (s : Shape) (r : Json) (path : List String) (reason : Misfit) : Prop :=
  ∃ t u, d.Leads s r path t u ∧
    (d.Refuses t u reason ∨
      ∃ front k m w key value, path = front ++ [k] ∧ d.Leads s r front m w ∧
        m.Unwraps (.map key value) ∧ d.RefusesKey key k reason)

variable {d : Domain}

/-! ## Parts that fail -/

theorem of_items_error {item : Converter} {vs : List Json} {position : Nat} {e : ConvertError}
    (h : d.items item vs position = .error e) :
    ∃ i u e', vs[i]? = some u ∧ d.apply item u = .error e' ∧
      e.path = toString (position + i) :: e'.path ∧ e.reason = e'.reason := by
  induction vs generalizing position e with
  | nil =>
    unfold items at h
    rw [convertItems] at h
    cases h
  | cons v vs ih =>
    rw [items_cons] at h
    cases hv : d.apply item v with
    | error e' =>
      rw [hv] at h
      cases h
      exact ⟨0, v, e', rfl, hv, rfl, rfl⟩
    | ok x =>
      rw [hv] at h
      cases hrest : d.items item vs (position + 1) with
      | ok xs =>
        rw [hrest] at h
        cases h
      | error e' =>
        rw [hrest] at h
        cases h
        obtain ⟨i, u, e'', hu, happly, hpath, hreason⟩ := ih hrest
        refine ⟨i + 1, u, e'', hu, happly, ?_, hreason⟩
        rw [hpath, Nat.add_assoc, Nat.add_comm 1 i]

/-- The error of a mapping is that of a key or of its value. -/
theorem of_entries_error {key : Scalar} {value : Converter} {es : Object}
    {done : List (MapKey × Value)} {e : ConvertError}
    (h : d.entries key value es done = .error e) :
    ∃ k u e', (k, u) ∈ es ∧ (key.convertKey k = .error e' ∨ d.apply value u = .error e') ∧
      e.path = k :: e'.path ∧ e.reason = e'.reason := by
  induction es generalizing done with
  | nil =>
    rw [entries_nil] at h
    cases h
  | cons f es ih =>
    obtain ⟨k, u⟩ := f
    rw [entries_cons] at h
    cases hk : key.convertKey k with
    | error e' =>
      rw [hk] at h
      cases h
      exact ⟨k, u, e', List.mem_cons_self, .inl hk, rfl, rfl⟩
    | ok l =>
      rw [hk] at h
      cases hu : d.apply value u with
      | error e' =>
        rw [hu] at h
        cases h
        exact ⟨k, u, e', List.mem_cons_self, .inr hu, rfl, rfl⟩
      | ok x =>
        rw [hu] at h
        obtain ⟨k, u, e', hmem, hrest⟩ := ih h
        exact ⟨k, u, e', List.mem_cons_of_mem _ hmem, hrest⟩

/-- A field that fails is in the payload, since what is absent does not fail. -/
theorem of_fields_error {fs : List (String × Converter)} {es : Object}
    {done : List (String × Value)} {e : ConvertError} (h : d.fields fs es done = .error e) :
    ∃ f ∈ fs, ∃ u e', Table.get? es f.1 = some u ∧ d.apply f.2 u = .error e' ∧
      e.path = f.1 :: e'.path ∧ e.reason = e'.reason := by
  induction fs generalizing done with
  | nil =>
    rw [fields_nil] at h
    cases h
  | cons f fs ih =>
    obtain ⟨name, conv⟩ := f
    rw [fields_cons] at h
    cases hu : d.apply conv ((Table.get? es name).getD .null) with
    | error e' =>
      rw [hu] at h
      cases h
      cases hget : Table.get? es name with
      | none =>
        rw [hget, Option.getD_none, apply_null] at hu
        cases hu
      | some u =>
        rw [hget, Option.getD_some] at hu
        exact ⟨(name, conv), List.mem_cons_self, u, e', hget, hu, rfl, rfl⟩
    | ok x =>
      rw [hu] at h
      obtain ⟨f, hf, hrest⟩ := ih h
      exact ⟨f, List.mem_cons_of_mem _ hf, hrest⟩

theorem path_of_blame (sentTo : Option String) (e : ConvertError) :
    (Target.blame sentTo e).path = e.path ∧ (Target.blame sentTo e).reason = e.reason := by
  cases sentTo <;> exact ⟨rfl, rfl⟩

theorem failsHere_follow (es : Object) (steps : Nat) (target : Target) :
    FailsHere (d.follow es steps target) := by
  induction steps generalizing target with
  | zero => exact .ok _
  | succ steps ih =>
    rw [follow_succ]
    cases d.catalog.rootedFamily? target.schema with
    | none => exact .ok _
    | some f =>
      simp only
      split
      · exact .ok _
      split
      · intro e h
        cases h
        exact (path_of_blame _ _).1
      · exact ih _

theorem schema_of_follow {es : Object} {steps : Nat} {start target : Target}
    (h : d.follow es steps start = .ok target) :
    target.schema = d.leadsTo es steps start.schema := by
  induction steps generalizing start with
  | zero =>
    cases h
    rfl
  | succ steps ih =>
    rw [follow_succ] at h
    rw [leadsTo]
    cases hf : d.catalog.rootedFamily? start.schema with
    | none =>
      rw [hf] at h
      cases h
      rfl
    | some f =>
      rw [hf] at h
      simp only at h ⊢
      split at h
      · next hstay =>
        cases h
        rw [if_pos hstay]
      · next hne =>
        rw [if_neg hne]
        split at h
        · cases h
        · exact ih h

/-! ## Errors and their places -/

theorem Leads.of_step {s p : Shape} {r w : Json} {segment : String}
    (h : d.Step s r segment p w) : d.Leads s r [segment] p w := .step h (.here p w)

theorem unwraps_trans {s t u : Shape} (h : s.Unwraps t) (h' : t.Unwraps u) : s.Unwraps u := by
  induction h with
  | refl => exact h'
  | optional _ ih => exact .optional (ih h')
  | union hm _ ih => exact .union hm (ih h')

theorem Step.unwrap {s t p : Shape} {r w : Json} {segment : String} (h : s.Unwraps t)
    (hstep : d.Step t r segment p w) : d.Step s r segment p w := by
  cases hstep with
  | item hs hr hu => exact .item (unwraps_trans h hs) hr hu
  | entry hs hr hu => exact .entry (unwraps_trans h hs) hr hu
  | field hs hr hf hu => exact .field (unwraps_trans h hs) hr hf hu

theorem unwraps_total {s t u : Shape} (h : s.Unwraps t) (h' : s.Unwraps u) :
    t.Unwraps u ∨ u.Unwraps t := by
  induction h with
  | refl => exact .inl h'
  | optional h ih =>
    cases h' with
    | refl => exact .inr (.optional h)
    | optional h' => exact ih h'
  | union hm h ih =>
    cases h' with
    | refl => exact .inr (.union hm h)
    | union hm' h' =>
      cases hm.symm.trans hm'
      exact ih h'

theorem toString_inj {i j : Nat} (h : toString i = toString j) : i = j := by
  have hdigits := congrArg (fun s => Nat.ofDigitChars 10 s.toList 0) h
  simpa only [Nat.toString_eq_ofList_toDigits, String.toList_ofList,
    Nat.ofDigitChars_ten_toDigits] using hdigits

/-- In a payload whose mappings have sorted keys a segment leads to one part. -/
theorem Step.unique {s t t' : Shape} {r u u' : Json} {segment : String} (hr : r.Sorted)
    (h : d.Step s r segment t u) (h' : d.Step s r segment t' u') :
    t = t' ∧ u = u' ∧ u.Sorted := by
  have hsorted : ∀ {w}, Payload.spelled r = .ok w → w.Sorted := Payload.sorted_of_spelled hr
  have hentry : ∀ {es : Object} {k : String}, Payload.spelled r = .ok (.obj es) →
      (k, u) ∈ es → (k, u') ∈ es → u = u' ∧ u.Sorted := fun hes hu hu' => by
    have hkeys : Table.Sorted _ := (hsorted hes).1
    refine ⟨?_, (hsorted hes).value hu⟩
    rw [← Option.some.injEq, ← Table.get?_of_mem hkeys hu, ← Table.get?_of_mem hkeys hu']
  generalize hseg' : segment = segment' at h'
  cases h with
  | item hs hr hu =>
    cases h' with
    | item hs' hr' hu' =>
      cases hr.symm.trans hr'
      obtain rfl := toString_inj hseg'
      cases hu.symm.trans hu'
      obtain h | h := unwraps_total hs hs' <;> cases h <;>
        exact ⟨rfl, rfl, Json.sortedItems_iff.1 (hsorted hr) u (List.mem_of_getElem? hu)⟩
    | entry hs' hr' hu' => cases hr.symm.trans hr'
    | field hs' hr' hf' hu' => cases hr.symm.trans hr'
  | entry hs hr hu =>
    cases h' with
    | item hs' hr' hu' => cases hr.symm.trans hr'
    | entry hs' hr' hu' =>
      subst hseg'
      cases hr.symm.trans hr'
      obtain h | h := unwraps_total hs hs' <;> cases h <;> exact ⟨rfl, hentry hr hu hu'⟩
    | field hs' hr' hf' hu' => obtain h | h := unwraps_total hs hs' <;> cases h
  | field hs hr hf hu =>
    cases h' with
    | item hs' hr' hu' => cases hr.symm.trans hr'
    | entry hs' hr' hu' => obtain h | h := unwraps_total hs hs' <;> cases h
    | field hs' hr' hf' hu' =>
      cases hr.symm.trans hr'
      obtain h | h := unwraps_total hs hs' <;> cases h <;>
        cases Catalog.eq_of_name_eq hf hf' hseg' <;> exact ⟨rfl, hentry hr hu hu'⟩

/-- In a payload whose mappings have sorted keys a path leads to one part. -/
theorem Leads.unique {s t t' : Shape} {r u u' : Json} {path : List String} (hr : r.Sorted)
    (h : d.Leads s r path t u) (h' : d.Leads s r path t' u') : t = t' ∧ u = u' := by
  induction h with
  | here =>
    cases h'
    exact ⟨rfl, rfl⟩
  | step hstep h ih =>
    cases h' with
    | step hstep' h' =>
      obtain ⟨rfl, rfl, hu⟩ := hstep.unique hr hstep'
      exact ih hu h'

theorem blames_here {s : Shape} {conv : Converter} {r : Json} {e : ConvertError}
    (hb : Builds d.catalog s conv) (h : d.apply conv r = .error e) (hpath : e.path = []) :
    d.Blames s r e.path e.reason := by
  rw [hpath]
  exact ⟨s, r, .here s r, .inl ⟨conv, e, Catalog.converter_eq_ok.2 hb, h, hpath, rfl⟩⟩

theorem Blames.step {s p : Shape} {r w : Json} {segment : String} {path : List String}
    {reason : Misfit} (hstep : d.Step s r segment p w) (h : d.Blames p w path reason) :
    d.Blames s r (segment :: path) reason := by
  obtain ⟨t, u, hleads, hcause⟩ := h
  refine ⟨t, u, .step hstep hleads, hcause.imp_right ?_⟩
  rintro ⟨front, k, m, w', key, value, rfl, hfront, hm, hkey⟩
  exact ⟨segment :: front, k, m, w', key, value, rfl, .step hstep hfront, hm, hkey⟩

theorem blames_key {s key value : Shape} {r u : Json} {es : Object} {k : String}
    {reason : Misfit} (hs : s.Unwraps (.map key value)) (hr : Payload.spelled r = .ok (.obj es))
    (hu : (k, u) ∈ es) (h : d.RefusesKey key k reason) : d.Blames s r [k] reason :=
  ⟨value, u, .of_step (.entry hs hr hu), .inr ⟨[], k, s, r, key, value, rfl, .here s r, hs, h⟩⟩

theorem Blames.unwrap {s t : Shape} {r : Json} {path : List String} {reason : Misfit}
    (hs : s.Unwraps t) (hpath : path ≠ []) (h : d.Blames t r path reason) :
    d.Blames s r path reason := by
  have hlead : ∀ {path u w}, path ≠ [] → d.Leads t r path u w → d.Leads s r path u w := by
    intro path u w hpath h
    cases h with
    | here => exact absurd rfl hpath
    | step hstep h => exact .step (hstep.unwrap hs) h
  obtain ⟨u, w, hleads, hcause⟩ := h
  refine ⟨u, w, hlead hpath hleads, hcause.imp_right ?_⟩
  rintro ⟨front, k, m, w', key, value, rfl, hfront, hm, hkey⟩
  cases hfront with
  | here => exact ⟨[], k, s, r, key, value, rfl, .here s r, unwraps_trans hs hm, hkey⟩
  | step hstep h =>
    exact ⟨_, k, m, w', key, value, rfl, .step (hstep.unwrap hs) h, hm, hkey⟩

theorem refusesKey_of_convertKey {key : Shape} {kind : Scalar} (hkey : key.key? = some kind)
    {k : String} {e : ConvertError} (h : kind.convertKey k = .error e) :
    e.path = [] ∧ d.RefusesKey key k e.reason := by
  have hkind : key.scalar? = some kind := (Option.filter_eq_some_iff.1 hkey).1
  have hconv : d.catalog.converter key = .ok (.scalar kind) :=
    Catalog.converter_eq_ok.2 (.single hkind)
  have hpath : e.path = [] :=
    FailsHere.bind (kind.failsHere_convert (.str k)) (fun x => x.failsHere_toKey) e h
  refine ⟨hpath, ?_⟩
  unfold Scalar.convertKey at h
  cases hx : kind.convert (.str k) with
  | error e' =>
    rw [hx] at h
    cases h
    exact .inl ⟨_, e, hconv, by rw [apply_scalar, hx], hpath, rfl⟩
  | ok x =>
    rw [hx] at h
    change x.toKey = .error e at h
    unfold Value.toKey at h
    cases hk : x.toKey? with
    | some l =>
      rw [hk] at h
      cases h
    | none =>
      rw [hk] at h
      cases h
      exact .inr ⟨_, x, hconv, by rw [apply_scalar, hx], hk, rfl⟩

/-- Every error of a payload along a converter points at its place. -/
def Traces (d : Domain) (conv : Converter) (r : Json) : Prop :=
  ∀ s e, Builds d.catalog s conv → d.apply conv r = .error e → d.Blames s r e.path e.reason

theorem traces_of_form {conv : Converter} {r : Json}
    (h : ∀ t e, t.Form d.catalog conv → d.apply conv r = .error e → e.path ≠ [] →
      d.Blames t r e.path e.reason) : d.Traces conv r := by
  intro s e hb happly
  by_cases hpath : e.path = []
  · exact blames_here hb happly hpath
  · obtain ⟨t, hs, hform⟩ := hb.exists_unwraps
    exact (h t e hform happly hpath).unwrap hs hpath

theorem traces_list {item : Converter} {r : Json}
    (ih : ∀ vs, Payload.items r = .ok (some vs) → ∀ x ∈ vs, d.Traces item x) :
    d.Traces (.list item) r := by
  refine traces_of_form fun t e hform h hpath => ?_
  rw [apply_list] at h
  rcases hr : Payload.items r with e' | _ | vs
  · rw [hr] at h
    cases h
    exact absurd (Payload.failsHere_items r e hr) hpath
  · rw [hr] at h
    cases h
  rw [hr] at h
  cases hitems : d.items item vs 0 with
  | ok xs =>
    simp only [hitems] at h
    cases h
  | error e' =>
    simp only [hitems] at h
    cases h
    obtain ⟨i, u, e', hu, happly, hpath, hreason⟩ := of_items_error hitems
    rw [hpath, hreason, Nat.zero_add]
    cases hform with
    | list hpart =>
      exact (ih vs hr u (List.mem_of_getElem? hu) _ e' hpart happly).step
        (.item .refl (Payload.spelled_of_items hr) hu)

theorem traces_map {key : Scalar} {value : Converter} {r : Json}
    (ih : ∀ es, Payload.entries r = .ok (some es) → ∀ e ∈ es, d.Traces value e.2) :
    d.Traces (.map key value) r := by
  refine traces_of_form fun t e hform h hpath => ?_
  rw [apply_map] at h
  rcases hr : Payload.entries r with e' | _ | es
  · rw [hr] at h
    cases h
    exact absurd (Payload.failsHere_entries r e hr) hpath
  · rw [hr] at h
    cases h
  rw [hr] at h
  cases hentries : d.entries key value es [] with
  | ok xs =>
    simp only [hentries] at h
    cases h
  | error e' =>
    simp only [hentries] at h
    cases h
    obtain ⟨k, u, e', hu, hcause, hpath, hreason⟩ := of_entries_error hentries
    have hspelled := Payload.spelled_of_entries hr
    rw [hpath, hreason]
    cases hform with
    | map hkey hpart =>
      rcases hcause with hk | happly
      · obtain ⟨hnil, hrefused⟩ := refusesKey_of_convertKey hkey hk
        rw [hnil]
        exact blames_key .refl hspelled hu hrefused
      · exact (ih es hr (k, u) hu _ e' hpart happly).step (.entry .refl hspelled hu)

theorem traces_record {id : SchemaId} {fs : List (String × Converter)} {r : Json}
    (ih : ∀ es, Payload.record r = .ok (some es) →
      ∀ conv name, d.Traces conv ((Table.get? es name).getD .null)) :
    d.Traces (.record id fs) r := by
  refine traces_of_form fun t e hform h hpath => ?_
  rw [apply_record] at h
  rcases hr : Payload.record r with e' | _ | es
  · rw [hr] at h
    cases h
    exact absurd (Payload.failsHere_record r e hr) hpath
  · rw [hr] at h
    cases h
  rw [hr] at h
  cases hfollow : d.follow es d.catalog.length ⟨id, fs, none⟩ with
  | error e' =>
    simp only [hfollow] at h
    cases h
    exact absurd (failsHere_follow _ _ _ e hfollow) hpath
  | ok target =>
    simp only [hfollow] at h
    cases hfields : d.fields target.fields es [] with
    | ok typed =>
      rw [hfields] at h
      cases h
    | error e' =>
      rw [hfields] at h
      cases h
      obtain ⟨f, hf, u, e'', hu, happly, hpath, hreason⟩ := of_fields_error hfields
      rw [(path_of_blame _ e').1, (path_of_blame _ e').2, hpath, hreason]
      cases hform with
      | record hb =>
        -- the fields are those of the schema that the tags lead to, which need not be `id`
        obtain ⟨fs', heq, -, hparts⟩ := (follow_builds hfollow hb).2.of_record
        cases heq
        obtain ⟨g, hg, hname, hpart⟩ := hparts f hf
        rw [schema_of_follow hfollow] at hg
        have htrace := ih es hr f.2 f.1
        rw [hu, Option.getD_some] at htrace
        rw [← hname] at hu ⊢
        exact (htrace g.shape e'' hpart happly).step
          (.field .refl (Payload.spelled_of_record hr) hg (Table.mem_of_get? hu))

theorem traces (conv : Converter) (r : Json) : d.Traces conv r := by
  induction conv, r using conversion_induction with
  | scalar kind r =>
    refine traces_of_form fun t e hform h hpath => ?_
    rw [apply_scalar] at h
    exact absurd (kind.failsHere_convert r e h) hpath
  | absent r =>
    intro s e hb h
    rw [apply_absent] at h
    cases h
  | nullable inner r ih =>
    refine traces_of_form fun t e hform h hpath => ?_
    rw [apply_nullable] at h
    split at h
    · cases h
    cases hform with
    | optional hpart => exact (ih _ e hpart h).unwrap (.optional .refl) hpath
    | union hm hpart => exact (ih _ e hpart h).unwrap (.union hm .refl) hpath
  | list item r ih => exact traces_list ih
  | map key value r ih => exact traces_map ih
  | record id fs r ih => exact traces_record ih

/-- The path of an error leads through the payload to a part that is refused on its own, without a
path and for the same reason, or to the value of a key that is refused for that reason. In a payload
whose mappings have sorted keys it leads to no other part. -/
theorem blames_of_error {s : Shape} {conv : Converter} {r : Json} {e : ConvertError}
    (hconv : d.catalog.converter s = .ok conv) (h : d.apply conv r = .error e) :
    d.Blames s r e.path e.reason ∧
      (r.Sorted → ∀ t u t' u', d.Leads s r e.path t u → d.Leads s r e.path t' u' →
        t = t' ∧ u = u') :=
  ⟨traces conv r s e (Catalog.converter_eq_ok.1 hconv) h,
    fun hr _ _ _ _ hleads hleads' => hleads.unique hr hleads'⟩

theorem blames_of_error_in_list :
    ∃ e, Farm.domain.catalog.converter (.map .str (.list .int)) =
        .ok (.map .str (.list (.scalar .int))) ∧
      Farm.domain.apply (.map .str (.list (.scalar .int)))
        (.obj [("a", .arr [.int 1, .str "x"])]) = .error e ∧
      e.path = ["a", "1"] ∧
      Farm.domain.Blames (.map .str (.list .int)) (.obj [("a", .arr [.int 1, .str "x"])])
        ["a", "1"] e.reason := by
  have hconv : Farm.domain.catalog.converter (.map .str (.list .int)) =
      .ok (.map .str (.list (.scalar .int))) :=
    Catalog.converter_eq_ok.2 (.map rfl (.list (.single rfl)))
  have hx : Scalar.convert .int (.str "x") = .error (.here (.literal "x" (.malformed 0 "x"))) :=
    rfl
  have hlist : Farm.domain.apply (.list (.scalar .int)) (.arr [.int 1, .str "x"]) =
      .error ⟨["1"], .literal "x" (.malformed 0 "x"), none⟩ := by
    rw [apply_list]
    show Except.map Value.list (Farm.domain.items _ [.int 1, .str "x"] 0) = _
    rw [items_cons, items_cons, apply_scalar, hx]
    rfl
  have happly : Farm.domain.apply (.map .str (.list (.scalar .int)))
      (.obj [("a", .arr [.int 1, .str "x"])]) =
        .error ⟨["a", "1"], .literal "x" (.malformed 0 "x"), none⟩ := by
    rw [apply_map]
    show Except.map Value.map (Farm.domain.entries _ _ [("a", .arr [.int 1, .str "x"])] []) = _
    rw [entries_cons, hlist]
    rfl
  exact ⟨_, hconv, happly, rfl, (blames_of_error hconv happly).1⟩

end Domain

end GardenMap
