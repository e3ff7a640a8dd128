import GardenMap.Proofs.Conversion.Shapes
import GardenMap.Proofs.Query.Compiled
import Mathlib.Data.List.Nodup

/-!
# More clauses find fewer points

A point that the filter of many clauses finds is found by the filter of each clause alone
(`compile_narrows`), except where the clause is about the metadata field itself and clauses on
undeclared keys are put into it: a mapping keeps its entries at the other keys only, and any other
value is lost (`undeclared_key_replaces_entry`).
-/

namespace GardenMap

namespace Clause

variable {now : Instant} {q : Clause} {key key' : String} {v v' : Json}

theorem Asks.unique (h : q.Asks now key v) (h' : q.Asks now key' v') : key' = key ∧ v' = v :=
  ⟨(Prod.mk.inj (h'.1.symm.trans h.1)).1, Reading.exactly.inj (h'.2.symm.trans h.2)⟩

/-- The entry of the filter of a clause alone. -/
def entry (c : Catalog) (target : SchemaId) (key : String) (v : Json) : String × Json :=
  match c.field? target key, c.metadataField? target with
  | none, some field => (field, .obj [(key, v)])
  | _, _ => (key, v)

theorem entry_direct {c : Catalog} {target : SchemaId} (h : ¬Nested c target key) :
    entry c target key v = (key, v) := by
  unfold entry
  split
  · next hf hm => exact absurd ⟨hf, by rw [hm]; rfl⟩ h
  · rfl

theorem entry_nested {c : Catalog} {target : SchemaId} (h : Nested c target key) {field : String}
    (hm : c.metadataField? target = some field) :
    entry c target key v = (field, .obj [(key, v)]) := by
  rw [entry, h.1, hm]

/-- Whether the value that a clause asks for in the metadata field gives way to a clause on an
undeclared key, since it is no mapping or has an entry at that key. -/
def Overridden (c : Catalog) (target : SchemaId) (now : Instant) (qs : List Clause) (key : String)
    (v : Json) : Prop :=
  c.metadataField? target = some key ∧ ¬Nested c target key ∧
    ∃ p ∈ qs, ∃ k w, p.Asks now k w ∧ Nested c target k ∧
      ∀ entries, v = .obj entries → ∃ e ∈ entries, e.1 = k

theorem apart_of_not_overridden {c : Catalog} {target : SchemaId} {qs : List Clause}
    (h : ¬Overridden c target now qs key v) (hm : c.metadataField? target = some key)
    (hdirect : ¬Nested c target key) {p : Clause} (hp : p ∈ qs) {k : String} {w : Json}
    (hasks : p.Asks now k w) (hnested : Nested c target k) :
    ∃ entries, v = .obj entries ∧ ∀ e ∈ entries, e.1 ≠ k := by
  by_contra hno
  refine h ⟨hm, hdirect, p, hp, k, w, hasks, hnested, fun entries hv => ?_⟩
  by_contra hne
  exact hno ⟨entries, hv, fun e he hek => hne ⟨e, he, hek⟩⟩

end Clause

namespace Draft

variable {d : Domain} {target : SchemaId} {now : Instant} {draft draft' : Draft} {q : Clause}
variable {qs : List Clause}

/-! ## A clause alone -/

theorem exists_add_of_foldlM (h : qs.foldlM (Draft.add d target now) draft = .ok draft')
    (hq : q ∈ qs) : ∃ before after : Draft, before.add d target now q = .ok after := by
  induction qs generalizing draft with
  | nil => cases hq
  | cons p qs ih =>
    obtain ⟨next, hp, h⟩ := foldlM_cons_eq_ok h
    rcases List.mem_cons.1 hq with rfl | hq
    · exact ⟨draft, next, hp⟩
    · exact ih h hq

theorem add_ok_of_add_ok (h : draft.add d target now q = .ok draft') (other : Draft) :
    ∃ other', other.add d target now q = .ok other' := by
  rw [add_eq] at h ⊢
  split at h
  · cases h
  · next hkey =>
    rw [if_neg hkey]
    cases hm : q.meaning now with
    | error e => rw [hm] at h; cases h
    | ok m =>
      rw [hm] at h
      cases m with
      | comparison op operand => exact ⟨_, rfl⟩
      | literal v =>
        simp only at h ⊢
        cases ht : q.typed d (d.catalog.field? target q.target.1) v with
        | error e => rw [ht] at h; cases h
        | ok typed =>
          simp only
          split
          · exact ⟨_, rfl⟩
          · split <;> exact ⟨_, rfl⟩

theorem compile_alone (h : draft.add d target now q = .ok draft') {key : String} {v : Json}
    (hq : q.Asks now key v) :
    Plan.compile d target now [q] =
      .ok ⟨target, tagged d.catalog target [Clause.entry d.catalog target key v], []⟩ := by
  obtain ⟨one, hone⟩ := add_ok_of_add_ok h empty
  have hplan : Plan.compile d target now [q] = .ok ⟨target,
      tagged d.catalog target (one.merged (d.catalog.metadataField? target)), one.predicates⟩ := by
    simp only [Plan.compile, List.foldlM_cons, List.foldlM_nil, hone]
    rfl
  rw [hplan]
  rcases add_eq_ok hone with ⟨key', v', hq', hdirect, rfl⟩ | ⟨key', v', hq', hnested, rfl⟩ |
    ⟨p, hp, rfl⟩
  · obtain ⟨rfl, rfl⟩ := hq.unique hq'
    rw [Clause.entry_direct hdirect]
    cases d.catalog.metadataField? target <;> rfl
  · obtain ⟨rfl, rfl⟩ := hq.unique hq'
    obtain ⟨field, hm⟩ := Option.isSome_iff_exists.1 hnested.2
    rw [Clause.entry_nested hnested hm, hm]
    rfl
  · rw [Clause.predicate?, hq.test?_eq_none] at hp
    cases hp

/-! ## The entries of the merged filter -/

theorem eq_of_mem_of_asks (hkeys : (plainKeys qs).Nodup) {p : Clause} (hq : q ∈ qs) (hp : p ∈ qs)
    {key : String} {v w : Json} (hqv : q.Asks now key v) (hpw : p.Asks now key w) : p = q := by
  refine List.inj_on_of_nodup_map hkeys ?_ ?_ (by rw [hqv.1, hpw.1])
  · exact List.mem_filter.2 ⟨hp, by rw [hpw.1]; rfl⟩
  · exact List.mem_filter.2 ⟨hq, by rw [hqv.1]; rfl⟩

theorem Keeps.unique {P : String → Prop} {filter : Object} (h : Keeps now P qs filter)
    (hkeys : (plainKeys qs).Nodup) {e f : String × Json} (he : e ∈ filter) (hf : f ∈ filter)
    (hkey : f.1 = e.1) : f = e := by
  obtain ⟨key, v⟩ := e
  obtain ⟨key', w⟩ := f
  obtain rfl : key' = key := hkey
  obtain ⟨-, q, hq, hqv⟩ := (h _).1 he
  obtain ⟨-, p, hp, hpw⟩ := (h _).1 hf
  obtain rfl := eq_of_mem_of_asks hkeys hq hp hqv hpw
  exact Prod.ext rfl (hqv.unique hpw).2

theorem mem_merged_of_ne {e : String × Json} (he : e ∈ draft.filter) {metadataField : Option String}
    (hne : metadataField ≠ some e.1) : e ∈ draft.merged metadataField := by
  unfold merged
  split
  · exact he
  · next field =>
    have hfield : field ≠ e.1 := fun h => hne (congrArg some h)
    split
    · exact he
    · split <;> exact Table.mem_put_of_ne he hfield _

/-- The entry of the metadata field has the nested entries, and those of a mapping that a clause asks
for there at the other keys. -/
theorem Reads.mem_merged_metadata (hr : Reads d target now qs draft)
    (hkeys : (plainKeys qs).Nodup) (field : String) {first : String × Json}
    (hfirst : first ∈ draft.metadata) :
    ∃ entries, (field, .obj entries) ∈ draft.merged (some field) ∧
      (∀ e ∈ draft.metadata, e ∈ entries) ∧
      ∀ held, (field, .obj held) ∈ draft.filter → ∀ e ∈ held,
        (∀ f ∈ draft.metadata, f.1 ≠ e.1) → e ∈ entries := by
  have hunique : ∀ e ∈ draft.metadata, ∀ f ∈ draft.metadata, f.1 = e.1 → f = e :=
    fun e he f hf => hr.metadata.unique hkeys he hf
  have hsome : draft.metadata.isEmpty = false :=
    List.isEmpty_eq_false_iff.2 (List.ne_nil_of_mem hfirst)
  have hget : ∀ {v}, (field, v) ∈ draft.filter → Table.get? draft.filter field = some v :=
    fun hv => Table.get?_of_unique hv fun f hf => hr.filter.unique hkeys hv hf
  simp only [merged, hsome, Bool.false_eq_true, if_false]
  split
  · next held hheld =>
    refine ⟨_, Table.mem_put_self _ _ _, fun e he => ?_, fun held' hheld' e he hother => ?_⟩
    · exact Table.mem_putAll (.inr he) (hunique e he)
    · rw [hget hheld'] at hheld
      cases hheld
      exact Table.mem_putAll (.inl he) fun f hf heq => absurd heq (hother f hf)
  · next hno =>
    refine ⟨_, Table.mem_put_self _ _ _, fun e he => he, fun held hheld => ?_⟩
    exact absurd (hget hheld) (hno held)

/-! ## What is left of a clause -/

/-- What a filter finds has what the filter of a clause alone asks for, if it asks for the entry of
the clause. -/
theorem meetsAll_tagged_alone {c : Catalog} {filter : Object} {e : String × Json} {point : Object}
    (h : meetsAll (tagged c target filter) point = true)
    (he : (∀ f, c.family? target = some f → f.discriminator ≠ e.1) →
      meets e.2 ((Table.get? point e.1).getD .null) = true) :
    meetsAll (tagged c target [e]) point = true := by
  unfold tagged at h ⊢
  cases hf : c.family? target with
  | none =>
    rw [meetsAll_iff]
    intro g hg
    rw [List.mem_singleton.1 hg]
    exact he fun f hf' => by rw [hf] at hf'; cases hf'
  | some f =>
    rw [hf] at h
    have htag := (meetsAll_iff _ _).1 h _ (Table.mem_put_self _ _ _)
    by_cases hne : f.discriminator = e.1
    · have hput : Table.put [e] f.discriminator (.str (f.tagOf target)) =
          [(f.discriminator, .str (f.tagOf target))] := by
        obtain ⟨key, v⟩ := e
        obtain rfl : f.discriminator = key := hne
        simp [Table.put, Std.ReflOrd.compare_self]
      simp only [hput, meetsAll_iff]
      intro g hg
      rw [List.mem_singleton.1 hg]
      exact htag
    · rw [meetsAll_iff]
      intro g hg
      rcases Table.mem_of_mem_put hg with rfl | hg
      · exact htag
      · rw [List.mem_singleton.1 hg]
        refine he fun f' hf' => ?_
        rw [hf] at hf'
        cases hf'
        exact hne

theorem meets_of_mem_tagged {c : Catalog} {filter : Object} {e : String × Json} {point : Object}
    (h : meetsAll (tagged c target filter) point = true) (he : e ∈ filter)
    (hne : ∀ f, c.family? target = some f → f.discriminator ≠ e.1) :
    meets e.2 ((Table.get? point e.1).getD .null) = true := by
  unfold tagged at h
  split at h
  · next f hf => exact (meetsAll_iff _ _).1 h e (Table.mem_put_of_ne he (hne f hf) _)
  · exact (meetsAll_iff _ _).1 h e he

theorem meets_obj_entries {entries : Object} {v : Option Json}
    (h : meets (.obj entries) (v.getD .null) = true) :
    ∃ held, v = some (.obj held) ∧
      ∀ e ∈ entries, meets e.2 ((Table.get? held e.1).getD .null) = true := by
  rw [meets_obj] at h
  match v, h with
  | some (.obj held), h => exact ⟨held, rfl, (meetsAll_iff _ _).1 h⟩

theorem meets_obj_of_entries {entries held : Object} {v : Option Json} (hv : v = some (.obj held))
    (h : ∀ e ∈ entries, meets e.2 ((Table.get? held e.1).getD .null) = true) :
    meets (.obj entries) (v.getD .null) = true := by
  subst hv
  rw [Option.getD_some, meets_obj]
  exact (meetsAll_iff _ _).2 h

/-- In the metadata field, a mapping that a clause asks for keeps its entries at the keys of no other
clause. -/
theorem Reads.mapping_kept (hr : Reads d target now qs draft) (hkeys : (plainKeys qs).Nodup)
    {key : String} {entries : Object} (hmem : (key, .obj entries) ∈ draft.filter)
    (hm : d.catalog.metadataField? target = some key)
    (htag : ∀ f, d.catalog.family? target = some f → f.discriminator ≠ key) {point : Object}
    (h : meetsAll (tagged d.catalog target (draft.merged (d.catalog.metadataField? target)))
      point = true) :
    ∃ held, Table.get? point key = some (.obj held) ∧
      ∀ e ∈ entries, (∀ f ∈ draft.metadata, f.1 ≠ e.1) →
        meets e.2 ((Table.get? held e.1).getD .null) = true := by
  obtain ⟨kept, hkept, hentries⟩ : ∃ kept,
      (key, .obj kept) ∈ draft.merged (d.catalog.metadataField? target) ∧
        ∀ e ∈ entries, (∀ f ∈ draft.metadata, f.1 ≠ e.1) → e ∈ kept := by
    rw [hm]
    cases hmetadata : draft.metadata with
    | nil =>
      refine ⟨entries, ?_, fun e he _ => he⟩
      simpa [merged, hmetadata] using hmem
    | cons first rest =>
      have hfirst : first ∈ draft.metadata := by rw [hmetadata]; exact List.mem_cons_self
      obtain ⟨kept, hkept, -, hentries⟩ := hr.mem_merged_metadata hkeys key hfirst
      rw [← hmetadata]
      exact ⟨kept, hkept, hentries entries hmem⟩
  obtain ⟨held, hheld, hmeets⟩ := meets_obj_entries (meets_of_mem_tagged h hkept htag)
  exact ⟨held, hheld, fun e he hother => hmeets e (hentries e he hother)⟩

end Draft

namespace Plan

open Draft

variable {d : Domain} {target : SchemaId} {now : Instant} {qs : List Clause}

theorem exists_reads {plan : Plan} (h : compile d target now qs = .ok plan)
    (hkeys : (plainKeys qs).Nodup) :
    ∃ draft, qs.foldlM (Draft.add d target now) .empty = .ok draft ∧ Reads d target now qs draft ∧
      plan.filter = tagged d.catalog target (draft.merged (d.catalog.metadataField? target)) := by
  obtain ⟨draft, hdraft, rfl⟩ := compile_eq_ok h
  exact ⟨draft, hdraft, (reads_empty d target now).foldlM hkeys hdraft, rfl⟩

/-- The filter of many clauses finds only what the filter of each one finds, unless the metadata
field is both the field of that clause and the place of an entry for another one. Even then a mapping
asks for its entries at the keys of no other clause. -/
theorem compile_narrows (d : Domain) (target : SchemaId) (now : Instant) (qs : List Clause)
    {plan : Plan} (h : compile d target now qs = .ok plan)
    (hkeys : ((qs.filter fun q => !q.target.2).map (·.target.1)).Nodup)
    {q : Clause} (hq : q ∈ qs) {key : String} {v : Json} (hasks : q.Asks now key v)
    (htag : ∀ f, d.catalog.family? target = some f → f.discriminator ≠ key) :
    ∃ single, compile d target now [q] = .ok single ∧
      (¬Clause.Overridden d.catalog target now qs key v → ∀ point : Object,
        meetsAll plan.filter point = true → meetsAll single.filter point = true) ∧
      ∀ entries, v = .obj entries → d.catalog.metadataField? target = some key →
        ¬Clause.Nested d.catalog target key →
        ∀ point : Object, meetsAll plan.filter point = true →
          ∃ held, Table.get? point key = some (.obj held) ∧
            ∀ e ∈ entries,
              (∀ p ∈ qs, ∀ k w, p.Asks now k w → Clause.Nested d.catalog target k → k ≠ e.1) →
              meets e.2 ((Table.get? held e.1).getD .null) = true := by
  obtain ⟨draft, hdraft, hr, hfilter⟩ := exists_reads h hkeys
  obtain ⟨before, after, hadd⟩ := exists_add_of_foldlM hdraft hq
  have hmapping : ∀ entries, v = .obj entries → d.catalog.metadataField? target = some key →
      ¬Clause.Nested d.catalog target key →
      ∀ point : Object, meetsAll plan.filter point = true →
        ∃ held, Table.get? point key = some (.obj held) ∧
          ∀ e ∈ entries,
            (∀ p ∈ qs, ∀ k w, p.Asks now k w → Clause.Nested d.catalog target k → k ≠ e.1) →
            meets e.2 ((Table.get? held e.1).getD .null) = true := by
    rintro entries rfl hm hdirect point hpoint
    have hmem := (hr.filter (key, .obj entries)).2 ⟨hdirect, q, hq, hasks⟩
    obtain ⟨held, hheld, hkept⟩ := hr.mapping_kept hkeys hmem hm htag (hfilter ▸ hpoint)
    refine ⟨held, hheld, fun e he hother => hkept e he fun f hf => ?_⟩
    obtain ⟨hnested, p, hp, hpf⟩ := (hr.metadata f).1 hf
    exact hother p hp f.1 f.2 hpf hnested
  refine ⟨_, compile_alone hadd hasks, fun hkept point hpoint => ?_, hmapping⟩
  have hfound := hfilter ▸ hpoint
  refine meetsAll_tagged_alone hfound fun hne => ?_
  by_cases hnested : Clause.Nested d.catalog target key
  · obtain ⟨field, hm⟩ := Option.isSome_iff_exists.1 hnested.2
    rw [Clause.entry_nested hnested hm] at hne ⊢
    have hmem := (hr.metadata (key, v)).2 ⟨hnested, q, hq, hasks⟩
    obtain ⟨entries, hentries, hall, -⟩ := hr.mem_merged_metadata hkeys field hmem
    rw [← hm] at hentries
    obtain ⟨held, hheld, hmeets⟩ := meets_obj_entries (meets_of_mem_tagged hfound hentries hne)
    refine meets_obj_of_entries hheld fun e he => ?_
    rw [List.mem_singleton.1 he]
    exact hmeets _ (hall _ hmem)
  · rw [Clause.entry_direct hnested]
    have hmem := (hr.filter (key, v)).2 ⟨hnested, q, hq, hasks⟩
    by_cases hm : d.catalog.metadataField? target = some key
    · cases hmetadata : draft.metadata with
      | nil =>
        have hmerged : draft.merged (d.catalog.metadataField? target) = draft.filter := by
          rw [hm]
          simp [merged, hmetadata]
        exact meets_of_mem_tagged hfound (hmerged ▸ hmem) htag
      | cons first rest =>
        have hapart : ∀ {p}, p ∈ qs → ∀ {k w}, p.Asks now k w → Clause.Nested d.catalog target k →
            ∃ entries, v = .obj entries ∧ ∀ e ∈ entries, e.1 ≠ k :=
          fun hp _ _ hpk => Clause.apart_of_not_overridden hkept hm hnested hp hpk
        obtain ⟨hfirst, p, hp, hpf⟩ :=
          (hr.metadata first).1 (by rw [hmetadata]; exact List.mem_cons_self)
        obtain ⟨entries, rfl, -⟩ := hapart hp hpf hfirst
        obtain ⟨held, hheld, hmeets⟩ := hmapping entries rfl hm hnested point hpoint
        refine meets_obj_of_entries hheld fun e he => hmeets e he fun p hp k w hpk hk heq => ?_
        obtain ⟨entries', hentries, hne⟩ := hapart hp hpk hk
        cases hentries
        exact hne e he heq.symm
    · exact meets_of_mem_tagged hfound (mem_merged_of_ne hmem hm) htag

/-! ### Mappings for the metadata of points -/

theorem add_metadata (now : Instant) (entries : Object) :
    Draft.empty.add Farm.domain Farm.Id.point now ⟨"meta", .obj entries⟩ =
      .ok ⟨[("meta", .obj entries)], [], []⟩ := by
  have hfield : Farm.domain.catalog.field? Farm.Id.point "meta" = some ⟨"meta", .map .str .any⟩ := by
    decide +kernel
  have hconv : Farm.domain.catalog.converter (.map .str .any) = .ok (.map .str (.scalar .any)) :=
    Catalog.converter_eq_ok.2 (.map rfl (.single rfl))
  obtain ⟨t, ht⟩ : ∃ t, Farm.domain.entries .str (.scalar .any) entries [] = .ok t :=
    Domain.exists_entries (fun _ _ => ⟨_, _, rfl, by rw [Domain.apply_scalar]; rfl⟩) []
  have htyped : Clause.typed Farm.domain ⟨"meta", .obj entries⟩ (some ⟨"meta", .map .str .any⟩)
      (.obj entries) = .ok (.map t) := by
    unfold Clause.typed
    simp only [hconv, Domain.apply_map_obj ht]
  have htarget : Clause.target ⟨"meta", .obj entries⟩ = ("meta", false) := by
    show splitMark Clause.negationMark "meta" = _
    decide +kernel
  rw [add_eq, htarget]
  simp only [Clause.meaning, hfield, htyped]
  rfl

theorem asks_metadata (now : Instant) (entries : Object) :
    Clause.Asks now ⟨"meta", .obj entries⟩ "meta" (.obj entries) := by
  refine ⟨?_, rfl⟩
  show splitMark Clause.negationMark "meta" = _
  decide +kernel

/-- Beside a clause on another key, a mapping for the metadata of points narrows as it does alone. -/
theorem compile_narrows_metadata :
    ∃ single, compile Farm.domain Farm.Id.point ⟨0, 0, by decide⟩
        [⟨"meta", .obj [("kind", .str "tree")]⟩] = .ok single ∧
      ∀ point : Object,
        meetsAll [("meta", .obj [("colour", .bool true), ("kind", .str "tree")]),
          (Farm.pointerType, .str Farm.genericPointer)] point = true →
        meetsAll single.filter point = true := by
  have hplan : compile Farm.domain Farm.Id.point ⟨0, 0, by decide⟩
      [⟨"meta", .obj [("kind", .str "tree")]⟩, ⟨"colour", .bool true⟩] = .ok ⟨Farm.Id.point,
        [("meta", .obj [("colour", .bool true), ("kind", .str "tree")]),
          (Farm.pointerType, .str Farm.genericPointer)], []⟩ := by
    simp only [compile, List.foldlM_cons, add_metadata]
    rfl
  obtain ⟨single, hsingle, hnarrow, -⟩ := compile_narrows Farm.domain Farm.Id.point
    ⟨0, 0, by decide⟩ _ hplan (by decide +kernel) List.mem_cons_self (asks_metadata _ _)
    (by decide +kernel)
  refine ⟨single, hsingle, hnarrow ?_⟩
  rintro ⟨-, -, p, hp, k, w, hasks, -, hsame⟩
  obtain ⟨e, he, rfl⟩ := hsame _ rfl
  rw [List.mem_singleton.1 he] at hasks
  have hkey : p.target.1 = "kind" := by rw [hasks.1]
  simp only [List.mem_cons, List.not_mem_nil, or_false] at hp
  rcases hp with rfl | rfl <;> exact absurd hkey (by decide +kernel)

/-- A clause on an undeclared key takes the place of an entry that another clause asks for. -/
theorem undeclared_key_replaces_entry :
    ¬∀ (d : Domain) (target : SchemaId) (now : Instant) (qs : List Clause) (plan : Plan),
      compile d target now qs = .ok plan → (qs.map (·.target.1)).Nodup →
      ∀ q ∈ qs, ∀ key v, q.Asks now key v →
        (∀ f, d.catalog.family? target = some f → f.discriminator ≠ key) →
        ∀ single, compile d target now [q] = .ok single → ∀ point : Object,
          meetsAll plan.filter point = true → meetsAll single.filter point = true := by
  intro h
  have hplan : compile Farm.domain Farm.Id.point ⟨0, 0, by decide⟩
      [⟨"meta", .obj [("a", .obj [("x", .int 1)])]⟩, ⟨"a", .obj [("y", .int 2)]⟩] =
        .ok ⟨Farm.Id.point, [("meta", .obj [("a", .obj [("y", .int 2)])]),
          (Farm.pointerType, .str Farm.genericPointer)], []⟩ := by
    simp only [compile, List.foldlM_cons, add_metadata]
    rfl
  have hfound := h _ _ _ _ _ hplan (by decide +kernel) _ List.mem_cons_self _ _
    (asks_metadata _ _) (by decide +kernel) _
    (compile_alone (add_metadata _ _) (asks_metadata _ _))
    [("meta", .obj [("a", .obj [("y", .int 2)])]), (Farm.pointerType, .str Farm.genericPointer)]
    (by decide +kernel)
  exact absurd hfound (by decide +kernel)

end Plan

end GardenMap
