import GardenMap.Proofs.Query.Narrowing

/-!
# The order of clauses

Two lists of the same clauses, with one key for each clause that is not negated, compile to plans
with one filter, and with the same predicates in another order (`compile_perm`). The plans hold of
the same records, except that one plan may reach a predicate that fails where the other has stopped
before it.

Proof. A clause compiles or not by itself (`foldlM_eq_ok_iff`). The two filters of a draft are sorted
and have the entries that the clauses ask for, in whatever order (`Keeps.perm`), so drafts of the same
clauses have the same two filters.
-/

namespace GardenMap

namespace Draft

variable {d : Domain} {target : SchemaId} {now : Instant} {draft draft' : Draft} {q : Clause}
variable {qs rs : List Clause}

/-! ## Whether clauses compile -/

theorem foldlM_eq_ok_iff (draft : Draft) :
    (∃ draft', qs.foldlM (Draft.add d target now) draft = .ok draft') ↔
      ∀ q ∈ qs, ∃ next, empty.add d target now q = .ok next := by
  induction qs generalizing draft with
  | nil => exact iff_of_true ⟨draft, rfl⟩ fun q hq => by cases hq
  | cons q qs ih =>
    rw [List.forall_mem_cons, List.foldlM_cons]
    cases hq : draft.add d target now q with
    | error e =>
      constructor
      · rintro ⟨_, h⟩
        cases h
      · rintro ⟨⟨_, h⟩, -⟩
        obtain ⟨next, hnext⟩ := add_ok_of_add_ok h draft
        rw [hq] at hnext
        cases hnext
    | ok next => exact (ih next).trans (and_iff_right (add_ok_of_add_ok hq empty)).symm

/-! ## The filters -/

/-- Both filters are in the order of their keys. -/
structure Ordered (draft : Draft) : Prop where
  filter : Table.Sorted draft.filter
  metadata : Table.Sorted draft.metadata

theorem ordered_empty : Ordered empty := ⟨Table.sorted_nil, Table.sorted_nil⟩

theorem Ordered.add (hs : Ordered draft) (h : draft.add d target now q = .ok draft') :
    Ordered draft' := by
  rcases add_eq_ok h with ⟨key, v, -, -, rfl⟩ | ⟨key, v, -, -, rfl⟩ | ⟨p, -, rfl⟩
  · exact ⟨Table.sorted_put hs.filter key v, hs.metadata⟩
  · exact ⟨hs.filter, Table.sorted_put hs.metadata key v⟩
  · exact ⟨hs.filter, hs.metadata⟩

theorem Ordered.foldlM (hs : Ordered draft)
    (h : qs.foldlM (Draft.add d target now) draft = .ok draft') : Ordered draft' := by
  induction qs generalizing draft with
  | nil =>
    cases h
    exact hs
  | cons q qs ih =>
    obtain ⟨next, hq, h⟩ := foldlM_cons_eq_ok h
    exact ih (hs.add hq) h

theorem Keeps.perm {P : String → Prop} {filter : Object} (h : Keeps now P qs filter)
    (hperm : qs.Perm rs) : Keeps now P rs filter := by
  intro e
  rw [h e]
  refine and_congr_right fun _ => exists_congr fun p => and_congr_left fun _ => ?_
  exact hperm.mem_iff

theorem Keeps.eq {P : String → Prop} {filter filter' : Object} (h : Keeps now P qs filter)
    (h' : Keeps now P qs filter') (hs : Table.Sorted filter) (hs' : Table.Sorted filter') :
    filter' = filter :=
  Table.eq_of_mem_iff hs' hs fun e => (h' e).trans (h e).symm

theorem plainKeys_perm (hperm : qs.Perm rs) : (plainKeys qs).Perm (plainKeys rs) :=
  (hperm.filter _).map _

end Draft

/-! ## The predicates -/

theorem holdAll_perm {c : Catalog} {r : Record} {ps ps' : List Predicate} (h : ps.Perm ps')
    (hok : ∀ p ∈ ps, ∃ b, p.holds c r = .ok b) : holdAll c r ps' = holdAll c r ps := by
  induction h with
  | nil => rfl
  | cons p _ ih => rw [holdAll, holdAll, ih fun q hq => hok q (by simp [hq])]
  | swap p q ps =>
    obtain ⟨a, ha⟩ := hok p (by simp)
    obtain ⟨b, hb⟩ := hok q (by simp)
    simp only [holdAll, ha, hb]
    cases a <;> cases b <;> rfl
  | trans h _ ih ih' => rw [ih' fun p hp => hok p (h.mem_iff.2 hp), ih hok]

namespace Plan

open Draft

variable {d : Domain} {target : SchemaId} {now : Instant} {qs rs : List Clause}

theorem exists_compile_iff :
    (∃ plan, compile d target now qs = .ok plan) ↔
      ∀ q ∈ qs, ∃ next, empty.add d target now q = .ok next := by
  rw [← foldlM_eq_ok_iff empty]
  constructor
  · rintro ⟨plan, h⟩
    obtain ⟨draft, hdraft, -⟩ := compile_eq_ok h
    exact ⟨draft, hdraft⟩
  · rintro ⟨draft, h⟩
    unfold compile
    rw [h]
    exact ⟨_, rfl⟩

/-- Of two lists of the same clauses, with one key for each clause that is not negated, both compile
or none. The plans have one filter and the same predicates, and they hold of the same records among
those of which no predicate fails. -/
theorem compile_perm (d : Domain) (target : SchemaId) (now : Instant) (qs rs : List Clause)
    (hperm : qs.Perm rs) (hkeys : ((qs.filter fun q => !q.target.2).map (·.target.1)).Nodup) :
    ((∃ plan, compile d target now qs = .ok plan) ↔ ∃ plan, compile d target now rs = .ok plan) ∧
    ∀ plan plan', compile d target now qs = .ok plan → compile d target now rs = .ok plan' →
      plan'.target = plan.target ∧ plan'.filter = plan.filter ∧
      plan'.predicates.Perm plan.predicates ∧
      ∀ r : Record, (∀ p ∈ plan.predicates, ∃ b, p.holds d.catalog r = .ok b) →
        plan'.holds d.catalog r = plan.holds d.catalog r := by
  constructor
  · rw [exists_compile_iff, exists_compile_iff]
    exact forall_congr' fun q => imp_congr_left hperm.mem_iff
  · intro plan plan' h h'
    obtain ⟨draft, hdraft, rfl⟩ := compile_eq_ok h
    obtain ⟨draft', hdraft', rfl⟩ := compile_eq_ok h'
    have hkeys' : (plainKeys rs).Nodup := (plainKeys_perm hperm).nodup_iff.1 hkeys
    have hr : Reads d target now qs draft := (reads_empty d target now).foldlM hkeys hdraft
    have hr' : Reads d target now rs draft' := (reads_empty d target now).foldlM hkeys' hdraft'
    have hs := ordered_empty.foldlM hdraft
    have hs' := ordered_empty.foldlM hdraft'
    have hfilter : draft'.filter = draft.filter :=
      hr.filter.eq (hr'.filter.perm hperm.symm) hs.filter hs'.filter
    have hmetadata : draft'.metadata = draft.metadata :=
      hr.metadata.eq (hr'.metadata.perm hperm.symm) hs.metadata hs'.metadata
    have hpredicates : draft.predicates.Perm draft'.predicates := by
      rw [hr.predicates, hr'.predicates]
      exact hperm.filterMap _
    refine ⟨rfl, ?_, hpredicates.symm, fun r hok => holdAll_perm hpredicates hok⟩
    simp only [merged, hfilter, hmetadata]

/-- Two entries of the metadata field and a test, in the other order. -/
theorem compile_perm_metadata :
    ∃ plan, compile Farm.domain Farm.Id.point ⟨0, 0, by decide⟩
        [⟨"!b", .null⟩, ⟨"b", .bool false⟩, ⟨"a", .bool true⟩] = .ok plan ∧
      plan.filter = [("meta", .obj [("a", .bool true), ("b", .bool false)]),
        (Farm.pointerType, .str Farm.genericPointer)] := by
  obtain ⟨hcompiles, hplans⟩ := compile_perm Farm.domain Farm.Id.point ⟨0, 0, by decide⟩
    [⟨"a", .bool true⟩, ⟨"b", .bool false⟩, ⟨"!b", .null⟩] _ (List.reverse_perm _).symm
    (by decide +kernel)
  obtain ⟨plan, hplan⟩ := hcompiles.1 ⟨_, rfl⟩
  exact ⟨plan, hplan, (hplans _ plan rfl hplan).2.1⟩

end Plan

end GardenMap
