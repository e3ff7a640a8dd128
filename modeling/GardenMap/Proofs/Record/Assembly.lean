import GardenMap.Proofs.Record.Contents
import GardenMap.Record.Build

/-!
# How records are put together

The names of the fields of a schema are distinct, so a table with all of them takes no defaults.
Hooks that fill (`Record.fillAll`) add no field and replace absent values only; once they are done
they fill nothing more (`Record.fillAll_eq_self`).
-/

namespace GardenMap

/-! ## Names -/

namespace Catalog

variable {c : Catalog}

theorem names_addField (fields : List Field) (f : Field) :
    (addField fields f).map (·.name) =
      if f.name ∈ fields.map (·.name) then fields.map (·.name)
      else fields.map (·.name) ++ [f.name] := by
  unfold addField
  by_cases h : f.name ∈ fields.map (·.name)
  · have hany : (fields.any fun g => g.name = f.name) = true := by
      obtain ⟨g, hg, hname⟩ := List.mem_map.1 h
      exact List.any_eq_true.2 ⟨g, hg, decide_eq_true hname⟩
    rw [if_pos h, if_pos hany, List.map_map]
    refine List.map_congr_left fun g _ => ?_
    simp only [Function.comp_apply]
    split
    · next hname => exact hname.symm
    · rfl
  · have hany : ¬ (fields.any fun g => g.name = f.name) = true := by
      intro hany
      obtain ⟨g, hg, hname⟩ := List.any_eq_true.1 hany
      exact h (List.mem_map.2 ⟨g, hg, of_decide_eq_true hname⟩)
    rw [if_neg h, if_neg hany, List.map_append]
    rfl

theorem nodup_addField {fields : List Field} (h : (fields.map (·.name)).Nodup) (f : Field) :
    ((addField fields f).map (·.name)).Nodup := by
  rw [names_addField]
  split
  · exact h
  · next hf =>
    rw [List.nodup_append]
    refine ⟨h, by simp, fun a ha b hb => ?_⟩
    rw [List.mem_singleton] at hb
    exact fun hab => hf (hb ▸ hab ▸ ha)

theorem nodup_foldl_addField (fs : List Field) {fields : List Field}
    (h : (fields.map (·.name)).Nodup) : ((fs.foldl addField fields).map (·.name)).Nodup := by
  induction fs generalizing fields with
  | nil => exact h
  | cons f fs ih => exact ih (nodup_addField h f)

theorem nodup_allFields (c : Catalog) (id : SchemaId) : ((c.allFields id).map (·.name)).Nodup :=
  nodup_foldl_addField _ (by simp)

theorem mem_of_mem_addField {fields : List Field} {f g : Field} (h : g ∈ addField fields f) :
    g ∈ fields ∨ g = f := by
  unfold addField at h
  split at h
  · obtain ⟨old, hold, rfl⟩ := List.mem_map.1 h
    split
    · exact .inr rfl
    · exact .inl hold
  · simpa using h

theorem exists_of_mem_allFields {id : SchemaId} {g : Field} (h : g ∈ c.allFields id) :
    ∃ t ∈ c.lineage id, g ∈ t.fields := by
  have hfold : ∀ {fs fields : List Field}, g ∈ fs.foldl addField fields → g ∈ fields ∨ g ∈ fs := by
    intro fs
    induction fs with
    | nil => exact fun h => .inl h
    | cons f fs ih =>
      intro fields h
      rcases ih h with h | h
      · rcases mem_of_mem_addField h with h | rfl
        · exact .inl h
        · exact .inr List.mem_cons_self
      · exact .inr (List.mem_cons_of_mem _ h)
  exact List.mem_flatMap.1 ((hfold h).resolve_left List.not_mem_nil)

theorem withDefaults_eq_self {id : SchemaId} {t : List (String × Value)}
    (h : ∀ f ∈ c.allFields id, Table.has t f.name = true) : c.withDefaults id t = t := by
  unfold withDefaults
  generalize c.allFields id = fs at h
  induction fs with
  | nil => rfl
  | cons f fs ih =>
    obtain ⟨hf, hfs⟩ := List.forall_mem_cons.1 h
    rw [List.foldl_cons, if_pos hf]
    exact ih hfs

/-! ## Extra keys -/

theorem sorted_extras {t : List (String × Value)} {es : Object} (hes : Table.Sorted es) :
    Table.Sorted (extras t es) :=
  Table.sorted_map (Table.sorted_filter hes _) Value.raw

theorem get?_extras (t : List (String × Value)) (es : Object) (k : String) :
    Table.get? (extras t es) k =
      if Table.has t k then none else (Table.get? es k).map Value.raw := by
  unfold extras
  rw [Table.get?_map, Table.get?_filter_key fun l => !Table.has t l]
  cases Table.has t k <;> rfl

end Catalog

/-! ## Filling -/

namespace Record

/-- Fill fields that are absent, one after the other. -/
def fillAll (r : Record) (fills : List (String × Value)) : Record :=
  fills.foldl (fun r e => r.fill e.1 e.2) r

theorem schema_fill (r : Record) (name : String) (v : Value) :
    (r.fill name v).schema = r.schema := by
  unfold fill
  split
  · split <;> rfl
  · rfl

theorem extra_fill (r : Record) (name : String) (v : Value) :
    (r.fill name v).extra = r.extra := by
  unfold fill
  split
  · split <;> rfl
  · rfl

@[simp] theorem finish_fill (r : Record) (field : String) (v : Value) :
    r.finish (.fill field v) = r.fill field v := rfl

theorem sorted_fill {r : Record} (h : Table.Sorted r.fields) (name : String) (v : Value) :
    Table.Sorted (r.fill name v).fields := by
  unfold fill
  split
  · split
    · exact Table.sorted_put h name v
    · exact h
  · exact h

theorem get?_fill (r : Record) (name k : String) (v : Value) :
    Table.get? (r.fill name v).fields k =
      (Table.get? r.fields k).map fun old => if k = name && old.isNull then v else old := by
  unfold fill get?
  by_cases hk : k = name
  · subst hk
    cases hold : Table.get? r.fields k with
    | none =>
      simp only [Option.map_none]
      exact hold
    | some old =>
      cases hnull : old.isNull with
      | true => simp [put, Table.get?_put, hnull]
      | false => simp [hold, hnull]
  · have hmap : (Table.get? r.fields k).map
        (fun old => if k = name && old.isNull then v else old) = Table.get? r.fields k := by
      simp [hk]
    rw [hmap]
    split
    · split
      · simp only [put, Table.get?_put, if_neg hk]
      · rfl
    · rfl

theorem fill_eq_self {r : Record} {name : String} (v : Value)
    (h : ∀ x, Table.get? r.fields name = some x → x.isNull = false) : r.fill name v = r := by
  unfold fill
  split
  · next old hold => rw [if_neg (by rw [h old hold]; simp)]
  · rfl

theorem schema_fillAll (r : Record) (fills : List (String × Value)) :
    (r.fillAll fills).schema = r.schema := by
  induction fills generalizing r with
  | nil => rfl
  | cons e fills ih => exact (ih _).trans (schema_fill r e.1 e.2)

theorem exists_fillAll {steps : List FinishStep} {r : Record}
    (h : ∀ step ∈ steps, ∀ r' : Record, r'.schema = r.schema →
      ∃ fills, r'.finish step = r'.fillAll fills) :
    ∃ fills, steps.foldl finish r = r.fillAll fills := by
  induction steps generalizing r with
  | nil => exact ⟨[], rfl⟩
  | cons step steps ih =>
    obtain ⟨hstep, hsteps⟩ := List.forall_mem_cons.1 h
    obtain ⟨first, hfirst⟩ := hstep r rfl
    rw [List.foldl_cons, hfirst]
    obtain ⟨rest, hrest⟩ := ih (r := r.fillAll first) (by rwa [schema_fillAll])
    exact ⟨first ++ rest, by rw [hrest, fillAll, fillAll, fillAll, List.foldl_append]⟩

theorem extra_fillAll (r : Record) (fills : List (String × Value)) :
    (r.fillAll fills).extra = r.extra := by
  induction fills generalizing r with
  | nil => rfl
  | cons e fills ih => exact (ih _).trans (extra_fill r e.1 e.2)

theorem sorted_fillAll {r : Record} (h : Table.Sorted r.fields) (fills : List (String × Value)) :
    Table.Sorted (r.fillAll fills).fields := by
  induction fills generalizing r with
  | nil => exact h
  | cons e fills ih => exact ih (sorted_fill h e.1 e.2)

theorem has_fillAll (r : Record) (fills : List (String × Value)) (k : String) :
    Table.has (r.fillAll fills).fields k = Table.has r.fields k := by
  induction fills generalizing r with
  | nil => rfl
  | cons e fills ih =>
    refine (ih _).trans ?_
    unfold Table.has
    rw [get?_fill, Option.isSome_map]

theorem get?_fillAll {r : Record} {fills : List (String × Value)} {k : String} {y : Value}
    (h : Table.get? (r.fillAll fills).fields k = some y) :
    Table.get? r.fields k = some y ∨
      (k, y) ∈ fills ∧ ∃ x, Table.get? r.fields k = some x ∧ x.isNull = true := by
  induction fills generalizing r with
  | nil => exact .inl h
  | cons e fills ih =>
    have hfirst : ∀ {z}, Table.get? (r.fill e.1 e.2).fields k = some z →
        Table.get? r.fields k = some z ∨
          (k, z) = e ∧ ∃ x, Table.get? r.fields k = some x ∧ x.isNull = true := by
      intro z hz
      rw [get?_fill] at hz
      obtain ⟨old, hold, rfl⟩ := Option.map_eq_some_iff.1 hz
      split
      · next hcond =>
        rw [Bool.and_eq_true, decide_eq_true_eq] at hcond
        exact .inr ⟨Prod.ext hcond.1 rfl, old, hold, hcond.2⟩
      · exact .inl hold
    rcases ih h with hy | ⟨hmem, x, hx, hnull⟩
    · rcases hfirst hy with hy | ⟨heq, hold⟩
      · exact .inl hy
      · exact .inr ⟨by simp [heq], hold⟩
    · refine .inr ⟨List.mem_cons_of_mem _ hmem, ?_⟩
      rcases hfirst hx with hx | ⟨-, hold⟩
      · exact ⟨x, hx, hnull⟩
      · exact hold

theorem get?_fillAll_of_present {r : Record} (fills : List (String × Value)) {k : String} {x : Value}
    (hx : Table.get? r.fields k = some x) (hnull : x.isNull = false) :
    (r.fillAll fills).get? k = some x := by
  induction fills generalizing r with
  | nil => exact hx
  | cons e fills ih =>
    refine ih ?_
    rw [get?_fill, hx, Option.map_some, hnull, Bool.and_false]
    rfl

theorem isNull_fillAll {r : Record} {fills : List (String × Value)}
    (hfills : ∀ e ∈ fills, e.2.isNull = false) {e : String × Value} (he : e ∈ fills) {y : Value}
    (hy : Table.get? (r.fillAll fills).fields e.1 = some y) : y.isNull = false := by
  induction fills generalizing r with
  | nil => cases he
  | cons f fills ih =>
    obtain ⟨hf, hrest⟩ := List.forall_mem_cons.1 hfills
    rcases List.mem_cons.1 he with rfl | he
    · change Table.get? ((r.fill e.1 e.2).fillAll fills).fields e.1 = some y at hy
      rcases get?_fillAll hy with hy | ⟨hmem, -⟩
      · rw [get?_fill] at hy
        obtain ⟨old, -, rfl⟩ := Option.map_eq_some_iff.1 hy
        cases hold : old.isNull with
        | true => simpa using hf
        | false => simpa using hold
      · exact hrest _ hmem
    · exact ih hrest he hy

theorem fillAll_eq_self {r : Record} {fills : List (String × Value)}
    (h : ∀ e ∈ fills, ∀ x, Table.get? r.fields e.1 = some x → x.isNull = false) :
    r.fillAll fills = r := by
  induction fills with
  | nil => rfl
  | cons e fills ih =>
    obtain ⟨he, hfills⟩ := List.forall_mem_cons.1 h
    show (r.fill e.1 e.2).fillAll fills = r
    rw [fill_eq_self e.2 he, ih hfills]

end Record

/-! ## The schema of a record -/

namespace Record

theorem schema_set? {r r' : Record} {name : String} {v : Value} (h : r.set? name v = some r') :
    r'.schema = r.schema := by
  unfold set? at h
  split at h
  · cases h
    rfl
  · cases h

theorem schema_change (r : Record) (step : Change) : (r.change step).schema = r.schema := by
  cases step with
  | set field v =>
    rw [change]
    cases h : r.set? field v with
    | none => rfl
    | some r' => exact schema_set? h
  | fill field v => exact r.schema_fill field v
  | putExtra key v =>
    rw [change]
    split <;> rfl
  | dropExtra key => rfl

theorem schema_foldl_change (r : Record) (steps : List Change) :
    (steps.foldl change r).schema = r.schema := by
  induction steps generalizing r with
  | nil => rfl
  | cons step steps ih => rw [List.foldl_cons, ih, schema_change]

theorem schema_finish (r : Record) (step : FinishStep) : (r.finish step).schema = r.schema :=
  r.schema_foldl_change (step.changes r)

theorem schema_foldl_finish (r : Record) (steps : List FinishStep) :
    (steps.foldl finish r).schema = r.schema := by
  induction steps generalizing r with
  | nil => rfl
  | cons step steps ih => rw [List.foldl_cons, ih, schema_finish]

end Record

theorem Catalog.schema_assemble (c : Catalog) (id : SchemaId) (fields : List (String × Value))
    (es : Object) : (c.assemble id fields es).schema = id := by
  unfold assemble
  rw [Record.schema_foldl_finish]

end GardenMap
