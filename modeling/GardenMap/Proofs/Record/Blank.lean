import GardenMap.Proofs.Record.Soundness

/-!
# Blank records

The record of an empty payload has absent fields but for those that finishing steps fill. When the
values filled in are read back as they are, so is the record (`Hooked.exists_blank`).
-/

namespace GardenMap

/-! ## Content -/

theorem sameFields_self {t : List (String × Value)} (h : ∀ e ∈ t, e.2.same e.2 = true) :
    sameFields t t = true := by
  induction t with
  | nil => simp [sameFields]
  | cons e t ih =>
    obtain ⟨he, ht⟩ := List.forall_mem_cons.1 h
    obtain ⟨k, v⟩ := e
    simp [sameFields, he, ih ht]

theorem Record.same_self {r : Record} (hextra : r.extra = [])
    (h : ∀ e ∈ r.fields, e.2.same e.2 = true) : r.same r = true := by
  obtain ⟨schema, fields, extra⟩ := r
  obtain rfl : extra = [] := hextra
  rw [Record.same, sameFields_self h]
  simp [sameFields]

namespace Domain

variable {d : Domain} {schema : SchemaId} {fs : List (String × Converter)}
  {fills : List (String × Value)}

theorem record_of_follow {id : SchemaId} {es : Object} {target : Conversion.Target}
    {typed : List (String × Value)} (hconv : d.catalog.converter (.record id) = .ok (.record id fs))
    (htarget : d.follow es d.catalog.length ⟨id, fs, none⟩ = .ok target)
    (htyped : d.fields target.fields es [] = .ok typed) :
    d.record id (.obj es) = .ok (d.catalog.assemble target.schema typed es) := by
  unfold record read
  simp only [hconv, apply_record_obj htarget htyped]
  rfl

theorem record_obj_iff {id : SchemaId} {es : Object} {target : Conversion.Target} {r : Record}
    (hconv : d.catalog.converter (.record id) = .ok (.record id fs))
    (htarget : d.follow es d.catalog.length ⟨id, fs, none⟩ = .ok target) :
    d.record id (.obj es) = .ok r ↔
      ∃ typed, d.fields target.fields es [] = .ok typed ∧
        d.catalog.assemble target.schema typed es = r := by
  constructor
  · intro hr
    unfold record read at hr
    rw [hconv] at hr
    simp only at hr
    cases happly : d.apply (.record id fs) (.obj es) with
    | error e => rw [happly] at hr; cases hr
    | ok v =>
      rw [happly] at hr
      rcases of_apply_record happly with rfl | ⟨es', target', typed, hes, hfollow, htyped, rfl⟩
      · cases hr
      · cases hes
        cases hfollow.symm.trans htarget
        cases hr
        exact ⟨typed, htyped, rfl⟩
  · rintro ⟨typed, htyped, rfl⟩
    exact record_of_follow hconv htarget htyped

/-! ## Reading back what is there -/

theorem Fills.Assembled.same_again {es : Object} {typed : List (String × Value)} {r : Record}
    (hA : Fills.Assembled fs fills es typed r) (hd : d.Hooked schema fs fills)
    (hschema : r.schema = schema)
    (hread : ∀ f ∈ fs, ∀ y, Table.get? r.fields f.1 = some y → d.apply f.2 y.toRaw = .ok y) :
    d.fields fs r.rawEntries [] = .ok r.fields ∧
      d.catalog.assemble schema r.fields r.rawEntries = r := by
  have hfield : ∀ f ∈ fs, ∃ y, Table.get? r.fields f.1 = some y ∧
      d.apply f.2 ((Table.get? r.rawEntries f.1).getD .null) = .ok y := by
    intro f hf
    have hhas := hA.has f.1
    rw [decide_eq_true (List.mem_map.2 ⟨f, hf, rfl⟩)] at hhas
    obtain ⟨y, hy⟩ := Option.isSome_iff_exists.1 hhas
    refine ⟨y, hy, ?_⟩
    rw [Record.get?_rawEntries hA.sortedFields hA.sortedExtra, hy]
    exact hread f hf y hy
  obtain ⟨again, hagain⟩ := exists_fields (fun f hf => (hfield f hf).imp fun _ hy => hy.2) []
  have heq : again = r.fields := by
    refine Table.eq_of_get? (sorted_fields hagain Table.sorted_nil) hA.sortedFields fun k => ?_
    by_cases hk : k ∈ fs.map (·.1)
    · obtain ⟨f, hf, rfl⟩ := List.mem_map.1 hk
      obtain ⟨y, hy, hconv⟩ := hfield f hf
      obtain ⟨z, hz, hconv'⟩ := get?_fields hagain hd.nodup f hf
      rw [hconv] at hconv'
      cases hconv'
      rw [hy, hz]
    · rw [hA.undeclared hk, get?_fields_of_not_mem hagain hk]
      rfl
  subst heq
  refine ⟨hagain, ?_⟩
  have heta : (⟨r.schema, r.fields, r.extra⟩ : Record) = r := by cases r; rfl
  rw [hd.assemble_eq hagain, hA.extras_again hd hagain, ← hschema, heta]
  exact Record.fillAll_eq_self fun e he y hy => hA.present e he y hy

/-! ## Blank records -/

/-- What is known of the record of an empty payload. -/
structure Blank (d : Domain) (schema : SchemaId) (fs : List (String × Converter))
    (fills : List (String × Value)) (r : Record) : Prop where
  schema_eq : r.schema = schema
  sorted : Table.Sorted r.fields
  made : ∃ typed, d.fields fs [] [] = .ok typed ∧ d.catalog.assemble schema typed [] = r
  extra : r.extra = []
  /-- Every value is absent or filled in. -/
  value : ∀ k y, r.get? k = some y → y = .null ∨ (k, y) ∈ fills
  /-- Declared fields that are to be filled are. -/
  filled : ∀ e ∈ fills, e.1 ∈ fs.map (·.1) → ∃ y, r.get? e.1 = some y ∧ (e.1, y) ∈ fills
  fields_again : d.fields fs r.rawEntries [] = .ok r.fields
  assemble_again : d.catalog.assemble schema r.fields r.rawEntries = r

theorem Hooked.exists_blank (hd : d.Hooked schema fs fills)
    (hfills : ∀ e ∈ fills, ∀ f ∈ fs, f.1 = e.1 → d.apply f.2 e.2.toRaw = .ok e.2) :
    ∃ r, d.Blank schema fs fills r := by
  have htyped : d.fields fs [] [] = _ := fields_absent (fun _ _ => rfl) []
  generalize (fs.map (·.1)).foldl (fun t name => Table.put t name Value.null) [] = typed at htyped
  have hA := hd.assembled Table.sorted_nil htyped
  have hnull : ∀ k y, Table.get? typed k = some y → y = .null := by
    intro k y hy
    by_cases hk : k ∈ fs.map (·.1)
    · obtain ⟨f, hf, rfl⟩ := List.mem_map.1 hk
      obtain ⟨x, hx, hconv⟩ := get?_fields htyped hd.nodup f hf
      rw [hy] at hx
      cases hx
      exact (Except.ok.inj (hconv.symm.trans (apply_null f.2)))
    · rw [get?_fields_of_not_mem htyped hk] at hy
      cases hy
  have hvalue : ∀ k y, Table.get? (d.catalog.assemble schema typed []).fields k = some y →
      y = .null ∨ (k, y) ∈ fills :=
    fun k y hy => (hA.field k y hy).imp (hnull k y) And.left
  have hschema : (d.catalog.assemble schema typed []).schema = schema := by
    rw [hd.assemble_eq htyped, Record.schema_fillAll]
  have hextra : (d.catalog.assemble schema typed []).extra = [] := by
    rw [hd.assemble_eq htyped, Record.extra_fillAll]
    rfl
  obtain ⟨hfields, hagain⟩ := hA.same_again hd hschema fun f hf y hy => by
    rcases hvalue f.1 y hy with rfl | hmem
    · exact apply_null f.2
    · exact hfills _ hmem f hf rfl
  refine ⟨_, hschema, hA.sortedFields, ⟨typed, htyped, rfl⟩, hextra, hvalue, fun e he hname => ?_, hfields, hagain⟩
  have hhas := hA.has e.1
  rw [decide_eq_true hname] at hhas
  obtain ⟨y, hy⟩ := Option.isSome_iff_exists.1 hhas
  refine ⟨y, hy, (hvalue e.1 y hy).resolve_left ?_⟩
  rintro rfl
  cases hA.present e he _ hy

end Domain

end GardenMap
