import GardenMap.Proofs.Conversion.RoundTrip
import GardenMap.Proofs.Record.Assembly

/-!
# Records on the wire and back

A record of a schema whose finishing steps only fill absent fields is restored when its fields and
the values filled in are (`Fills.restored`).  On the wire every declared field has an entry, so the
extra keys of the record that is read back are those that were there, and since no filled field is
absent, finishing it changes nothing.
-/

namespace GardenMap.Domain

variable {d : Domain} {schema : SchemaId} {fs : List (String × Converter)}
  {fills : List (String × Value)}

/-- The converters are those of the fields of the schema and restore, and all that its finishing
steps do is to fill absent fields with values that are restored. -/
structure Fills (d : Domain) (schema : SchemaId) (fs : List (String × Converter))
    (fills : List (String × Value)) : Prop where
  names : fs.map (·.1) = (d.catalog.allFields schema).map (·.name)
  restores : ∀ f ∈ fs, d.Restores f.2
  steps : ∀ r : Record, r.schema = schema →
    ((d.catalog.lineage schema).flatMap (·.finish)).foldl Record.finish r = r.fillAll fills
  present : ∀ e ∈ fills, e.2.isNull = false
  filled : ∀ e ∈ fills, ∀ conv, (e.1, conv) ∈ fs → e.2.IsFinite → e.2.RestoredBy (d.apply conv)

/-- The converters are those of the fields of the schema, and all that its finishing steps do is to
fill absent fields. -/
structure Hooked (d : Domain) (schema : SchemaId) (fs : List (String × Converter))
    (fills : List (String × Value)) : Prop where
  names : fs.map (·.1) = (d.catalog.allFields schema).map (·.name)
  steps : ∀ r : Record, r.schema = schema →
    ((d.catalog.lineage schema).flatMap (·.finish)).foldl Record.finish r = r.fillAll fills
  present : ∀ e ∈ fills, e.2.isNull = false

theorem Fills.hooked (hd : d.Fills schema fs fills) : d.Hooked schema fs fills :=
  ⟨hd.names, hd.steps, hd.present⟩

variable {es : Object} {typed : List (String × Value)}

/-! ## What is put together -/

theorem assemble_eq_foldl (hnames : fs.map (·.1) = (d.catalog.allFields schema).map (·.name))
    (h : d.fields fs es [] = .ok typed) :
    d.catalog.assemble schema typed es =
      ((d.catalog.lineage schema).flatMap (·.finish)).foldl Record.finish
        ⟨schema, typed, Catalog.extras typed es⟩ := by
  have hdefaults : d.catalog.withDefaults schema typed = typed := by
    refine Catalog.withDefaults_eq_self fun f hf => ?_
    rw [Domain.has_fields h (hnames ▸ Catalog.nodup_allFields _ _), decide_eq_true_eq, hnames]
    exact List.mem_map.2 ⟨f, hf, rfl⟩
  unfold Catalog.assemble
  simp only
  rw [hdefaults]

namespace Hooked

theorem nodup (hd : d.Hooked schema fs fills) : (fs.map (·.1)).Nodup := by
  rw [hd.names]
  exact Catalog.nodup_allFields _ _

theorem has_fields (hd : d.Hooked schema fs fills) (h : d.fields fs es [] = .ok typed) (k : String) :
    Table.has typed k = decide (k ∈ fs.map (·.1)) :=
  Domain.has_fields h hd.nodup k

theorem assemble_eq (hd : d.Hooked schema fs fills) (h : d.fields fs es [] = .ok typed) :
    d.catalog.assemble schema typed es =
      Record.fillAll ⟨schema, typed, Catalog.extras typed es⟩ fills :=
  (assemble_eq_foldl hd.names h).trans (hd.steps _ rfl)

end Hooked

namespace Fills

/-- What is known of an assembled record. -/
structure Assembled (fs : List (String × Converter)) (fills : List (String × Value)) (es : Object)
    (typed : List (String × Value)) (r : Record) : Prop where
  sortedFields : Table.Sorted r.fields
  sortedExtra : Table.Sorted r.extra
  has : ∀ k, Table.has r.fields k = decide (k ∈ fs.map (·.1))
  extra : ∀ k, Table.get? r.extra k =
    if k ∈ fs.map (·.1) then none else (Table.get? es k).map Value.raw
  field : ∀ k y, Table.get? r.fields k = some y → Table.get? typed k = some y ∨
    (k, y) ∈ fills ∧ ∃ x, Table.get? typed k = some x ∧ x.isNull = true
  present : ∀ e ∈ fills, ∀ y, Table.get? r.fields e.1 = some y → y.isNull = false

end Fills

theorem Hooked.assembled (hd : d.Hooked schema fs fills) (hes : Table.Sorted es)
    (h : d.fields fs es [] = .ok typed) :
    Fills.Assembled fs fills es typed (d.catalog.assemble schema typed es) := by
  rw [hd.assemble_eq h]
  refine ⟨?_, ?_, fun k => ?_, fun k => ?_, fun k y => ?_, fun e he y => ?_⟩
  · exact Record.sorted_fillAll (sorted_fields h Table.sorted_nil) fills
  · rw [Record.extra_fillAll]
    exact Catalog.sorted_extras hes
  · rw [Record.has_fillAll]
    exact hd.has_fields h k
  · rw [Record.extra_fillAll, Catalog.get?_extras, hd.has_fields h]
    by_cases hk : k ∈ fs.map (·.1) <;> simp only [hk, decide_true, decide_false, if_true, if_false]
    rfl
  · exact Record.get?_fillAll
  · exact Record.isNull_fillAll hd.present he

namespace Fills

/-- A field of an assembled record is on the wire, and it was converted from the payload or filled
in for an absent value. -/
theorem Assembled.origin {r : Record} (hr : Assembled fs fills es typed r)
    (hd : d.Hooked schema fs fills) (h : d.fields fs es [] = .ok typed) {f : String × Converter}
    (hf : f ∈ fs) :
    ∃ y, Table.get? r.fields f.1 = some y ∧ Table.get? r.rawEntries f.1 = some y.toRaw ∧
      ∃ x, d.apply f.2 ((Table.get? es f.1).getD .null) = .ok x ∧
        (y = x ∨ (f.1, y) ∈ fills ∧ x.isNull = true) := by
  have hname : f.1 ∈ fs.map (·.1) := List.mem_map.2 ⟨f, hf, rfl⟩
  have hhas := hr.has f.1
  rw [decide_eq_true hname] at hhas
  obtain ⟨y, hy⟩ := Option.isSome_iff_exists.1 hhas
  obtain ⟨x, hx, hconv⟩ := get?_fields h hd.nodup f hf
  refine ⟨y, hy, ?_, x, hconv, ?_⟩
  · rw [Record.get?_rawEntries hr.sortedFields hr.sortedExtra, hy]
    rfl
  · rcases hr.field f.1 y hy with hfrom | ⟨hfill, z, hz, hnull⟩
    · rw [hx] at hfrom
      exact .inl (Option.some.inj hfrom).symm
    · rw [hx] at hz
      exact .inr ⟨hfill, Option.some.inj hz ▸ hnull⟩

/-- The fields of an assembled record are restored from the wire. -/
theorem Assembled.restored {r : Record} (hr : Assembled fs fills es typed r)
    (hd : d.Fills schema fs fills) (hes : (Json.obj es).Sorted)
    (h : d.fields fs es [] = .ok typed) (hfin : (Value.record r).IsFinite)
    {f : String × Converter} (hf : f ∈ fs) :
    ∃ y, Table.get? r.fields f.1 = some y ∧ Table.get? r.rawEntries f.1 = some y.toRaw ∧
      y.RestoredBy (d.apply f.2) := by
  obtain ⟨y, hy, hraw, x, hx, hfrom⟩ := hr.origin hd.hooked h hf
  have hyfin := Record.all_of_get? hfin hy
  refine ⟨y, hy, hraw, ?_⟩
  rcases hfrom with rfl | ⟨hfill, -⟩
  · refine hd.restores f hf _ _ ?_ hx hyfin
    cases hget : Table.get? es f.1 with
    | none => exact trivial
    | some v => exact hes.value (Table.mem_of_get? hget)
  · exact hd.filled _ hfill f.2 hf hyfin

/-! ## Reading a record back -/

section Again

variable {r : Record} {again : List (String × Value)}

theorem Assembled.exists_again (hA : Assembled fs fills es typed r) (hd : d.Fills schema fs fills)
    (hes : (Json.obj es).Sorted) (h : d.fields fs es [] = .ok typed)
    (hfin : (Value.record r).IsFinite) : ∃ again, d.fields fs r.rawEntries [] = .ok again := by
  refine exists_fields (fun f hf => ?_) []
  obtain ⟨y, -, hraw, x, hx, -⟩ := hA.restored hd hes h hfin hf
  refine ⟨x, ?_⟩
  rw [hraw]
  exact hx

theorem Assembled.field_again (hA : Assembled fs fills es typed r) (hd : d.Fills schema fs fills)
    (hes : (Json.obj es).Sorted) (h : d.fields fs es [] = .ok typed)
    (hfin : (Value.record r).IsFinite) (hagain : d.fields fs r.rawEntries [] = .ok again)
    {k : String} (hk : k ∈ fs.map (·.1)) :
    ∃ y z, Table.get? r.fields k = some y ∧ Table.get? again k = some z ∧ z.toRaw = y.toRaw ∧
      (y.IsWhole → z = y) := by
  obtain ⟨f, hf, rfl⟩ := List.mem_map.1 hk
  obtain ⟨y, hy, hraw, z, hz, hzraw, hzwhole⟩ := hA.restored hd hes h hfin hf
  obtain ⟨z', hz', hconv⟩ := get?_fields hagain hd.hooked.nodup f hf
  rw [hraw, Option.getD_some, hz] at hconv
  cases hconv
  exact ⟨y, z, hy, hz', hzraw, hzwhole⟩

theorem Assembled.undeclared (hA : Assembled fs fills es typed r) {k : String}
    (hk : k ∉ fs.map (·.1)) : Table.get? r.fields k = none := by
  have h := hA.has k
  rwa [decide_eq_false hk, Table.has, Option.isSome_eq_false_iff, Option.isNone_iff_eq_none] at h

theorem Assembled.extras_again (hA : Assembled fs fills es typed r) (hd : d.Hooked schema fs fills)
    (hagain : d.fields fs r.rawEntries [] = .ok again) :
    Catalog.extras again r.rawEntries = r.extra := by
  refine Table.eq_of_get? (Catalog.sorted_extras r.sorted_rawEntries) hA.sortedExtra fun k => ?_
  rw [Catalog.get?_extras, hd.has_fields hagain, hA.extra k]
  by_cases hk : k ∈ fs.map (·.1)
  · rw [if_pos hk, decide_eq_true hk, if_pos rfl]
  · rw [if_neg hk, decide_eq_false hk, if_neg Bool.false_ne_true,
      Record.get?_rawEntries hA.sortedFields hA.sortedExtra, hA.undeclared hk, hA.extra k,
      if_neg hk]
    cases Table.get? es k <;> rfl

theorem Assembled.assemble_again (hA : Assembled fs fills es typed r)
    (hd : d.Fills schema fs fills) (hes : (Json.obj es).Sorted)
    (h : d.fields fs es [] = .ok typed) (hfin : (Value.record r).IsFinite)
    (hagain : d.fields fs r.rawEntries [] = .ok again) :
    d.catalog.assemble schema again r.rawEntries = ⟨schema, again, r.extra⟩ := by
  rw [hd.hooked.assemble_eq hagain, hA.extras_again hd.hooked hagain]
  refine Record.fillAll_eq_self fun e he z hz => ?_
  change Table.get? again e.1 = some z at hz
  by_cases hk : e.1 ∈ fs.map (·.1)
  · obtain ⟨y, z', hy, hz', hraw, -⟩ := hA.field_again hd hes h hfin hagain hk
    cases hz'.symm.trans hz
    rw [Bool.eq_false_iff]
    intro hnull
    rw [toRaw_of_isNull hnull] at hraw
    have hynull := isNull_of_toRaw (Record.all_of_get? hfin hy) hraw.symm
    rw [hA.present e he y hy] at hynull
    cases hynull
  · rw [get?_fields_of_not_mem hagain hk] at hz
    cases hz

end Again

/-- A finite record is restored from its entries on the wire. -/
theorem restored (hd : d.Fills schema fs fills) (hes : (Json.obj es).Sorted)
    (h : d.fields fs es [] = .ok typed) {r : Record}
    (hr : r = d.catalog.assemble schema typed es) (hfin : (Value.record r).IsFinite) :
    ∃ again, d.fields fs r.rawEntries [] = .ok again ∧
      (d.catalog.assemble schema again r.rawEntries).rawEntries = r.rawEntries ∧
      ((Value.record r).IsWhole → d.catalog.assemble schema again r.rawEntries = r) := by
  have hA : Assembled fs fills es typed r := hr ▸ hd.hooked.assembled hes.1 h
  obtain ⟨again, hagain⟩ := hA.exists_again hd hes h hfin
  have hfield := fun k => hA.field_again hd hes h hfin hagain (k := k)
  have hsorted : Table.Sorted again := sorted_fields hagain Table.sorted_nil
  refine ⟨again, hagain, ?_, fun hwhole => ?_⟩
  · rw [hA.assemble_again hd hes h hfin hagain]
    refine Table.eq_of_get? (Record.sorted_rawEntries _) r.sorted_rawEntries fun k => ?_
    rw [Record.get?_rawEntries (r := ⟨schema, again, r.extra⟩) hsorted hA.sortedExtra,
      Record.get?_rawEntries hA.sortedFields hA.sortedExtra]
    by_cases hk : k ∈ fs.map (·.1)
    · obtain ⟨y, z, hy, hz, hraw, -⟩ := hfield k hk
      rw [hy, hz, Option.some_or, Option.some_or, Option.map_some, Option.map_some, hraw]
    · rw [hA.undeclared hk, get?_fields_of_not_mem hagain hk]
      rfl
  · have hfields : again = r.fields := by
      refine Table.eq_of_get? hsorted hA.sortedFields fun k => ?_
      by_cases hk : k ∈ fs.map (·.1)
      · obtain ⟨y, z, hy, hz, -, hsame⟩ := hfield k hk
        rw [hy, hz, hsame (Record.all_of_get? hwhole hy)]
      · rw [hA.undeclared hk, get?_fields_of_not_mem hagain hk]
        rfl
    have hschema : r.schema = schema := by
      rw [hr, hd.hooked.assemble_eq h, Record.schema_fillAll]
    rw [hA.assemble_again hd hes h hfin hagain, hfields, ← hschema]
    cases r
    rfl

end Fills

/-- A record converter restores when its tags lead to schemas that do, and lead there again from
the wire. -/
theorem restores_record {id : SchemaId}
    (h : ∀ es target, d.follow es d.catalog.length ⟨id, fs, none⟩ = .ok target →
      ∃ fills, d.Fills target.schema target.fields fills ∧
        ∀ typed, Table.Sorted es → d.fields target.fields es [] = .ok typed →
          d.follow (d.catalog.assemble target.schema typed es).rawEntries d.catalog.length
            ⟨id, fs, none⟩ = .ok target) :
    d.Restores (.record id fs) := by
  intro r v hr happly hfin
  rcases of_apply_record happly with rfl | ⟨es, target, typed, hes, hfollow, htyped, rfl⟩
  · exact restoredBy_null _
  have hsorted := Payload.sorted_of_record hr hes
  obtain ⟨fills, hd, hagain⟩ := h es target hfollow
  obtain ⟨again, hfields, hraw, hwhole⟩ := hd.restored hsorted htyped rfl hfin
  have hconv := apply_record_obj (hagain typed hsorted.1 htyped) hfields
  rw [← toRaw_record] at hconv
  refine ⟨_, hconv, ?_, fun hw => ?_⟩
  · rw [toRaw_record, toRaw_record, hraw]
  · rw [hwhole hw]

end GardenMap.Domain
