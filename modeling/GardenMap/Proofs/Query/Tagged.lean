import GardenMap.Proofs.Farm.Rereading
import GardenMap.Proofs.Query.Complements
import GardenMap.Proofs.Record.Preservation
import GardenMap.Proofs.Schema.Membership

/-!
# Points with the tag of their target

A point that has the tag of a target is read as a record of that very schema (`follow_tagged`): a
tag sends only points for the base of a family elsewhere, and the tag of the base names no member.
The record has the entries of the point: a declared field the one of its name, under its shape,
unless it is absent and a hook fills it (`ReadAs.present?_field`), and an undeclared key the one
that a filter looks at (`ReadAs.present?_metadata`).
-/

namespace GardenMap.Domain

variable {d : Domain} {target : SchemaId} {point : Object} {r : Record}

/-! ## Targets -/

/-- A target in order: schemas have identities of their own, and no schema of the lineage declares
one name with two shapes. The field for undeclared keys is a mapping from texts to anything, hooks
fill absent fields only, and no member of the family has the tag of its base for a name. -/
structure Orderly (d : Domain) (target : SchemaId) : Prop where
  grounded : d.catalog.Grounded
  namesOnce : d.catalog.NamesOnce target
  bucket : ∀ field, d.catalog.metadataField? target = some field →
    d.catalog.field? target field = some ⟨field, .map .str .any⟩
  hooks : ∀ step ∈ (d.catalog.lineage target).flatMap (·.finish), ∀ r : Record,
    r.schema = target → ∃ fills, r.finish step = r.fillAll fills
  members : ∀ f, d.catalog.family? target = some f → ∀ e ∈ d.indexOf f, e.2.name ≠ f.baseTag

theorem Orderly.select_baseTag (h : d.Orderly target) {f : Family}
    (hf : d.catalog.family? target = some f) : f.select (d.indexOf f) (some f.baseTag) = f.base := by
  have hnone : Table.get? (d.indexOf f) f.baseTag = none := by
    refine Table.get?_eq_none_iff.2 fun e he => ?_
    rw [(Family.linked_of_mem_indexOf he).1]
    exact h.members f hf e he
  rw [Family.select, Option.bind_some, hnone]
  rfl

/-- A point that has the tag of a target stays with it. -/
theorem Orderly.follow_tagged (h : d.Orderly target) (htag : hasTag d.catalog target point = true)
    (fs : List (String × Converter)) :
    d.follow point d.catalog.length ⟨target, fs, none⟩ = .ok ⟨target, fs, none⟩ := by
  cases hroot : d.catalog.rootedFamily? target with
  | none => exact follow_eq_self hroot point _
  | some f =>
    have hfamily := h.grounded.family?_of_rootedFamily? hroot
    have hbase : f.base = target := base_of_rootedFamily? hroot
    have hbaseTag : (Table.get? point f.discriminator).bind Json.str? = some f.baseTag := by
      rw [hasTag, hfamily] at htag
      have htag := of_decide_eq_true htag
      rwa [Family.tagOf, if_pos hbase.symm] at htag
    have hstay : f.select (d.indexOf f) ((Table.get? point f.discriminator).bind Json.str?) =
        target := by
      rw [hbaseTag, h.select_baseTag hfamily, hbase]
    rw [follow_base hroot point hstay (fun hne => absurd rfl hne) fs, if_pos rfl]

theorem name_ne_baseTag {f : Family}
    (h : ∀ s ∈ f.declared ++ d.registered f.base, s.name ≠ f.baseTag) :
    ∀ e ∈ d.indexOf f, e.2.name ≠ f.baseTag := fun e he => by
  obtain ⟨-, hne, hlinked⟩ := Family.linked_of_mem_indexOf he
  exact h e.2 (hlinked.mem_candidates hne)

/-! ## Records -/

/-- What is known of the record of a point that stays with the target. -/
structure ReadAs (d : Domain) (target : SchemaId) (point : Object) (r : Record) : Prop where
  schema : r.schema = target
  field : ∀ g ∈ d.catalog.allFields target, ∃ conv x, Builds d.catalog g.shape conv ∧
    d.apply conv ((Table.get? point g.name).getD .null) = .ok x ∧
      (x.isNull = false → r.get? g.name = some x)
  extra : ∀ key, d.catalog.field? target key = none →
    Table.get? r.extra key = (Table.get? point key).map Value.raw

theorem Orderly.readAs (h : d.Orderly target) (htag : hasTag d.catalog target point = true)
    (hrecord : d.record target (.obj point) = .ok r) : d.ReadAs target point r := by
  cases hconv : d.catalog.converter (.record target) with
  | error e =>
    unfold record read at hrecord
    rw [hconv] at hrecord
    cases hrecord
  | ok conv =>
    have hb := Catalog.converter_eq_ok.1 hconv
    obtain ⟨fs, rfl, hnames, -⟩ := hb.of_record
    obtain ⟨typed, htyped, rfl⟩ := (record_obj_iff hconv (h.follow_tagged htag fs)).1 hrecord
    obtain ⟨fills, hfills⟩ := Record.exists_fillAll
      (r := ⟨target, typed, Catalog.extras typed point⟩) h.hooks
    have hnodup : (fs.map (·.1)).Nodup := hnames ▸ Catalog.nodup_allFields _ _
    have hassemble := (assemble_eq_foldl hnames htyped).trans hfills
    refine ⟨d.catalog.schema_assemble target typed point, fun g hg => ?_, fun key hkey => ?_⟩
    · obtain ⟨conv, hmem, hconv⟩ := Farm.exists_converter hb hg
      obtain ⟨x, hx, happly⟩ := get?_fields htyped hnodup (g.name, conv) hmem
      refine ⟨conv, x, hconv, happly, fun hnull => ?_⟩
      rw [hassemble]
      exact Record.get?_fillAll_of_present fills hx hnull
    · have hhas : Table.has typed key = false := by
        rw [has_fields htyped hnodup, hnames, decide_eq_false]
        exact Catalog.field?_eq_none_iff.1 hkey
      rw [hassemble, Record.extra_fillAll, Catalog.get?_extras, hhas]
      rfl

theorem Orderly.exists_record (h : d.Orderly target)
    (hwell : (Shape.record target).WellFormed d.catalog)
    (htag : hasTag d.catalog target point = true)
    (hfields : ∀ g ∈ d.catalog.allFields target, ∀ conv, Builds d.catalog g.shape conv →
      ∃ x, d.apply conv ((Table.get? point g.name).getD .null) = .ok x) :
    ∃ r, d.record target (.obj point) = .ok r := by
  obtain ⟨conv, hb⟩ := exists_builds_iff.2 hwell
  obtain ⟨fs, rfl, -, hconvs⟩ := hb.of_record
  obtain ⟨typed, htyped⟩ := exists_fields (fun f hf => by
    obtain ⟨g, hg, hname, hconv⟩ := hconvs f hf
    rw [← hname]
    exact hfields g hg f.2 hconv) []
  exact ⟨_, record_of_follow (Catalog.converter_eq_ok.2 hb) (h.follow_tagged htag fs) htyped⟩

/-- A declared field of the record has what the entry of the point converts to. -/
theorem ReadAs.present?_field (hr : d.ReadAs target point r) (hnames : d.catalog.NamesOnce target)
    {key : String} {f : Field} (hf : d.catalog.field? target key = some f) {conv : Converter}
    (hconv : Builds d.catalog f.shape conv) {x : Value}
    (hx : d.apply conv ((Table.get? point key).getD .null) = .ok x) (hnull : x.isNull = false) :
    (FieldRef.field key).present? d.catalog r = some x := by
  obtain ⟨hmem, rfl⟩ := Catalog.mem_allFields_of_field? hnames hf
  obtain ⟨conv', y, hconv', hy, hget⟩ := hr.field f hmem
  cases hconv'.det hconv
  cases hy.symm.trans hx
  simp only [FieldRef.present?, FieldRef.read?, hget hnull, Option.filter_some, hnull]
  rfl

theorem get?_entries_any {held : Object} {t : List (MapKey × Value)} (hheld : Table.Sorted held)
    (h : d.entries .str (.scalar .any) held [] = .ok t) (key : String) :
    (Table.get? t (.str key)).filter (fun v => !v.isNull) =
      ((Table.get? held key).filter fun w => !w.isNull).map Value.raw := by
  cases hw : Table.get? held key with
  | none =>
    rw [get?_entries_of_not_mem h ?_]
    · rfl
    · intro hmem
      obtain ⟨e, he, hkey⟩ := List.mem_map.1 hmem
      exact Table.get?_eq_none_iff.1 hw e he hkey
  | some w =>
    obtain ⟨x, hx, happly⟩ := get?_entries h (Table.nodup_keys hheld) _ (Table.mem_of_get? hw)
    rw [apply_scalar] at happly
    rw [hx]
    cases w <;> cases happly <;> rfl

/-- An undeclared key of the record has the entry that a filter looks at. -/
theorem ReadAs.present?_metadata (hr : d.ReadAs target point r) (h : d.Orderly target)
    (hpoint : (Json.obj point).Sorted) {key : String} (hkey : d.catalog.field? target key = none)
    {w : Json} (hw : entryAt? d.catalog target key point = some w) :
    (FieldRef.metadata key).present? d.catalog r = if w.isNull then none else some (.raw w) := by
  have hread : (FieldRef.metadata key).read? d.catalog r = r.metadata? d.catalog key := rfl
  rw [FieldRef.present?, hread, Record.metadata?, hr.schema]
  rw [entryAt?, hkey] at hw
  cases hm : d.catalog.metadataField? target with
  | none =>
    rw [hm] at hw
    cases hw
    simp only [hr.extra key hkey]
    cases hget : Table.get? point key with
    | none => rfl
    | some v => cases v <;> rfl
  | some bucket =>
    rw [hm] at hw
    obtain ⟨held, hheld, rfl⟩ := Option.map_eq_some_iff.1 hw
    obtain ⟨v, hv, hobj⟩ := Option.bind_eq_some_iff.1 hheld
    obtain rfl : v = .obj held := by
      cases v <;> cases hobj
      rfl
    obtain ⟨hmem, -⟩ := Catalog.mem_allFields_of_field? h.namesOnce (h.bucket bucket hm)
    obtain ⟨conv, x, hconv, happly, hget⟩ := hr.field _ hmem
    obtain rfl := Farm.eq_bucket_of_builds hconv
    simp only [hv, Option.getD_some] at happly
    obtain ⟨t, ht, rfl⟩ := of_apply_map_obj happly
    simp only [hget rfl, Option.bind_some, Value.entries?]
    rw [get?_entries_any (hpoint.value (Table.mem_of_get? hv)).1 ht]
    cases Table.get? held key with
    | none => rfl
    | some v => cases v <;> rfl

end GardenMap.Domain
