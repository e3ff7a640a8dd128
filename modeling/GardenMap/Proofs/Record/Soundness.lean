import GardenMap.Proofs.Conversion.WellFormed
import GardenMap.Proofs.Record.FailedUpdate
import GardenMap.Proofs.Record.Preservation

/-!
# Shapes hold

Whatever is read under a shape has the shape, and records keep the shapes of their fields through
updates (`Domain.hasShape_of_read_and_after`). The schemas that are met may have no hooks or those
of points, and declare each name once. The points of the farm are of this kind
(`HasPoints.regular`). Where a schema declares a name twice, records are built with the last shape
and updated with the first, and the shape of the field is lost (`name_declared_twice_loses_shape`).
-/

namespace GardenMap

/-- Values that are read under a shape have the shape. A record that is met in them keeps its
schema, and the shape of every declared field, through any calls of `apply`, whether they succeed
or fail. -/
theorem Domain.hasShape_of_read_and_after {d : Domain} {s : Shape} (hs : d.RegularWithin s)
    (hnames : ∀ id, d.Within (.record id) s → d.catalog.NamesOnce id) :
    (∀ raw v, d.read s raw = .ok v → d.HasShape s v) ∧
      ∀ id r, d.Within (.record id) s → d.HasShape (.record id) (.record r) → ∀ calls,
        (r.after d calls).schema = r.schema ∧
          d.HasShape (.record id) (.record (r.after d calls)) := by
  refine ⟨fun raw v h => hasShape_of_read hs h, fun id r hid hr calls => ?_⟩
  obtain ⟨hmember, htyped⟩ := hasShape_record_iff.1 hr
  have hwithin := (within_member hmember).trans hid
  obtain ⟨hafter, hschema⟩ := htyped.after (hs.trans hwithin) (hnames _ hwithin) calls
  refine ⟨hschema, hasShape_record_iff.2 ⟨?_, hafter⟩⟩
  rw [hschema]
  exact hmember

/-! ## Points -/

namespace Farm

def shapesOfPoints : List Shape := pointIds.map .record ++ pointShapes

namespace HasPoints

variable {d : Domain}

theorem member_mem (h : HasPoints d) {id member : SchemaId} (hid : id ∈ pointIds)
    (hmember : d.Member id member) : member ∈ pointIds := by
  obtain ⟨f, hf, hmember⟩ := hmember
  by_cases hpoint : id = Id.point
  · subst hpoint
    rw [h.rootedFamily?_point] at hf
    cases hf
    rw [h.indexOf_eq] at hmember
    exact List.mem_cons_of_mem _ hmember
  · rw [h.rootedFamily?_eq_none hid hpoint] at hf
    cases hf

theorem part_mem (h : HasPoints d) {s : Shape} (hs : s ∈ shapesOfPoints) {p : Shape}
    (hp : d.Part p s) : p ∈ shapesOfPoints := by
  unfold shapesOfPoints at hs ⊢
  rw [List.mem_append, List.mem_map] at hs ⊢
  rcases hs with ⟨id, hid, rfl⟩ | hs
  · rcases hp with ⟨made, hr, hp⟩ | ⟨id', member, heq, rfl, hmember⟩
    · cases hr
      obtain ⟨g, hg, rfl⟩ := List.mem_map.1 hp
      exact .inr (h.shape_mem_pointShapes hid hg)
    · cases heq
      exact .inl ⟨member, h.member_mem hid hmember, rfl⟩
  · rcases hp with hp | ⟨id, member, rfl, -, -⟩
    · exact .inr (part_mem_pointShapes s hs p hp)
    · simp [pointShapes] at hs

theorem mem_pointIds_of_within (h : HasPoints d) {id other : SchemaId} (hid : id ∈ pointIds)
    (hother : d.Within (.record other) (.record id)) : other ∈ pointIds := by
  have hmem : Shape.record other ∈ shapesOfPoints :=
    Shape.mem_of_reached (fun s hs p hp => h.part_mem hs hp) hother (by simp [shapesOfPoints, hid])
  simpa [shapesOfPoints, pointShapes] using hmem

theorem finish_of_mem_lineage {id : SchemaId} (hid : id ∈ pointIds) {t : Schema}
    (ht : t ∈ schemas.lineage id) : t.finish = [] ∨ t = point := by
  have hsub : schemas.lineage id ⊆ pointSchemas := by
    simp only [pointIds, List.mem_cons, List.not_mem_nil, or_false] at hid
    rcases hid with rfl | rfl | rfl
    · show [identifiable, coordinateSchema, point] ⊆ pointSchemas
      simp [pointSchemas]
    · show [identifiable, coordinateSchema, point, plant] ⊆ pointSchemas
      simp [pointSchemas]
    · show [identifiable, coordinateSchema, point, toolSlot] ⊆ pointSchemas
      simp [pointSchemas]
  have hmem := hsub ht
  simp only [pointSchemas, List.mem_cons, List.not_mem_nil, or_false] at hmem
  rcases hmem with rfl | rfl | rfl | rfl | rfl
  · exact .inl rfl
  · exact .inl rfl
  · exact .inr rfl
  · exact .inl rfl
  · exact .inl rfl

/-- Points keep to what is asked of schemas. -/
theorem regular (h : HasPoints d) {id : SchemaId} (hid : id ∈ pointIds) : d.Regular id := by
  refine ⟨fun t ht => ?_, fun _ f hf e he hname => ?_, fun f hf hbucket => ?_⟩
  · rw [h.lineage id hid] at ht
    exact finish_of_mem_lineage hid ht
  · rw [h.allFields_eq hid] at hf
    have hall : ∀ id ∈ pointIds, ∀ g ∈ schemas.allFields id, ∀ e ∈ fillShapes,
        g.name = e.1 → g.shape = e.2 := by decide
    exact hall id hid f hf e he hname
  · rw [h.allFields_eq hid] at hf
    unfold Catalog.metadataField? at hbucket
    rw [h.lineage id hid] at hbucket
    have hall : ∀ id ∈ pointIds, ∀ g ∈ schemas.allFields id,
        schemas.metadataField? id = some g.name → g.shape = .map .str .any := by decide
    exact hall id hid f hf hbucket

theorem namesOnce (h : HasPoints d) {id : SchemaId} (hid : id ∈ pointIds) :
    d.catalog.NamesOnce id := by
  unfold Catalog.NamesOnce
  rw [h.lineage id hid]
  have hall : ∀ id ∈ pointIds, ∀ t ∈ schemas.lineage id, ∀ f ∈ t.fields, ∀ g ∈ t.fields,
      f.name = g.name → f = g := by decide
  exact hall id hid

end HasPoints

end Farm

/-! ## A point at the origin -/

theorem Domain.fields_absent {d : Domain} {es : Object} {fs : List (String × Converter)}
    (h : ∀ f ∈ fs, Table.get? es f.1 = none) (done : List (String × Value)) :
    d.fields fs es done =
      .ok ((fs.map (·.1)).foldl (fun t name => Table.put t name .null) done) := by
  induction fs generalizing done with
  | nil => exact fields_nil
  | cons f fs ih =>
    obtain ⟨hf, hfs⟩ := List.forall_mem_cons.1 h
    refine fields_cons_eq_ok.2 ⟨.null, ?_, ih hfs _⟩
    rw [hf]
    exact apply_null _

namespace Farm

theorem wellFormed_of_mem_pointShapes {c : Catalog} {s : Shape} (hs : s ∈ pointShapes) :
    s.WellFormed c := by
  simp only [pointShapes, List.mem_cons, List.not_mem_nil, or_false] at hs
  rcases hs with rfl | rfl | rfl | rfl | rfl | rfl | rfl | rfl
  · exact .single rfl
  · exact .single rfl
  · exact .single rfl
  · exact .single rfl
  · exact .single rfl
  · exact .map rfl (.single rfl)
  · exact .optional (.single rfl)
  · exact .optional (.single rfl)

theorem HasPoints.wellFormed {d : Domain} (h : HasPoints d) {id : SchemaId}
    (hid : id ∈ pointIds) : (Shape.record id).WellFormed d.catalog :=
  .record fun _ hg => wellFormed_of_mem_pointShapes (h.shape_mem_pointShapes hid hg)

/-- The fields of a point, all of them absent. -/
def absentFields : List (String × Value) :=
  [("created_at", .null), ("device_id", .null), ("discarded_at", .null), ("id", .null),
    ("meta", .null), ("name", .null), (pointerType, .null), ("radius", .null),
    ("updated_at", .null), ("x", .null), ("y", .null), ("z", .null)]

def origin : Record :=
  ⟨Id.point, [("created_at", .null), ("device_id", .null), ("discarded_at", .null), ("id", .null),
    ("meta", .map []), ("name", .null), (pointerType, .str genericPointer), ("radius", .float 0.0),
    ("updated_at", .null), ("x", .int 0), ("y", .int 0), ("z", .int 0)], []⟩

theorem assemble_absentFields : domain.catalog.assemble Id.point absentFields [] = origin := by
  have hdefaults : domain.catalog.withDefaults Id.point absentFields = absentFields :=
    Catalog.withDefaults_eq_self (by decide)
  have hsteps : (domain.catalog.lineage Id.point).flatMap (·.finish) = point.finish := rfl
  unfold Catalog.assemble
  simp only
  rw [hsteps, hdefaults]
  rfl

theorem read_origin : domain.read (.record Id.point) (.obj []) = .ok (.record origin) := by
  obtain ⟨conv, hb⟩ := exists_builds_iff.2
    (hasPoints_domain.wellFormed (show Id.point ∈ pointIds by decide))
  obtain ⟨fs, rfl, hnames, -⟩ := hb.of_record
  have hfollow : domain.follow [] domain.catalog.length ⟨Id.point, fs, none⟩ =
      .ok ⟨Id.point, fs, none⟩ := by
    rw [hasPoints_domain.follow_point]
    exact if_pos rfl
  have hall : (domain.catalog.allFields Id.point).map (·.name) = ["id", "created_at", "updated_at",
      "x", "y", "z", "device_id", pointerType, "name", "meta", "radius", "discarded_at"] := by
    decide
  have hfields : domain.fields fs [] [] = .ok absentFields := by
    rw [Domain.fields_absent fun _ _ => rfl, hnames, hall]
    rfl
  unfold Domain.read
  rw [Catalog.converter_eq_ok.2 hb]
  simp only
  rw [Domain.apply_record_obj hfollow hfields, assemble_absentFields]
  rfl

end Farm

/-- A point that is read from an empty payload, moved, refused an update and given a colour. -/
theorem Domain.hasShape_of_read_and_after_origin :
    Farm.domain.read (.record Farm.Id.point) (.obj []) = .ok (.record Farm.origin) ∧
      Farm.domain.HasShape (.record Farm.Id.point) (.record Farm.origin) ∧
      Farm.domain.HasShape (.record Farm.Id.point) (.record (Farm.origin.after Farm.domain
        [(Record.epoch, [("+x", .int 5), ("+x", .null)]),
          (Record.epoch, [("+colour", .str "red")])])) := by
  have hmem : ∀ id, Farm.domain.Within (.record id) (.record Farm.Id.point) → id ∈ Farm.pointIds :=
    fun _ hid => Farm.hasPoints_domain.mem_pointIds_of_within (by decide) hid
  obtain ⟨hread, hafter⟩ := Domain.hasShape_of_read_and_after
    (fun id hid => Farm.hasPoints_domain.regular (hmem id hid))
    (fun id hid => Farm.hasPoints_domain.namesOnce (hmem id hid))
  have horigin := hread _ _ Farm.read_origin
  exact ⟨Farm.read_origin, horigin, (hafter _ _ .refl horigin _).2⟩

/-! ## A name declared twice -/

namespace Record

/-- A schema that declares one name with two shapes. -/
def twiceSchema : Schema where
  id := ⟨"Twice", 0⟩
  bases := []
  fields := [⟨"x", .list .int⟩, ⟨"x", .list .str⟩]

def twice : Domain := ⟨[twiceSchema], fun _ => []⟩

def twiceRecord (items : List Value) : Record := ⟨twiceSchema.id, [("x", .list items)], []⟩

theorem assemble_twice (xs : List Value) (vs : List Json) :
    twice.catalog.assemble twiceSchema.id [("x", .list xs)] [("x", .arr vs)] = twiceRecord xs := by
  have hdefaults : twice.catalog.withDefaults twiceSchema.id [("x", .list xs)] =
      [("x", .list xs)] := rfl
  have hextras : Catalog.extras [("x", Value.list xs)] [("x", Json.arr vs)] = [] := by
    simp [Catalog.extras, Table.has, Table.get?_cons]
  unfold Catalog.assemble
  simp only
  rw [hdefaults, hextras]
  rfl

theorem read_twice_of_items {vs : List Json} {xs : List Value}
    (hitems : twice.items (.scalar .str) vs 0 = .ok xs) :
    twice.read (.record twiceSchema.id) (.obj [("x", .arr vs)]) = .ok (.record (twiceRecord xs)) := by
  have hconv : twice.catalog.converter (.record twiceSchema.id) =
      .ok (.record twiceSchema.id [("x", .list (.scalar .str))]) :=
    Catalog.converter_eq_ok.2 (@Builds.intro _ (.record twiceSchema.id) _
      [.list (.scalar .str)] rfl rfl (List.forall_mem_singleton.2 (.list (.single rfl))))
  have hfields : twice.fields [("x", .list (.scalar .str))] [("x", .arr vs)] [] =
      .ok [("x", .list xs)] :=
    Domain.fields_cons_eq_ok.2 ⟨_, Domain.apply_list_arr hitems, Domain.fields_nil⟩
  unfold Domain.read
  rw [hconv]
  simp only
  rw [Domain.apply_record_obj (Domain.follow_eq_self rfl _ _) hfields, assemble_twice]
  rfl

theorem read_twice : twice.read (.record twiceSchema.id) (.obj [("x", .arr [.str "a"])]) =
    .ok (.record (twiceRecord [.str "a"])) := by
  refine read_twice_of_items ?_
  rw [Domain.items_cons, Domain.apply_scalar]
  simp only [Scalar.convert, Scalar.toStr]
  unfold Domain.items
  rw [Conversion.convertItems]
  rfl

theorem items_twice : twice.items (.scalar .int) [.int 1] 0 = .ok [.int 1] := by
  rw [Domain.items_cons, Domain.apply_scalar]
  simp only [Scalar.convert, Payload.spelled]
  unfold Domain.items
  rw [Conversion.convertItems]
  rfl

theorem after_twice : (twiceRecord [.str "a"]).after twice [(epoch, [("+x", .arr [.int 1])])] =
    twiceRecord [.str "a", .int 1] := by
  have hx : twice.catalog.field? twiceSchema.id "x" = some ⟨"x", .list .int⟩ := by decide +kernel
  have hmark : splitMark appendMark "+x" = ("x", true) := by decide
  have hconv : twice.catalog.converter (.list .int) = .ok (.list (.scalar .int)) :=
    Catalog.converter_eq_ok.2 (.list (.single rfl))
  have hadd := Domain.apply_list_arr items_twice
  simp only [after, List.foldl_cons, List.foldl_nil, apply, update, twiceRecord, hmark, hx,
    resolveRelative, updateField, hconv, hadd]
  rfl

theorem regularWithin_twice : twice.RegularWithin (.record twiceSchema.id) := by
  intro id hid
  have hparts : ∀ s ∈ [Shape.record twiceSchema.id, .list .str, .str], ∀ p, twice.Part p s →
      p ∈ [Shape.record twiceSchema.id, .list .str, .str] := by
    rintro s hs p (⟨made, hr, hp⟩ | ⟨id, member, rfl, rfl, f, hf, -⟩)
    · simp only [List.mem_cons, List.not_mem_nil, or_false] at hs
      rcases hs with rfl | rfl | rfl
      all_goals
        cases hr
        revert p
        decide
    · simp only [List.mem_cons, List.not_mem_nil, or_false, reduceCtorEq, Shape.record.injEq] at hs
      subst hs
      cases hf
  have hmem := Shape.mem_of_reached hparts hid (by simp)
  have heq : id = twiceSchema.id := by simpa using hmem
  subst heq
  refine ⟨fun t ht => ?_, fun hpoint => ?_, fun f _ hbucket => ?_⟩
  · have ht : t = twiceSchema := List.mem_singleton.1 ht
    exact .inl (ht ▸ rfl)
  · have hpoint : Farm.point = twiceSchema := List.mem_singleton.1 hpoint
    have hid := congrArg Schema.id hpoint
    exact absurd hid (by decide)
  · cases hbucket

/-- A record of a schema that declares a name twice does not keep the shape that it was built with:
an update converts to the other one. -/
theorem name_declared_twice_loses_shape :
    ¬∀ (d : Domain) (s : Shape), d.RegularWithin s → ∀ raw r, d.read s raw = .ok (.record r) →
      ∀ calls, d.HasShape s (.record (r.after d calls)) := by
  intro h
  have hshape := h twice _ regularWithin_twice _ _ read_twice [(epoch, [("+x", .arr [.int 1])])]
  rw [after_twice, Domain.hasShape_record_iff] at hshape
  obtain ⟨v, hv, hv'⟩ := hshape.2 ⟨"x", .list .str⟩ (List.mem_singleton_self _)
  obtain rfl : Value.list [.str "a", .int 1] = v := Option.some.inj hv
  cases hv' with
  | single hs => cases hs
  | list hitems =>
    obtain h | h := (hitems (.int 1) (by simp)).of_single rfl
    · cases h
    · cases h

end Record

end GardenMap
