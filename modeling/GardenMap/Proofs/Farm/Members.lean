import GardenMap.Proofs.Conversion.Dispatch
import GardenMap.Proofs.Record.Blank
import GardenMap.Proofs.Record.Wholeness
import GardenMap.Query.Compile

/-!
# Tags of points lead back

A new record of a member of the family of points carries the tag that leads to the member: read back
as a point, it is a record of the same schema with the same content, and the filters of queries for
the member ask for that tag (`tags_lead_back`). This holds whatever has been registered, as long as
the schemas registered can be resolved, are not named like the base's tag, and bring no hooks, no
family and no field of points of their own (`Joins`).

Proof. All that a schema in the lineage of such a member does to new records is what points do
themselves, so a blank record has the tag of its schema, and that tag selects the schema: the index
has every member by its name, and no member has the name that is the base's tag.
-/

namespace GardenMap.Farm

open Catalog

/-- A schema that brings nothing of its own to points but fields: it has a converter, and the schemas
of its lineage that points do not extend have no hooks, are the base of no family and declare no
field of points. -/
structure Joins (c : Catalog) (id : SchemaId) : Prop where
  resolves : ∃ conv, c.converter (.record id) = .ok conv
  plain : ∀ t ∈ c.lineage id, t ∈ c.lineage Id.point ∨
    t.finish = [] ∧ t.family = none ∧ ∀ f ∈ t.fields, ¬c.Declares Id.point f.name

/-- A grounded catalog of the schemas of the farm and newer ones. -/
structure Hosts (c : Catalog) : Prop where
  grounded : c.Grounded
  farm : schemas <:+ c

variable {c : Catalog} {m : SchemaId}

/-! ## The schemas of the farm -/

namespace Hosts

theorem hasPoints (hc : Hosts c) : HasPoints ⟨c, fun _ => []⟩ where
  find id hid := by
    have hfound : ∀ id ∈ pointIds, (schemas.find? id).isSome := by decide
    exact hc.grounded.find?_of_suffix hc.farm (hfound id hid)
  lineage id hid := by
    have hfound : ∀ id ∈ pointIds, (schemas.find? id).isSome := by decide
    exact hc.grounded.lineage_of_suffix hc.farm (hfound id hid)
  registered := rfl

theorem lineage_point (hc : Hosts c) :
    c.lineage Id.point = [identifiable, coordinateSchema, point] :=
  hc.grounded.lineage_of_suffix hc.farm (by decide)

theorem rootedFamily?_point (hc : Hosts c) : c.rootedFamily? Id.point = some pointFamily :=
  hc.hasPoints.rootedFamily?_point

theorem declares_iff_mem (hc : Hosts c) {name : String} :
    c.Declares Id.point name ↔ name ∈ (schemas.allFields Id.point).map (·.name) := by
  unfold Declares
  rw [hc.hasPoints.allFields_eq (by decide)]

theorem joins (hc : Hosts c) (hm : m ∈ pointIds) : Joins c m := by
  refine ⟨?_, fun t ht => ?_⟩
  · obtain ⟨conv, hb⟩ := exists_builds_iff.2 (hc.hasPoints.wellFormed hm)
    exact ⟨conv, Catalog.converter_eq_ok.2 hb⟩
  · have hown : ∀ s ∈ [plant, toolSlot], s.finish = [] ∧ s.family = none ∧
        ∀ f ∈ s.fields, ¬c.Declares Id.point f.name := by
      simp only [hc.declares_iff_mem, List.forall_mem_cons, List.not_mem_nil, false_implies,
        implies_true, and_true]
      exact ⟨⟨rfl, rfl, by decide⟩, rfl, rfl, by decide⟩
    obtain ⟨own, hsub, hlineage⟩ : ∃ own, own ⊆ [plant, toolSlot] ∧
        schemas.lineage m = [identifiable, coordinateSchema, point] ++ own := by
      simp only [pointIds, List.mem_cons, List.not_mem_nil, or_false] at hm
      rcases hm with rfl | rfl | rfl
      · exact ⟨[], by simp, rfl⟩
      · exact ⟨[plant], by simp, rfl⟩
      · exact ⟨[toolSlot], by simp, rfl⟩
    rw [show c.lineage m = schemas.lineage m from hc.hasPoints.lineage m hm, hlineage] at ht
    rw [hc.lineage_point]
    exact (List.mem_append.1 ht).imp_right fun ht => hown t (hsub ht)

end Hosts

/-! ## Schemas that join points -/

namespace Joins

theorem eq_point_or (hc : Hosts c) (h : Joins c m) {t : Schema}
    (ht : t ∈ c.lineage m) : t = point ∨ t.finish = [] ∧ t.family = none := by
  rcases h.plain t ht with ht | ht
  · rw [hc.lineage_point] at ht
    simp only [List.mem_cons, List.not_mem_nil, or_false] at ht
    rcases ht with rfl | rfl | rfl
    · exact .inr ⟨rfl, rfl⟩
    · exact .inr ⟨rfl, rfl⟩
    · exact .inl rfl
  · exact .inr ⟨ht.1, ht.2.1⟩

theorem finish_eq (hc : Hosts c) (h : Joins c m)
    (hpoint : point ∈ c.lineage m) : (c.lineage m).flatMap (·.finish) = point.finish := by
  have hother := fun t ht => h.eq_point_or hc (t := t) ht
  have hnodup := lineage_nodup c m
  generalize c.lineage m = ts at hpoint hother hnodup
  obtain ⟨before, after, rfl⟩ := List.append_of_mem hpoint
  rw [List.map_append, List.map_cons, List.nodup_middle, List.nodup_cons] at hnodup
  have hnone : ∀ t ∈ before ++ after, t.finish = [] := by
    intro t ht
    have ht' := (List.mem_append.1 ht).imp_right (List.mem_cons_of_mem point)
    rcases hother t (List.mem_append.2 ht') with rfl | h
    · rw [← List.map_append] at hnodup
      exact absurd (List.mem_map.2 ⟨_, ht, rfl⟩) hnodup.1
    · exact h.1
  rw [List.flatMap_append, List.flatMap_cons,
    List.flatMap_eq_nil_iff.2 fun t ht => hnone t (List.mem_append_left _ ht),
    List.flatMap_eq_nil_iff.2 fun t ht => hnone t (List.mem_append_right _ ht)]
  simp

theorem family?_eq (hc : Hosts c) (h : Joins c m)
    (hpoint : point ∈ c.lineage m) : c.family? m = some pointFamily := by
  unfold family?
  cases hfamily : (c.lineage m).reverse.findSome? (·.family) with
  | none =>
    have hnone := List.findSome?_eq_none_iff.1 hfamily point (List.mem_reverse.2 hpoint)
    cases hnone
  | some f =>
    obtain ⟨t, ht, hf⟩ := List.exists_of_findSome?_eq_some hfamily
    rcases h.eq_point_or hc (List.mem_reverse.1 ht) with rfl | hnone
    · exact hf.symm
    · rw [hnone.2] at hf
      cases hf

theorem rootedFamily?_eq_none (hc : Hosts c) (h : Joins c m)
    (hne : m ≠ Id.point) : c.rootedFamily? m = none := by
  unfold rootedFamily?
  cases hs : c.find? m with
  | none => rfl
  | some s =>
    have hs' : s ∈ c.lineage m := hc.grounded.mem_lineage_iff.2 ⟨s, hs, .inl rfl⟩
    rcases h.eq_point_or hc hs' with rfl | hnone
    · exact absurd (id_of_find? hs).symm hne
    · rw [Option.bind_some, hnone.2]
      rfl

theorem shape_of_fill (hc : Hosts c) (h : Joins c m) {g : Field}
    (hg : g ∈ c.allFields m) {e : String × Shape} (he : e ∈ fillShapes) (hname : g.name = e.1) :
    g.shape = e.2 := by
  obtain ⟨t, ht, hgt⟩ := exists_of_mem_allFields hg
  rcases h.plain t ht with ht | ⟨-, -, hnew⟩
  · have hall : ∀ t ∈ [identifiable, coordinateSchema, point], ∀ g ∈ t.fields, ∀ e ∈ fillShapes,
        g.name = e.1 → g.shape = e.2 := by
      simp only [List.forall_mem_cons, List.not_mem_nil, false_implies, implies_true, and_true]
      decide
    rw [hc.lineage_point] at ht
    exact hall t ht g hgt e he hname
  · have hdeclared : ∀ e ∈ fillShapes, e.1 ∈ (schemas.allFields Id.point).map (·.name) := by decide
    exact absurd (hc.declares_iff_mem.2 (hname ▸ hdeclared e he)) (hnew g hgt)

/-! ## Their blank records -/

section Blank

variable {d : Domain} {fs : List (String × Converter)}

theorem hooked (hc : Hosts d.catalog) (h : Joins d.catalog m) (hpoint : point ∈ d.catalog.lineage m)
    (hb : Builds d.catalog (.record m) (.record m fs)) : d.Hooked m fs (pointFills m) := by
  obtain ⟨fs', heq, hnames, -⟩ := hb.of_record
  cases heq
  refine ⟨hnames, ?_, fun e he => HasPoints.isNull_of_mem_pointFills he⟩
  rw [h.finish_eq hc hpoint]
  exact HasPoints.foldl_finish_point

theorem isFinite_of_mem_pointFills {e : String × Value} (he : e ∈ pointFills m) :
    e.2.IsFinite ∧ e.2.IsWhole ∧ e.2.same e.2 = true := by
  simp only [pointFills, List.mem_cons, List.not_mem_nil, or_false] at he
  rcases he with rfl | rfl | rfl | rfl | rfl | rfl
  all_goals simp [Value.IsFinite, Value.IsWhole, Value.All, allEntries, Value.same, sameEntries]
  all_goals decide

theorem read_fill (hc : Hosts d.catalog) (h : Joins d.catalog m)
    (hb : Builds d.catalog (.record m) (.record m fs)) {e : String × Value}
    (he : e ∈ pointFills m) {f : String × Converter} (hf : f ∈ fs) (hname : f.1 = e.1) :
    d.apply f.2 e.2.toRaw = .ok e.2 := by
  obtain ⟨fs', heq, -, hfields⟩ := hb.of_record
  cases heq
  obtain ⟨g, hg, hgname, hbuild⟩ := hfields f hf
  obtain ⟨hfin, hwhole, -⟩ := isFinite_of_mem_pointFills he
  obtain ⟨w, hw, -, hsame⟩ := HasPoints.restoredBy_fill he (fun s hs => by
    have hshape : g.shape = s := h.shape_of_fill hc hg hs (hgname.trans hname)
    exact hshape ▸ hbuild) hfin
  rw [hw, hsame hwhole]

theorem exists_blank (hc : Hosts d.catalog) (h : Joins d.catalog m)
    (hpoint : point ∈ d.catalog.lineage m) (hb : Builds d.catalog (.record m) (.record m fs)) :
    ∃ r, d.Blank m fs (pointFills m) r :=
  (h.hooked hc hpoint hb).exists_blank fun _ he _ hf hname => h.read_fill hc hb he hf hname

theorem tag_of_blank (hpoint : point ∈ d.catalog.lineage m)
    (hb : Builds d.catalog (.record m) (.record m fs)) {r : Record}
    (hr : d.Blank m fs (pointFills m) r) :
    r.get? pointerType = some (.str (pointFamily.tagOf m)) ∧
      pointTag r.rawEntries = some (pointFamily.tagOf m) := by
  obtain ⟨fs', heq, hnames, -⟩ := hb.of_record
  cases heq
  have hdeclared : pointerType ∈ fs.map (·.1) := by
    rw [hnames]
    exact declares_iff.2 ⟨point, hpoint, ⟨pointerType, .str⟩, by decide, rfl⟩
  obtain ⟨y, hy, hmem⟩ := hr.filled (pointerType, .str (pointFamily.tagOf m))
    List.mem_cons_self hdeclared
  have htag : y = .str (pointFamily.tagOf m) := by simpa [pointFills, pointerType] using hmem
  subst htag
  refine ⟨hy, ?_⟩
  have hextra : Table.Sorted r.extra := by rw [hr.extra]; exact Table.sorted_nil
  have hraw : Table.get? r.rawEntries pointerType = some (.str (pointFamily.tagOf m)) := by
    rw [Record.get?_rawEntries hr.sorted hextra]
    rw [Record.get?] at hy
    rw [hy]
    rfl
  rw [pointTag, hraw]
  rfl

theorem same_self_of_blank {r : Record} (hr : d.Blank m fs (pointFills m) r) :
    r.same r = true := by
  refine Record.same_self hr.extra fun e he => ?_
  rcases hr.value e.1 e.2 (Table.get?_of_mem hr.sorted he) with hnull | hfill
  · simp [hnull, Value.same]
  · exact (isFinite_of_mem_pointFills hfill).2.2

/-! ### Read back as a point -/

/-- The blank record of a schema that its tag selects is made of an empty payload, and it is read
back as a point. -/
theorem newRecord_read_back (hc : Hosts d.catalog) (h : Joins d.catalog m)
    (hpoint : point ∈ d.catalog.lineage m)
    (hselect : pointFamily.select (d.indexOf pointFamily) (some (pointFamily.tagOf m)) = m) :
    ∃ r, d.record m (.obj []) = .ok r ∧ r.schema = m ∧ d.record Id.point r.toRaw = .ok r ∧
      r.same r = true ∧ r.get? pointerType = some (.str (pointFamily.tagOf m)) := by
  obtain ⟨conv, hconv⟩ := h.resolves
  have hb := Catalog.converter_eq_ok.1 hconv
  obtain ⟨fs, rfl, -⟩ := hb.of_record
  obtain ⟨r, hr⟩ := h.exists_blank hc hpoint hb
  obtain ⟨htag, hraw⟩ := tag_of_blank hpoint hb hr
  obtain ⟨typed, htyped, hmade⟩ := hr.made
  have hroot : m ≠ Id.point → d.catalog.rootedFamily? m = none := h.rootedFamily?_eq_none hc
  have hstay : d.follow [] d.catalog.length ⟨m, fs, none⟩ = .ok ⟨m, fs, none⟩ := by
    by_cases hm : m = Id.point
    · subst hm
      rw [Domain.follow_base hc.rootedFamily?_point [] rfl (fun hne => absurd rfl hne)]
      exact if_pos rfl
    · exact Domain.follow_eq_self (hroot hm) [] _
  obtain ⟨base, hbase⟩ := (hc.joins (m := Id.point) (by decide)).resolves
  obtain ⟨fs', rfl, -⟩ := (Catalog.converter_eq_ok.1 hbase).of_record
  have hback : ∃ sentTo, d.follow r.rawEntries d.catalog.length ⟨Id.point, fs', none⟩ =
      .ok ⟨m, fs, sentTo⟩ := by
    rw [Domain.follow_base hc.rootedFamily?_point r.rawEntries
      (by rw [← hselect, ← hraw]; rfl) hroot]
    by_cases hm : m = Id.point
    · subst hm
      rw [hconv] at hbase
      cases hbase
      exact ⟨none, if_pos rfl⟩
    · rw [if_neg hm, hconv]
      exact ⟨some m.name, rfl⟩
  obtain ⟨sentTo, hback⟩ := hback
  refine ⟨r, ?_, hr.schema_eq, ?_, same_self_of_blank hr, htag⟩
  · rw [Domain.record_of_follow hconv hstay htyped, hmade]
  · have hwire : r.toRaw = .obj r.rawEntries := toRaw_record r
    rw [hwire, Domain.record_of_follow hbase hback hr.fields_again, hr.assemble_again]

end Blank

end Joins

/-! ## Members -/

theorem select_of_mem_members (hc : Hosts c) {registered : List SchemaId}
    (hm : m ∈ (pointFamily.indexOf c registered).map (·.2)) :
    m ∈ pointFamily.declared ++ registered ∧ point ∈ c.lineage m ∧
      pointFamily.select (pointFamily.indexOf c registered) (some (pointFamily.tagOf m)) = m := by
  obtain ⟨e, he, rfl⟩ := List.mem_map.1 hm
  obtain ⟨hname, hne, hlinked⟩ := Family.linked_of_mem_indexOf he
  obtain ⟨t, ht, hid⟩ := extends?_iff.1 (hlinked.extends hc.grounded hne)
  have hfound := hc.grounded.find?_of_mem_lineage ht
  rw [hid] at hfound
  have htpoint : t = point :=
    Option.some.inj (hfound.symm.trans (hc.hasPoints.find Id.point (by decide)))
  refine ⟨hlinked.mem_candidates hne, htpoint ▸ ht, ?_⟩
  rw [Family.tagOf, if_neg hne, Family.select, Option.bind_some, ← hname,
    Table.get?_of_mem (Family.sorted_indexOf c pointFamily registered) he]
  rfl

theorem select_base {registered : List SchemaId}
    (hnames : ∀ id ∈ registered, id.name ≠ genericPointer) :
    pointFamily.select (pointFamily.indexOf c registered)
      (some (pointFamily.tagOf Id.point)) = Id.point := by
  have hnone : Table.get? (pointFamily.indexOf c registered) genericPointer = none := by
    refine Table.get?_eq_none_iff.2 fun e he heq => ?_
    obtain ⟨hname, hne, hlinked⟩ := Family.linked_of_mem_indexOf he
    have hnamed : ∀ id ∈ pointFamily.declared ++ registered, id.name ≠ genericPointer :=
      List.forall_mem_append.2 ⟨by decide, hnames⟩
    exact hnamed e.2 (hlinked.mem_candidates hne) (hname.symm.trans heq)
  have htag : pointFamily.tagOf Id.point = genericPointer := by decide
  rw [htag, Family.select, Option.bind_some, hnone]
  rfl

theorem get?_filter_of_compile {d : Domain} {target : SchemaId} {now : Instant} {qs : List Clause}
    {plan : Plan} (h : Plan.compile d target now qs = .ok plan) {f : Family}
    (hf : d.catalog.family? target = some f) :
    Table.get? plan.filter f.discriminator = some (.str (f.tagOf target)) := by
  unfold Plan.compile at h
  cases hdraft : qs.foldlM (Draft.add d target now) .empty with
  | error e => rw [hdraft] at h; cases h
  | ok draft =>
    rw [hdraft] at h
    cases h
    show Table.get? (Draft.tagged d.catalog target _) _ = _
    rw [Draft.tagged, hf, Table.get?_put, if_pos rfl]

/-- After any calls that register only what joins points, and nothing under the name that is the tag
of points: a new point, or a new record of a member, is read back as a point of the same schema and
content, and plans for its schema filter by the tag that it carries. -/
theorem tags_lead_back (c : Catalog) (hc : Hosts c) (calls : List Call)
    (hjoins : ∀ id ∈ Ledger.after calls pointFamily, Joins c id)
    (hnames : ∀ id ∈ Ledger.after calls pointFamily, id.name ≠ genericPointer) :
    ∃ members, ((Desk.after c calls).answer c (.members pointFamily)).1 = .members members ∧
      ∀ m, m = Id.point ∨ m ∈ members → ∃ r,
        ((Desk.after c calls).answer c (.record m (.obj []))).1 = .record (.ok r) ∧
        r.schema = m ∧
        (((Desk.after c calls).answer c (.record m (.obj []))).2.answer c
          (.record Id.point r.toRaw)).1 = .record (.ok r) ∧
        r.same r = true ∧
        ∃ tag, r.get? pointerType = some (.str tag) ∧
          ∀ now qs plan, Plan.compile ((Ledger.after calls).domain c) m now qs = .ok plan →
            Table.get? plan.filter pointerType = some (.str tag) := by
  have hvalid := Desk.valid_after c calls
  have hregistered : ((Ledger.after calls).domain c).indexOf pointFamily =
      pointFamily.indexOf c (Ledger.after calls pointFamily) := by
    show pointFamily.indexOf c (Ledger.ofBase c _ Id.point) = _
    rw [Ledger.ofBase, hc.rootedFamily?_point]
    rfl
  refine ⟨_, (hvalid.answer (.members pointFamily)).1, fun m hm => ?_⟩
  obtain ⟨hm, hpoint, hselect⟩ : Joins c m ∧ point ∈ c.lineage m ∧
      pointFamily.select (((Ledger.after calls).domain c).indexOf pointFamily)
        (some (pointFamily.tagOf m)) = m := by
    rw [hregistered]
    rcases hm with rfl | hm
    · exact ⟨hc.joins (by decide), by rw [hc.lineage_point]; simp, select_base hnames⟩
    · obtain ⟨hmem, hpoint, hselect⟩ := select_of_mem_members hc hm
      refine ⟨?_, hpoint, hselect⟩
      rcases List.mem_append.1 hmem with hmem | hmem
      · exact hc.joins (List.mem_cons_of_mem _ hmem)
      · exact hjoins m hmem
  obtain ⟨r, hnew, hschema, hback, hsame, htag⟩ :=
    Joins.newRecord_read_back (d := (Ledger.after calls).domain c) hc hm hpoint hselect
  obtain ⟨hfirst, hnext⟩ := hvalid.answer (.record m (.obj []))
  refine ⟨r, ?_, hschema, ?_, hsame, _, htag, fun now qs plan hplan => ?_⟩
  · rw [hfirst]
    exact congrArg Answer.record hnew
  · rw [(hnext.answer (.record Id.point r.toRaw)).1]
    exact congrArg Answer.record hback
  · exact get?_filter_of_compile hplan (hm.family?_eq hc hpoint)

/-! ### Scarecrows -/

/-- Scarecrows, a kind of point that the farm does not know. -/
def scarecrow : Schema where
  id := ⟨"Scarecrow", 0⟩
  bases := [Id.point]
  fields := [⟨"hat", .str⟩]

/-- The schemas of the farm and scarecrows. -/
def yard : Catalog := scarecrow :: schemas

theorem hosts_yard : Hosts yard := ⟨by decide, List.suffix_cons _ _⟩

theorem joins_scarecrow : Joins yard scarecrow.id := by
  refine ⟨?_, fun t ht => ?_⟩
  · have hshapes : ∀ g ∈ yard.allFields scarecrow.id, g.shape ∈ pointShapes := by decide
    obtain ⟨conv, hb⟩ := exists_builds_iff.2 (.record fun g hg =>
      wellFormed_of_mem_pointShapes (hshapes g hg) :
      (Shape.record scarecrow.id).WellFormed yard)
    exact ⟨conv, Catalog.converter_eq_ok.2 hb⟩
  · rw [hosts_yard.lineage_point]
    rcases List.mem_append.1
      (show t ∈ [identifiable, coordinateSchema, point] ++ [scarecrow] from ht) with ht | ht
    · exact .inl ht
    · rw [List.mem_singleton.1 ht]
      simp only [hosts_yard.declares_iff_mem]
      exact .inr ⟨rfl, rfl, by decide⟩

/-- Once they are registered, new scarecrows are read back as points. -/
theorem tags_lead_back_to_scarecrows :
    ∃ r, ((Desk.after yard [.register pointFamily scarecrow.id]).answer yard
          (.record scarecrow.id (.obj []))).1 = .record (.ok r) ∧
      r.schema = scarecrow.id ∧
      (((Desk.after yard [.register pointFamily scarecrow.id]).answer yard
          (.record scarecrow.id (.obj []))).2.answer yard
        (.record Id.point r.toRaw)).1 = .record (.ok r) := by
  have hregistered : Ledger.after [.register pointFamily scarecrow.id] pointFamily =
      [scarecrow.id] := by decide
  obtain ⟨members, hmembers, hall⟩ := tags_lead_back yard hosts_yard
    [.register pointFamily scarecrow.id]
    (by rw [hregistered]; exact List.forall_mem_singleton.2 joins_scarecrow)
    (by rw [hregistered]; decide)
  have hmem : scarecrow.id ∈ members := by
    rw [((Desk.valid_after yard _).answer (.members pointFamily)).1] at hmembers
    obtain rfl := Answer.members.inj hmembers
    rw [hregistered]
    refine List.mem_map.2 ⟨_, Family.mem_indexOf_of_linked (by decide) (.single ?_) (by decide), rfl⟩
    decide
  obtain ⟨r, hnew, hschema, hback, -⟩ := hall scarecrow.id (.inr hmem)
  exact ⟨r, hnew, hschema, hback⟩

end GardenMap.Farm
