import GardenMap.Farm.Session
import GardenMap.Proofs.Farm.Rereading
import GardenMap.Proofs.Record.Untouched
import GardenMap.Proofs.Store.Identity

/-!
# Saving points

A point that was found in a store, changed, and saved is found again under its id, with the entries
that it was saved with. Only the stored point changes (`saved_point_is_found`).

Proof. The store keeps the id and the creation time of the point and sets the time of the change;
every other entry is the one that was sent, since the point that was found has an entry for each key
of the stored one, and so does the changed point. So what is stored differs from what was sent in
stamps only, and is read back as the point that was sent.
-/

namespace GardenMap.Farm

open PointStore

variable {d : Domain} {r : Record}

/-! ## Stamps of a store -/

theorem HasPoints.apply_time (h : HasPoints d) {id : SchemaId} (hid : id ∈ pointIds)
    {g : Field} (hg : g ∈ d.catalog.allFields id) (hname : (g.name, Shape.datetime) ∈ stampShapes)
    {conv : Converter} (hb : Builds d.catalog g.shape conv) (now : Instant) :
    d.apply conv (.str now.text) = .ok (.datetime now.asRead) := by
  rw [h.eq_scalar_of_stamp hid hg hname rfl hb, Domain.apply_scalar]
  exact Scalar.toDatetime_text now

theorem HasPoints.apply_id (h : HasPoints d) {schema : SchemaId} (hid : schema ∈ pointIds)
    {g : Field} (hg : g ∈ d.catalog.allFields schema) (hname : g.name = "id") {conv : Converter}
    (hb : Builds d.catalog g.shape conv) {id : Int} (hfits : Decimal.fitsInt id = true) :
    d.apply conv (.int id) = .ok (.int id) := by
  rw [h.eq_scalar_of_stamp hid hg (s := .int) (hname ▸ by decide) rfl hb, Domain.apply_scalar]
  exact Scalar.toInt_int hfits

theorem HasPoints.get?_id (h : HasPoints d) {w : Object} {p : Record} (hp : ReadFrom d w p)
    {id : Int} (hid : id? w = some id) : p.get? "id" = some (.int id) := by
  have hdecl : d.catalog.Declares p.schema "id" := h.declares hp.schema (by decide)
  obtain ⟨g, hg, hname⟩ := List.mem_map.1 hdecl
  obtain ⟨fs, hb⟩ := h.exists_builds hp.schema
  obtain ⟨conv, -, hconv⟩ := exists_converter hb hg
  obtain ⟨x, hx, happly⟩ := hp.stamp g hg (hname ▸ by decide) conv hconv
  rw [hname, get?_id_of_id? hid, Option.getD_some,
    h.apply_id hp.schema hg hname hconv (fitsInt_of_id? hid)] at happly
  cases happly
  exact hname ▸ hx

theorem get?_stamped_of_not_stamp (entries : Object) (id : Int) (now : Instant) {k : String}
    (hk : k ∉ stamps) : Table.get? (stamped entries id now) k = Table.get? entries k := by
  simp only [stamps, stampShapes, List.map_cons, List.map_nil, List.mem_cons, List.not_mem_nil,
    or_false, not_or] at hk
  rw [get?_stamped, createdEntry, if_neg hk.1, if_neg (by simp [hk.2])]

namespace Saveable

theorem reread_stamped (h : HasPoints d) (hr : Saveable d r) {id : Int}
    (hid : Decimal.fitsInt id = true) (now : Instant) :
    ∃ q, d.record Id.point (.obj (stamped r.rawEntries id now)) = .ok q ∧ Saveable d q ∧
      q.schema = r.schema ∧
      ∀ k ∉ stamps, Table.get? q.rawEntries k = Table.get? r.rawEntries k := by
  have hon : ∀ g ∈ d.catalog.allFields r.schema, g.name ∈ stamps → ∀ conv,
      Builds d.catalog g.shape conv → ∃ x, d.apply conv
        ((Table.get? (stamped r.rawEntries id now) g.name).getD .null) = .ok x := by
    intro g hg hname conv hconv
    rw [get?_stamped]
    by_cases hgid : g.name = "id"
    · rw [createdEntry, if_pos hgid]
      exact ⟨_, h.apply_id hr.schema hg hgid hconv hid⟩
    · have htime : g.name = "created_at" ∨ g.name = "updated_at" := by
        simpa [stamps, stampShapes, hgid] using hname
      rw [createdEntry, if_neg hgid, if_pos htime]
      refine ⟨_, h.apply_time hr.schema hg ?_ hconv now⟩
      rcases htime with heq | heq <;> rw [heq] <;> decide
  exact hr.reread h (List.Subset.refl stamps) (Table.sorted_putAll r.sorted_rawEntries _)
    (fun _ hk => get?_stamped_of_not_stamp _ id now hk) hon

/-- A point that was read from a mapping still has an entry for each key of it after changes that
left its schema and its extra keys. -/
theorem covers (hr : Saveable d r) {w : Object} {p : Record} (hp : ReadFrom d w p)
    {ks : List String} (hsame : p.Untouched ks r) {k : String}
    (hk : Table.get? r.rawEntries k = none) :
    Table.get? w k = none := by
  refine hp.covers k ?_
  rw [Record.get?_rawEntries hr.whole.sortedFields hr.whole.sortedExtra, Option.map_eq_none_iff,
    Option.or_eq_none_iff, hsame.extra] at hk
  rw [Record.get?_rawEntries hp.whole.sortedFields hp.whole.sortedExtra, Option.map_eq_none_iff,
    Option.or_eq_none_iff]
  refine ⟨?_, hk.2⟩
  have hdecl := mt (hr.whole.has_iff k).2
  rw [hsame.schema, ← hp.whole.has_iff k] at hdecl
  simpa [Table.has] using hdecl (by simp [Table.has, hk.1])

/-- A point that is saved after changes that left its schema, its id and its extra keys replaces all
entries of the stored one, times aside. -/
theorem get?_overlaid (h : HasPoints d) (hr : Saveable d r) {w : Object} {p : Record}
    (hp : ReadFrom d w p) {ks : List String} (hsame : p.Untouched ks r) (hks : "id" ∈ ks) {id : Int}
    (hid : id? w = some id) (now : Instant) {k : String} (hk : k ∉ ["created_at", "updated_at"]) :
    Table.get? (overlaid w r.rawEntries now) k = Table.get? r.rawEntries k := by
  simp only [List.mem_cons, List.not_mem_nil, or_false, not_or] at hk
  rw [PointStore.get?_overlaid, updatedEntry, if_neg hk.2]
  by_cases hkid : k = "id"
  · have hfield := (hsame.field "id" hks).trans (h.get?_id hp hid)
    rw [if_pos (.inl hkid), hkid, get?_id_of_id? hid, hr.whole.get?_raw hfield]
    rfl
  · rw [if_neg (by simp [hkid, hk.1]), Table.ofList_eq_self r.sorted_rawEntries]
    cases hraw : Table.get? r.rawEntries k with
    | some v => rfl
    | none => rw [Option.none_or, hr.covers hp hsame hraw]

theorem reread_overlaid (h : HasPoints d) (hr : Saveable d r) {w : Object} (hw : Table.Sorted w)
    {p : Record} (hp : ReadFrom d w p) {ks : List String} (hsame : p.Untouched ks r)
    (hks : "id" ∈ ks) {id : Int} (hid : id? w = some id) (now : Instant) :
    ∃ q, d.record Id.point (.obj (overlaid w r.rawEntries now)) = .ok q ∧ Saveable d q ∧
      q.schema = r.schema ∧ ∀ k ∉ ["created_at", "updated_at"],
        Table.get? q.rawEntries k = Table.get? r.rawEntries k := by
  have hon : ∀ g ∈ d.catalog.allFields r.schema, g.name ∈ ["created_at", "updated_at"] → ∀ conv,
      Builds d.catalog g.shape conv → ∃ x, d.apply conv
        ((Table.get? (overlaid w r.rawEntries now) g.name).getD .null) = .ok x := by
    intro g hg hname conv hconv
    rw [PointStore.get?_overlaid, updatedEntry]
    by_cases hupdated : g.name = "updated_at"
    · rw [if_pos hupdated]
      exact ⟨_, h.apply_time hr.schema hg (hupdated ▸ by decide) hconv now⟩
    · have hcreated : g.name = "created_at" := by simpa [hupdated] using hname
      rw [if_neg hupdated, if_pos (.inr hcreated)]
      obtain ⟨x, -, hx⟩ := hp.stamp g (hsame.schema ▸ hg) (hcreated ▸ by decide) conv hconv
      exact ⟨x, hx⟩
  exact hr.reread h (by decide) (Table.sorted_put (Table.sorted_putAll hw _) _ _)
    (fun _ hk => hr.get?_overlaid h hp hsame hks hid now hk) hon

end Saveable

/-! ## Sessions over a store -/

theorem toRaw_eq_obj (r : Record) : r.toRaw = .obj r.rawEntries := by
  have hraw := toRaw_record r
  rwa [Value.toRaw] at hraw

theorem entry?_toRaw (r : Record) (key : String) :
    r.toRaw.entry? key = Table.get? r.rawEntries key := by
  rw [toRaw_eq_obj]
  rfl

namespace Session

variable {session : Session}

theorem mem_of_records {schema : SchemaId} {values : List Json} {found : List Record}
    (h : session.records schema values = .ok found) {p : Record} (hp : p ∈ found) :
    ∃ v ∈ values, session.domain.record schema v = .ok p := by
  unfold records at h
  induction values generalizing found with
  | nil =>
    cases h
    cases hp
  | cons v values ih =>
    rw [List.mapM_cons] at h
    obtain ⟨first, hfirst, h⟩ := Scalar.ok_of_bind h
    obtain ⟨rest, hrest, h⟩ := Scalar.ok_of_bind h
    cases h
    rcases List.mem_cons.1 hp with rfl | hp
    · exact ⟨v, List.mem_cons_self, hfirst⟩
    · obtain ⟨w, hw, hread⟩ := ih hrest hp
      exact ⟨w, List.mem_cons_of_mem _ hw, hread⟩

theorem records_singleton {schema : SchemaId} {v : Json} {p : Record}
    (h : session.domain.record schema v = .ok p) : session.records schema [v] = .ok [p] := by
  unfold records
  rw [List.mapM_cons, h]
  rfl

theorem points_eq {now : Instant} {filter : Object} {s s' : PointStore}
    {answer : Except Error (List Record)}
    (h : session.points (PointStore.service now) filter s = (answer, s')) :
    answer = session.records Id.point (s.search filter).1 ∧ s'.points = s.points := by
  cases h
  exact ⟨rfl, rfl⟩

theorem points_id {s : PointStore} {front back : List Object} {w : Object} {id : Int}
    (hs : s.points = front ++ w :: back) (hid : id? w = some id)
    (hothers : ∀ point ∈ front ++ back, id? point ≠ some id) {p : Record}
    (hp : session.domain.record Id.point (.obj w) = .ok p) (now : Instant) :
    (session.points (PointStore.service now) [("id", .int id)] s).1 = .ok [p] := by
  unfold points PointStore.service
  simp only [search_id hs hid hothers, records_singleton hp]

theorem putPoint_of_update (hmode : session.settings.testMode = false) {point : Record} {id : Int}
    (hid : point.int? "id" = some id) {σ : Type} {service : PointService σ} {s s' : σ} {v : Json}
    {q : Record} (hupdate : service.update id point.toRaw s = (.ok v, s'))
    (hq : session.domain.record Id.point v = .ok q) :
    session.putPoint service point s = (.ok q, s') := by
  unfold putPoint
  rw [hmode, if_neg Bool.false_ne_true, hid]
  simp only [hupdate, stored, hq]

theorem putPoint_of_create (hmode : session.settings.testMode = false) {point : Record}
    (hid : point.int? "id" = none) {σ : Type} {service : PointService σ} {s s' : σ} {v : Json}
    {q : Record} (hcreate : service.create point.toRaw s = (.ok v, s'))
    (hq : session.domain.record Id.point v = .ok q) :
    session.putPoint service point s = (.ok q, s') := by
  unfold putPoint
  rw [hmode, if_neg Bool.false_ne_true, hid]
  simp only [hcreate, stored, hq]

end Session

/-! ## Points that were changed -/

theorem HasPoints.metadataField?_eq (h : HasPoints d) {id : SchemaId} (hid : id ∈ pointIds) :
    d.catalog.metadataField? id = some "meta" := by
  have hall : ∀ id ∈ pointIds, schemas.metadataField? id = some "meta" := by decide
  unfold Catalog.metadataField?
  rw [h.lineage id hid]
  exact hall id hid

theorem HasPoints.bucketDeclared (h : HasPoints d) {id : SchemaId} (hid : id ∈ pointIds) :
    d.catalog.BucketDeclared id := by
  intro bucket hbucket
  rw [h.metadataField?_eq hid, Option.some.injEq] at hbucket
  exact hbucket ▸ h.declares hid (by decide)

theorem ReadFrom.untouched (h : HasPoints d) {w : Object} (hr : ReadFrom d w r)
    {calls : List (Instant × List (String × Json))}
    (hcalls : ∀ call ∈ calls, ∀ u ∈ call.2, (splitMark appendMark u.1).1 ∉ ["id", pointerType]) :
    r.Untouched ["id", pointerType] (r.after d calls) :=
  .after (h.metadataField?_eq hr.schema) (by decide) hcalls

/-- A point that was read and then changed by calls of `apply` that leave its id and its tag can be
saved, if it is finite and what hooks fill is not absent then. -/
theorem ReadFrom.saveable_after (h : HasPoints d) {w : Object} (hr : ReadFrom d w r)
    {calls : List (Instant × List (String × Json))}
    (hcalls : ∀ call ∈ calls, ∀ u ∈ call.2, (splitMark appendMark u.1).1 ∉ ["id", pointerType])
    (hpresent : ∀ name ∈ ["x", "y", "z", "radius", "meta"], ∀ v,
      (r.after d calls).get? name = some v → v.isNull = false)
    (hfin : (Value.record (r.after d calls)).IsFinite) : Saveable d (r.after d calls) := by
  have hsame := hr.untouched h hcalls
  have hwhole := hr.whole.after (h.bucketDeclared hr.schema) calls
  have htyped := (hr.typed.after (fun id hid => h.regular (h.mem_pointIds_of_within hr.schema hid))
    (h.namesOnce hr.schema) calls).1
  have htag : pointTag (r.after d calls).rawEntries = pointTag r.rawEntries := by
    have hfield := hsame.field pointerType (by decide)
    unfold Record.get? at hfield
    unfold pointTag
    rw [Record.get?_rawEntries hwhole.sortedFields hwhole.sortedExtra,
      Record.get?_rawEntries hr.whole.sortedFields hr.whole.sortedExtra, hsame.extra, hfield]
  refine h.saveable (hsame.schema ▸ hr.schema) hwhole htyped hfin ?_ fun e he y hy => ?_
  · rw [htag, hsame.schema]
    exact hr.tag
  · have hnames : ∀ e ∈ fillShapes,
        e.1 = pointerType ∨ e.1 ∈ ["x", "y", "z", "radius", "meta"] := by
      decide
    rcases hnames e he with hname | hname
    · rw [hname, hsame.field pointerType (by decide), ← hname] at hy
      exact hr.present e he y hy
    · exact hpresent _ hname y hy

/-! ## Saving -/

/-- A store whose points are tables with distinct ids of 64 bits. -/
structure Identified (s : PointStore) : Prop where
  sorted : ∀ point ∈ s.points, Table.Sorted point
  named : ∀ point ∈ s.points, (id? point).isSome = true
  nodup : s.ids.Nodup

theorem Identified.exists_read {session : Session} {s s₁ : PointStore} (hs : Identified s)
    {asked : Instant} {filter : Object} {found : List Record}
    (hfound : session.points (PointStore.service asked) filter s = (.ok found, s₁))
    (hr : r ∈ found) :
    ∃ w id front back, s.points = front ++ w :: back ∧ id? w = some id ∧
      (∀ point ∈ front ++ back, id? point ≠ some id) ∧ Table.Sorted w ∧
      session.domain.record Id.point (.obj w) = .ok r ∧ s₁.points = s.points := by
  obtain ⟨hrecords, hpoints⟩ := Session.points_eq hfound
  obtain ⟨v, hv, hread⟩ := Session.mem_of_records hrecords.symm hr
  obtain ⟨w, hw, rfl⟩ := List.mem_map.1 hv
  have hmem := (List.mem_filter.1 hw).1
  obtain ⟨id, hid⟩ := Option.isSome_iff_exists.1 (hs.named w hmem)
  obtain ⟨front, back, hsplit⟩ := List.append_of_mem hmem
  refine ⟨w, id, front, back, hsplit, hid, id?_ne_of_nodup ?_ hid, hs.sorted w hmem, hread, hpoints⟩
  rw [← hsplit]
  exact hs.nodup

/-- A point that is found in a store, changed but for its id and its tag, and finite with nothing
absent that hooks fill, can be saved. One update is asked for. What is handed back has the entries
of the point, times of writing aside, and is what is found under the id then. The other points of
the store stay as they are. -/
theorem saved_point_is_found {session : Session} (h : HasPoints session.domain)
    (hmode : session.settings.testMode = false) {s s₁ : PointStore} (hs : Identified s)
    {asked : Instant} {filter : Object} {found : List Record}
    (hfound : session.points (PointStore.service asked) filter s = (.ok found, s₁))
    {r : Record} (hr : r ∈ found) {calls : List (Instant × List (String × Json))}
    (hcalls : ∀ call ∈ calls, ∀ u ∈ call.2, (splitMark appendMark u.1).1 ∉ ["id", pointerType])
    {p : Record} (hp : p = r.after session.domain calls)
    (hpresent : ∀ name ∈ ["x", "y", "z", "radius", "meta"], ∀ v,
      p.get? name = some v → v.isNull = false)
    (hfin : (Value.record p).IsFinite) (saved later : Instant) :
    ∃ id q s₂ front old new back, p.int? "id" = some id ∧
      session.putPoint (PointStore.service saved).recorded p (s₁, []) =
        (.ok q, s₂, [.update id p.toRaw]) ∧
      q.schema = p.schema ∧
      (∀ key ∉ ["created_at", "updated_at"], q.toRaw.entry? key = p.toRaw.entry? key) ∧
      (session.points (PointStore.service later) [("id", .int id)] s₂).1 = .ok [q] ∧
      s.points = front ++ old :: back ∧ id? old = some id ∧
      s₂.points = front ++ new :: back := by
  obtain ⟨w, id, front, back, hsplit, hid, hothers, hsorted, hread, hpoints⟩ :=
    hs.exists_read hfound hr
  have hfrom := h.readFrom hsorted hread
  have hsame := hp ▸ hfrom.untouched h hcalls
  have hsave := hp ▸ hfrom.saveable_after h hcalls (hp ▸ hpresent) (hp ▸ hfin)
  -- what the store makes of the changed point is read as that point, and has its id
  let new := overlaid w p.rawEntries saved
  let s₂ : PointStore := { s₁ with points := front ++ new :: back }
  obtain ⟨q, hq, -, hschema, hraw⟩ :=
    hsave.reread_overlaid h hsorted hfrom hsame (by decide) hid saved
  have hpid : p.int? "id" = some id := by
    unfold Record.int?
    rw [hsame.field "id" (by decide), h.get?_id hfrom hid]
    rfl
  have hupdate : (PointStore.service saved).recorded.update id p.toRaw (s₁, []) =
      (.ok (.obj new), s₂, [.update id p.toRaw]) := by
    have hstore : s₁.update saved id (.obj p.rawEntries) = (.ok (.obj new), s₂) :=
      update_of_id (hpoints.trans hsplit) hid hothers saved
    rw [toRaw_eq_obj]
    simp only [PointService.recorded, PointStore.service, hstore, List.nil_append]
  refine ⟨id, q, s₂, front, w, new, back, hpid, Session.putPoint_of_update hmode hpid hupdate hq,
    hschema, fun key hkey => ?_, ?_, hsplit, hid, rfl⟩
  · rw [entry?_toRaw, entry?_toRaw, hraw key hkey]
  · exact Session.points_id rfl ((id?_overlaid w p.rawEntries saved).trans hid) hothers hq later

/-! ### One point -/

def numbered (x : Int) : Record :=
  ⟨Id.point, [("created_at", .null), ("device_id", .null), ("discarded_at", .null), ("id", .int 7),
    ("meta", .map []), ("name", .null), (pointerType, .str genericPointer), ("radius", .float 0.0),
    ("updated_at", .null), ("x", .int x), ("y", .int 0), ("z", .int 0)], []⟩

theorem record_numbered :
    domain.record Id.point (.obj [("id", .int 7)]) = .ok (numbered 0) := by
  obtain ⟨fs, hb⟩ := hasPoints_domain.exists_builds (show Id.point ∈ pointIds by decide)
  obtain ⟨fs', heq, hnames, hconvs⟩ := hb.of_record
  cases heq
  have hall : (domain.catalog.allFields Id.point).map (·.name) = ["id", "created_at", "updated_at",
      "x", "y", "z", "device_id", pointerType, "name", "meta", "radius", "discarded_at"] := by
    decide
  obtain ⟨f, rest, rfl, hf, hrest⟩ := List.map_eq_cons_iff.1 (hnames.trans hall)
  obtain ⟨g, hg, hname, hconv⟩ := hconvs f List.mem_cons_self
  have hint : f.2 = .scalar .int := by
    refine hasPoints_domain.eq_scalar_of_stamp (s := .int) (by decide) hg ?_ rfl hconv
    rw [hname, hf]
    decide
  have habsent : ∀ e ∈ rest, Table.get? [("id", Json.int 7)] e.1 = none := by
    have hothers : ∀ name ∈ ["created_at", "updated_at", "x", "y", "z", "device_id", pointerType,
        "name", "meta", "radius", "discarded_at"], Table.get? [("id", Json.int 7)] name = none := by
      decide
    intro e he
    have hmem : e.1 ∈ rest.map (·.1) := List.mem_map_of_mem he
    exact hothers _ (hrest ▸ hmem)
  have hfields : domain.fields (f :: rest) [("id", .int 7)] [] =
      .ok (Table.put absentFields "id" (.int 7)) := by
    refine Domain.fields_cons_eq_ok.2 ⟨.int 7, ?_, ?_⟩
    · rw [hf, hint, Domain.apply_scalar]
      rfl
    · rw [Domain.fields_absent habsent, hrest, hf]
      rfl
  refine hasPoints_domain.record_obj_iff.2 ⟨_, _, hb, hfields, ?_⟩
  have hdefaults : domain.catalog.withDefaults Id.point (Table.put absentFields "id" (.int 7)) =
      Table.put absentFields "id" (.int 7) :=
    Catalog.withDefaults_eq_self (by decide)
  have hsteps : (domain.catalog.lineage Id.point).flatMap (·.finish) = point.finish := rfl
  unfold Catalog.assemble
  rw [show pointMember (pointTag [("id", .int 7)]) = Id.point from rfl]
  simp only
  rw [hsteps, hdefaults]
  rfl

theorem after_numbered :
    (numbered 0).after domain [(Record.epoch, [("+x", .int 5)])] = numbered 5 := by
  have hx : domain.catalog.field? (numbered 0).schema "x" = some ⟨"x", .int⟩ := by decide +kernel
  have hmark : splitMark appendMark "+x" = ("x", true) := by decide
  simp only [Record.after, List.foldl_cons, List.foldl_nil, Record.apply, Record.update, hmark, hx,
    Record.resolveRelative, Record.updateField, Record.converter_int, Domain.apply_scalar]
  rfl

def realRun : Session := ⟨⟨"garden", false, []⟩, domain, Record.epoch⟩

def onePoint : PointStore := ⟨[[("id", .int 7)]], 8, 0⟩

/-- The point of that store is found, moved, saved and found again. -/
theorem saved_point_is_found_numbered :
    realRun.points (PointStore.service Record.epoch) [] onePoint =
        (.ok [numbered 0], { onePoint with searches := 1 }) ∧
      (numbered 0).after domain [(Record.epoch, [("+x", .int 5)])] = numbered 5 ∧
      ∃ q s, realRun.putPoint (PointStore.service Record.epoch).recorded (numbered 5)
          ({ onePoint with searches := 1 }, []) = (.ok q, s, [.update 7 (numbered 5).toRaw]) ∧
        (realRun.points (PointStore.service Record.epoch) [("id", .int 7)] s).1 = .ok [q] := by
  have hfound : realRun.points (PointStore.service Record.epoch) [] onePoint =
      (.ok [numbered 0], { onePoint with searches := 1 }) := by
    have hrecords : realRun.records Id.point [.obj [("id", .int 7)]] = .ok [numbered 0] :=
      Session.records_singleton record_numbered
    show (realRun.records Id.point [.obj [("id", .int 7)]], _) = _
    rw [hrecords]
    rfl
  have hs : Identified onePoint :=
    ⟨List.forall_mem_singleton.2 (List.pairwise_singleton _ _), by decide, by decide⟩
  have hpresent : ∀ name ∈ ["x", "y", "z", "radius", "meta"], ∀ v,
      (numbered 5).get? name = some v → v.isNull = false := by
    simp only [List.forall_mem_cons]
    refine ⟨?_, ?_, ?_, ?_, ?_, fun _ h => absurd h List.not_mem_nil⟩ <;> rintro _ ⟨⟩ <;> rfl
  have hfin : (Value.record (numbered 5)).IsFinite := by
    have hradius : Decimal.isFinite 0.0 = true := by decide
    simp [numbered, Value.IsFinite, Value.All, Record.All, allFields, allEntries, hradius]
  obtain ⟨id, q, s, _, _, _, _, hid, hput, -, -, hagain, -⟩ := saved_point_is_found
    hasPoints_domain rfl hs hfound (List.mem_singleton_self _) (by decide) after_numbered.symm
    hpresent hfin Record.epoch Record.epoch
  obtain rfl : 7 = id := Option.some.inj hid
  exact ⟨hfound, after_numbered, q, s, hput, hagain⟩

end GardenMap.Farm
