import GardenMap.Farm.Schemas
import GardenMap.Proofs.Conversion.Shapes

/-!
# Points on the wire and back

Points, plants and tool slots restore wherever their schemas are those of the farm and nothing is
registered in their family (`HasPoints.restores`).

Proof. Their hooks only fill absent fields: with the tag, the origin, radius zero and an empty
mapping. A payload is sent by its tag, which ends up in the record: it is the text of the payload,
or filled in when the payload has none, and then it sends nowhere. Numbers and truth values that
stand in the place of the tag become texts, but none that names a member.
-/

namespace GardenMap.Farm

def pointIds : List SchemaId := [Id.point, Id.plant, Id.toolSlot]

/-- The schemas of points are those of the farm, and nothing is registered in their family. -/
structure HasPoints (d : Domain) : Prop where
  find : ∀ id ∈ pointIds, d.catalog.find? id = schemas.find? id
  lineage : ∀ id ∈ pointIds, d.catalog.lineage id = schemas.lineage id
  registered : d.registered Id.point = []

theorem hasPoints_domain : HasPoints domain := ⟨fun _ _ => rfl, fun _ _ => rfl, rfl⟩

/-- What is filled into the absent fields of a point. -/
def pointFills (id : SchemaId) : List (String × Value) :=
  [(pointerType, .str (pointFamily.tagOf id)), ("meta", .map []), ("x", .int 0), ("y", .int 0),
    ("z", .int 0), ("radius", .float 0.0)]

def pointShapes : List Shape :=
  [.int, .datetime, .str, .float, .any, .map .str .any, .optional .datetime, .optional .int]

/-- The shapes of the fields that hooks fill. -/
def fillShapes : List (String × Shape) :=
  [(pointerType, .str), ("meta", .map .str .any), ("x", .int), ("y", .int), ("z", .int),
    ("radius", .float)]

/-- The schema that a tag sends a point to. -/
def pointMember (tag : Option String) : SchemaId :=
  if tag = some "Plant" then Id.plant else if tag = some "ToolSlot" then Id.toolSlot else Id.point

def pointTag (es : Object) : Option String := (Table.get? es pointerType).bind Json.str?

namespace HasPoints

variable {d : Domain}

/-! ## Fields -/

theorem part_mem_pointShapes {c : Catalog} (s : Shape) (hs : s ∈ pointShapes) (p : Shape)
    (hp : Shape.Part c p s) : p ∈ pointShapes := by
  obtain ⟨made, hr, hp⟩ := hp
  simp only [pointShapes, List.mem_cons, List.not_mem_nil, or_false] at hs
  rcases hs with rfl | rfl | rfl | rfl | rfl | rfl | rfl | rfl
  all_goals
    cases hr
    revert p
    decide

theorem restores_field {s : Shape} {conv : Converter} (hb : Builds d.catalog s conv)
    (hs : s ∈ pointShapes) : d.Restores conv := by
  refine Domain.restores_of_builds (P := fun _ => False) (fun _ _ h => h.elim) hb fun id hid => ?_
  have hrecord := Shape.mem_of_reached part_mem_pointShapes hid hs
  simp [pointShapes] at hrecord

theorem allFields_eq (h : HasPoints d) {id : SchemaId} (hid : id ∈ pointIds) :
    d.catalog.allFields id = schemas.allFields id := by
  unfold Catalog.allFields
  rw [h.lineage id hid]

theorem shape_mem_pointShapes (h : HasPoints d) {id : SchemaId} (hid : id ∈ pointIds) {g : Field}
    (hg : g ∈ d.catalog.allFields id) : g.shape ∈ pointShapes := by
  rw [h.allFields_eq hid] at hg
  have hall : ∀ id ∈ pointIds, ∀ g ∈ schemas.allFields id, g.shape ∈ pointShapes := by decide
  exact hall id hid g hg

/-! ## Hooks -/

theorem eq_scalar_of_builds {c : Catalog} {s : Shape} {kind : Scalar} {conv : Converter}
    (hb : Builds c s conv) (hs : s.scalar? = some kind) : conv = .scalar kind :=
  hb.det (.single hs)

theorem builds_of_fill (h : HasPoints d) {id : SchemaId} (hid : id ∈ pointIds)
    {fs : List (String × Converter)} (hb : Builds d.catalog (.record id) (.record id fs))
    {f : String × Converter} (hf : f ∈ fs) {s : Shape} (hs : (f.1, s) ∈ fillShapes) :
    Builds d.catalog s f.2 := by
  have hall : ∀ id ∈ pointIds, ∀ g ∈ schemas.allFields id, ∀ e ∈ fillShapes,
      g.name = e.1 → g.shape = e.2 := by decide
  obtain ⟨fs', heq, -, hfields⟩ := hb.of_record
  cases heq
  obtain ⟨g, hg, hname, hbuild⟩ := hfields f hf
  rw [h.allFields_eq hid] at hg
  have hshape : g.shape = s := hall id hid g hg (f.1, s) hs hname
  exact hshape ▸ hbuild

theorem restoredBy_fill {id : SchemaId} {e : String × Value} (he : e ∈ pointFills id)
    {conv : Converter} (hb : ∀ s, (e.1, s) ∈ fillShapes → Builds d.catalog s conv)
    (hfin : e.2.IsFinite) : e.2.RestoredBy (d.apply conv) := by
  have hscalar : ∀ {s kind}, (e.1, s) ∈ fillShapes → s.scalar? = some kind → kind.Has e.2 →
      e.2.RestoredBy (d.apply conv) := by
    intro s kind hs hkind hhas
    rw [eq_scalar_of_builds (hb s hs) hkind]
    exact Domain.restoredBy_scalar hhas hfin
  simp only [pointFills, List.mem_cons, List.not_mem_nil, or_false] at he
  rcases he with rfl | rfl | rfl | rfl | rfl | rfl
  · exact hscalar (s := .str) (by simp [fillShapes]) rfl (.str _)
  · obtain ⟨made, convs, hr, -, -, rfl⟩ := (hb (.map .str .any) (by simp [fillShapes])).inv
    cases hr
    exact .same (Domain.apply_map_obj Domain.entries_nil)
  · exact hscalar (s := .int) (by simp [fillShapes]) rfl (.int _ (by decide))
  · exact hscalar (s := .int) (by simp [fillShapes]) rfl (.int _ (by decide))
  · exact hscalar (s := .int) (by simp [fillShapes]) rfl (.int _ (by decide))
  · exact hscalar (s := .float) (by simp [fillShapes]) rfl (.float _)

theorem isNull_of_mem_pointFills {id : SchemaId} {e : String × Value} (he : e ∈ pointFills id) :
    e.2.isNull = false := by
  simp only [pointFills, List.mem_cons, List.not_mem_nil, or_false] at he
  rcases he with rfl | rfl | rfl | rfl | rfl | rfl <;> rfl

theorem foldl_finish_point {id : SchemaId} (r : Record) (hr : r.schema = id) :
    point.finish.foldl Record.finish r = r.fillAll (pointFills id) := by
  subst hr
  rfl

theorem fills (h : HasPoints d) {id : SchemaId} (hid : id ∈ pointIds)
    {fs : List (String × Converter)} (hb : Builds d.catalog (.record id) (.record id fs)) :
    d.Fills id fs (pointFills id) := by
  obtain ⟨fs', heq, hnames, hfields⟩ := hb.of_record
  cases heq
  refine ⟨hnames, fun f hf => ?_, ?_, fun e he => ?_, fun e he conv hconv hfin => ?_⟩
  · obtain ⟨g, hg, -, hbuild⟩ := hfields f hf
    exact restores_field hbuild (h.shape_mem_pointShapes hid hg)
  · have hsteps : (schemas.lineage id).flatMap (·.finish) = point.finish := by
      simp only [pointIds, List.mem_cons, List.not_mem_nil, or_false] at hid
      rcases hid with rfl | rfl | rfl <;> rfl
    rw [h.lineage id hid, hsteps]
    exact foldl_finish_point
  · exact isNull_of_mem_pointFills he
  · exact restoredBy_fill he (fun s hs => h.builds_of_fill hid hb hconv hs) hfin

/-! ## Tags -/

theorem pointMember_mem (tag : Option String) : pointMember tag ∈ pointIds := by
  unfold pointMember
  split
  · decide
  · split <;> decide

theorem rootedFamily?_eq_none (h : HasPoints d) {id : SchemaId} (hid : id ∈ pointIds)
    (hne : id ≠ Id.point) : d.catalog.rootedFamily? id = none := by
  unfold Catalog.rootedFamily?
  rw [h.find id hid]
  simp only [pointIds, List.mem_cons, List.not_mem_nil, or_false] at hid
  rcases hid with rfl | rfl | rfl
  · exact absurd rfl hne
  · rfl
  · rfl

theorem rootedFamily?_point (h : HasPoints d) :
    d.catalog.rootedFamily? Id.point = some pointFamily := by
  unfold Catalog.rootedFamily?
  rw [h.find Id.point (by decide)]
  rfl

theorem children_eq (h : HasPoints d) (parent : SchemaId) :
    Family.children d.catalog [Id.plant, Id.toolSlot] parent =
      if parent = Id.point then [Id.plant, Id.toolSlot] else [] := by
  have hextends : ∀ id ∈ [Id.plant, Id.toolSlot],
      d.catalog.directlyExtends? id parent = decide (parent = Id.point) := by
    intro id hid
    unfold Catalog.directlyExtends?
    rw [h.find id (List.mem_cons_of_mem _ hid)]
    simp only [List.mem_cons, List.not_mem_nil, or_false] at hid
    have hbases : [Id.point].contains parent = decide (parent = Id.point) := by simp
    rcases hid with rfl | rfl <;> exact hbases
  unfold Family.children
  rw [List.filter_congr hextends]
  by_cases hp : parent = Id.point <;> simp [hp]

theorem indexOf_eq (h : HasPoints d) :
    d.indexOf pointFamily = [("Plant", Id.plant), ("ToolSlot", Id.toolSlot)] := by
  unfold Domain.indexOf Family.indexOf
  rw [show d.registered pointFamily.base = [] from h.registered, List.append_nil]
  show Family.walk d.catalog Id.point [Id.plant, Id.toolSlot] [] [Id.point] = _
  rw [Family.walk, h.children_eq, if_pos rfl]
  show Family.walk d.catalog Id.point [Id.plant, Id.toolSlot]
    [("Plant", Id.plant), ("ToolSlot", Id.toolSlot)] [Id.plant, Id.toolSlot] = _
  rw [Family.walk, h.children_eq, if_neg (by decide)]
  show Family.walk d.catalog Id.point [Id.plant, Id.toolSlot]
    [("Plant", Id.plant), ("ToolSlot", Id.toolSlot)] [Id.toolSlot] = _
  rw [Family.walk, h.children_eq, if_neg (by decide)]
  show Family.walk d.catalog Id.point [Id.plant, Id.toolSlot]
    [("Plant", Id.plant), ("ToolSlot", Id.toolSlot)] [] = _
  rw [Family.walk]

theorem select_eq (h : HasPoints d) (tag : Option String) :
    pointFamily.select (d.indexOf pointFamily) tag = pointMember tag := by
  rw [h.indexOf_eq]
  unfold Family.select pointMember
  cases tag with
  | none => rfl
  | some s =>
    simp only [Option.bind_some, Table.get?_cons, Option.some.injEq]
    split
    · rfl
    · split <;> rfl

theorem follow_point (h : HasPoints d) (fs : List (String × Converter)) (es : Object) :
    d.follow es d.catalog.length ⟨Id.point, fs, none⟩ =
      if pointMember (pointTag es) = Id.point then .ok ⟨Id.point, fs, none⟩
      else
        match (d.catalog.converter (.record (pointMember (pointTag es)))).map Converter.fields with
        | .error e => .error (.here (.unresolved e))
        | .ok fields =>
          .ok ⟨pointMember (pointTag es), fields, some (pointMember (pointTag es)).name⟩ := by
  exact Domain.follow_base h.rootedFamily?_point es (h.select_eq (pointTag es))
    (h.rootedFamily?_eq_none (pointMember_mem _)) fs

theorem pointMember_of_toStr {r : Json} {s : String} (h : Scalar.toStr r = .ok (.str s)) :
    pointMember (some s) = pointMember r.str? := by
  by_cases hr : r = .str s
  · rw [hr]
    rfl
  · have hnone : r.str? = none := by
      cases r with
      | str t =>
        cases h
        exact absurd rfl hr
      | _ => rfl
    have hplant : s ≠ "Plant" := by
      rintro rfl
      exact hr (Scalar.eq_of_toStr (by decide) h)
    have hslot : s ≠ "ToolSlot" := by
      rintro rfl
      exact hr (Scalar.eq_of_toStr (by decide) h)
    rw [hnone]
    simp [pointMember, hplant, hslot]

theorem mem_pointerType (h : HasPoints d) {id : SchemaId} (hid : id ∈ pointIds)
    {fs : List (String × Converter)} (hb : Builds d.catalog (.record id) (.record id fs)) :
    (pointerType, .scalar .str) ∈ fs := by
  have hall : ∀ id ∈ pointIds, pointerType ∈ (schemas.allFields id).map (·.name) := by decide
  have hname := hall id hid
  rw [← h.allFields_eq hid, ← (h.fills hid hb).names] at hname
  obtain ⟨f, hf, hname⟩ := List.mem_map.1 hname
  have hconv : f.2 = .scalar .str := by
    refine eq_scalar_of_builds (s := .str) (h.builds_of_fill hid hb hf ?_) rfl
    rw [hname]
    decide
  rw [← hname, ← hconv]
  exact hf

theorem pointMember_rawEntries (h : HasPoints d) {id : SchemaId} (hid : id ∈ pointIds)
    {fs : List (String × Converter)} (hb : Builds d.catalog (.record id) (.record id fs))
    {es : Object} (hsent : pointMember (pointTag es) = id) {typed : List (String × Value)}
    (hes : Table.Sorted es) (htyped : d.fields fs es [] = .ok typed) :
    pointMember (pointTag (d.catalog.assemble id typed es).rawEntries) = id := by
  have hd := h.fills hid hb
  have hA := hd.hooked.assembled hes htyped
  obtain ⟨y, hy, hraw, x, hx, hfrom⟩ := hA.origin hd.hooked htyped (h.mem_pointerType hid hb)
  rw [Domain.apply_scalar] at hx
  have htag : pointTag es = ((Table.get? es pointerType).getD .null).str? := by
    unfold pointTag
    cases Table.get? es pointerType <;> rfl
  rw [htag] at hsent
  unfold pointTag
  rw [hraw, Option.bind_some]
  rcases hfrom with rfl | ⟨hfill, hnull⟩
  · cases Scalar.has_of_convert hx with
    | null =>
      have hpresent := hA.present _ (List.mem_cons_self) _ hy
      cases hpresent
    | str s => exact (pointMember_of_toStr hx).trans hsent
  · -- the payload has no tag, so it stayed where it was and the tag filled in names no member
    have habsent : (Table.get? es pointerType).getD .null = .null := by
      generalize (Table.get? es pointerType).getD .null = r at hx
      cases r <;> cases hx <;> first | rfl | cases hnull
    rw [habsent] at hsent
    have hpoint : id = Id.point := hsent.symm
    subst hpoint
    have hy : y = .str (pointFamily.tagOf Id.point) := by
      simpa [pointFills, pointerType] using hfill
    rw [hy]
    rfl

/-- Points, plants and tool slots restore. -/
theorem restores (h : HasPoints d) {id : SchemaId} (hid : id ∈ pointIds)
    {fs : List (String × Converter)} (hb : Builds d.catalog (.record id) (.record id fs)) :
    d.Restores (.record id fs) := by
  by_cases hpoint : id = Id.point
  · subst hpoint
    refine Domain.restores_record fun es target hfollow => ?_
    have hfollow' := hfollow
    rw [h.follow_point] at hfollow
    have htarget : pointMember (pointTag es) = target.schema ∧
        Builds d.catalog (.record target.schema) (.record target.schema target.fields) := by
      split at hfollow
      · next hstay =>
        cases hfollow
        exact ⟨hstay, hb⟩
      · cases hconv : d.catalog.converter (.record (pointMember (pointTag es))) with
        | error e => rw [hconv] at hfollow; cases hfollow
        | ok conv =>
          rw [hconv] at hfollow
          cases hfollow
          have hbuild := Catalog.converter_eq_ok.1 hconv
          obtain ⟨fs', rfl, -⟩ := hbuild.of_record
          exact ⟨rfl, hbuild⟩
    obtain ⟨hsent, hbuild⟩ := htarget
    have hmem : target.schema ∈ pointIds := hsent ▸ pointMember_mem _
    refine ⟨_, h.fills hmem hbuild, fun typed hes htyped => ?_⟩
    rw [← hfollow', h.follow_point, h.follow_point,
      h.pointMember_rawEntries hmem hbuild hsent hes htyped, hsent]
  · exact Domain.restores_of_fills (h.rootedFamily?_eq_none hid hpoint) (h.fills hid hb)

end HasPoints

end GardenMap.Farm
