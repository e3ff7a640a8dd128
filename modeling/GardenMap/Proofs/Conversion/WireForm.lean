import GardenMap.Proofs.Farm.Points

/-!
# The wire form is read back

A value that a payload gives under a shape, once its numbers are finite, is read back from its wire
form under the same shape (`Domain.read_toRaw`): with the same wire form, and as itself when its
instants are whole milliseconds. Mappings in payloads are tables, as they are in all wire values. The
records in the shape may be points, or of schemas without hooks and families. Hooks of other kinds
need not come to rest: text that is appended to a field is appended again.
-/

namespace GardenMap

/-- The wire form of a finite value that a payload gave under a shape is read back under it: with
the same wire form, and as the value itself when its instants are whole. -/
theorem Domain.read_toRaw {d : Domain} {s : Shape}
    (hs : ∀ id, Relation.ReflTransGen (Shape.Part d.catalog) (.record id) s →
      d.catalog.IsPlain id ∨ Farm.HasPoints d ∧ id ∈ Farm.pointIds)
    {r : Json} (hr : r.Sorted) {v : Value} (h : d.read s r = .ok v) (hfin : v.IsFinite) :
    ∃ w, d.read s v.toRaw = .ok w ∧ w.toRaw = v.toRaw ∧ (v.IsWhole → w = v) := by
  unfold read at h ⊢
  cases hconv : d.catalog.converter s with
  | error e => rw [hconv] at h; cases h
  | ok conv =>
    rw [hconv] at h
    simp only at h ⊢
    have hbuild := Catalog.converter_eq_ok.1 hconv
    have hrestores : d.Restores conv := by
      refine restores_of_builds (fun id fs hid hb hfs => ?_) hbuild hs
      rcases hid with hplain | ⟨hpoints, hid⟩
      · exact restores_of_isPlain hplain hb hfs
      · exact hpoints.restores hid hb
    cases happly : d.apply conv r with
    | error e => rw [happly] at h; cases h
    | ok x =>
      rw [happly] at h
      cases h
      obtain ⟨w, hw, hraw, hwhole⟩ := hrestores r v hr happly hfin
      refine ⟨w, ?_, hraw, hwhole⟩
      rw [hw]
      rfl

/-! ## Two places -/

namespace Farm

def placesShape : Shape := .list (.optional (.record Id.coordinate))

/-- A place with one coordinate and a word about the soil, and an absent one. -/
def places : Value :=
  .list [.record ⟨Id.coordinate, [("x", .int 5), ("y", .null), ("z", .null)],
    [("soil", .raw (.str "dry"))]⟩, .null]

theorem isPlain_coordinate : domain.catalog.IsPlain Id.coordinate := by
  intro s hs
  have hfind : domain.catalog.find? Id.coordinate = some coordinateSchema := rfl
  have hlineage : domain.catalog.lineage Id.coordinate = [coordinateSchema] := rfl
  rw [hfind, hlineage, Option.some.injEq, List.mem_singleton] at hs
  rcases hs with rfl | rfl <;> exact ⟨rfl, rfl⟩

theorem eq_coordinate_of_placesShape {id : SchemaId}
    (h : Relation.ReflTransGen (Shape.Part domain.catalog) (.record id) placesShape) :
    id = Id.coordinate := by
  have hparts : ∀ s ∈ [placesShape, .optional (.record Id.coordinate), .record Id.coordinate, .int],
      ∀ p, Shape.Part domain.catalog p s →
        p ∈ [placesShape, .optional (.record Id.coordinate), .record Id.coordinate, .int] := by
    rintro s hs p ⟨made, hr, hp⟩
    simp only [List.mem_cons, List.not_mem_nil, or_false] at hs
    rcases hs with rfl | rfl | rfl | rfl
    all_goals
      cases hr
      revert p
      decide
  have hmem := Shape.mem_of_reached hparts h (by simp)
  simpa [placesShape] using hmem

/-- The converters of the fields of a place. -/
def coordinateConverters : List (String × Converter) :=
  [("x", .scalar .int), ("y", .scalar .int), ("z", .scalar .int)]

theorem converter_placesShape :
    domain.catalog.converter placesShape =
      .ok (.list (.nullable (.record Id.coordinate coordinateConverters))) := by
  have hint : Builds domain.catalog .int (.scalar .int) := .single rfl
  have hplace : Builds domain.catalog (.record Id.coordinate)
      (.record Id.coordinate coordinateConverters) := by
    refine @Builds.intro _ (.record Id.coordinate) _
      [.scalar .int, .scalar .int, .scalar .int] rfl rfl fun x hx => ?_
    change x ∈ [(Shape.int, Converter.scalar .int), (.int, .scalar .int),
      (.int, .scalar .int)] at hx
    simp only [List.mem_cons, List.not_mem_nil, or_false, or_self] at hx
    rw [hx]
    exact hint
  exact Catalog.converter_eq_ok.2 hplace.optional.list

theorem apply_place :
    domain.apply (.record Id.coordinate coordinateConverters)
        (.obj [("soil", .str "dry"), ("x", .str "5")]) =
      .ok (.record ⟨Id.coordinate, [("x", .int 5), ("y", .null), ("z", .null)],
        [("soil", .raw (.str "dry"))]⟩) := by
  have hx : domain.apply (.scalar .int) (.str "5") = .ok (.int 5) := by
    rw [Domain.apply_scalar]
    rfl
  have htyped : domain.fields coordinateConverters [("soil", .str "dry"), ("x", .str "5")] [] =
      .ok [("x", .int 5), ("y", .null), ("z", .null)] :=
    Domain.fields_cons_eq_ok.2 ⟨_, hx, Domain.fields_cons_eq_ok.2 ⟨_, Domain.apply_null _,
      Domain.fields_cons_eq_ok.2 ⟨_, Domain.apply_null _, Domain.fields_nil⟩⟩⟩
  exact Domain.apply_record_obj (Domain.follow_eq_self rfl _ _) htyped

theorem read_places :
    domain.read placesShape
      (.arr [.obj [("soil", .str "dry"), ("x", .str "5")], .str "None"]) = .ok places := by
  have hitems : domain.items (.nullable (.record Id.coordinate coordinateConverters))
      [.obj [("soil", .str "dry"), ("x", .str "5")], .str "None"] 0 =
      .ok [.record ⟨Id.coordinate, [("x", .int 5), ("y", .null), ("z", .null)],
        [("soil", .raw (.str "dry"))]⟩, .null] := by
    rw [Domain.items_cons, Domain.apply_nullable, if_neg (by decide), apply_place]
    simp only
    rw [Domain.items_cons, Domain.apply_nullable, if_pos (by decide)]
    simp only
    unfold Domain.items
    rw [Conversion.convertItems]
    rfl
  unfold Domain.read
  rw [converter_placesShape]
  simp only
  rw [Domain.apply_list_arr hitems]
  rfl

end Farm

/-- Two places are read from a payload and come back as they were. -/
theorem Domain.read_toRaw_places :
    Farm.domain.read Farm.placesShape
        (.arr [.obj [("soil", .str "dry"), ("x", .str "5")], .str "None"]) = .ok Farm.places ∧
      Farm.domain.read Farm.placesShape Farm.places.toRaw = .ok Farm.places := by
  have hplain : ∀ id, Relation.ReflTransGen (Shape.Part Farm.domain.catalog) (.record id)
      Farm.placesShape → Farm.domain.catalog.IsPlain id ∨
        Farm.HasPoints Farm.domain ∧ id ∈ Farm.pointIds := by
    intro id hid
    rw [Farm.eq_coordinate_of_placesShape hid]
    exact .inl Farm.isPlain_coordinate
  have hsorted : (Json.arr [.obj [("soil", .str "dry"), ("x", .str "5")], .str "None"]).Sorted := by
    refine ⟨⟨?_, trivial, trivial, trivial⟩, trivial, trivial⟩
    simp [Table.Sorted, Table.keys]
    decide
  have hfin : Farm.places.IsFinite := by
    simp [Farm.places, Value.IsFinite, Value.All, Record.All, allItems, allFields]
  obtain ⟨w, hw, -, hwhole⟩ := Domain.read_toRaw hplain hsorted Farm.read_places hfin
  have hisWhole : Farm.places.IsWhole := by
    simp [Farm.places, Value.IsWhole, Value.All, Record.All, allItems, allFields]
  rw [hwhole hisWhole] at hw
  exact ⟨Farm.read_places, hw⟩

end GardenMap
