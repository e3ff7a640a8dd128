import GardenMap.Proofs.Record.Blank
import GardenMap.Proofs.Record.Wholeness

/-!
# Points are read back

The wire form of a point is read as a point with that wire form, also where a store has put an id
and times of its own into it (`Saveable.reread`).

Proof. A field is read back by itself, whatever it holds, if it has its shape and its numbers are
finite (`reread_field`). The tag sends the payload to the schema that the point had, and since the
fields that hooks fill are there, finishing changes nothing. So what is read has the entries of the
payload, and is again a point that can be saved.
-/

namespace GardenMap

/-! ## Single values -/

namespace Scalar

variable {kind : Scalar}

theorem convert_any (w : Json) : ∃ v, Scalar.any.convert w = .ok v ∧ v.toRaw = w := by
  cases w <;> exact ⟨_, rfl, rfl⟩

theorem Holds.rereadBy {v : Value} (h : kind.Holds v) (hfin : v.IsFinite) :
    v.RereadBy kind.convert := by
  cases h with
  | any w => exact convert_any w
  | bool b => exact ((Has.bool b).restoredBy hfin).reread
  | int i hi => exact ((Has.int i hi).restoredBy hfin).reread
  | float x => exact ((Has.float x).restoredBy hfin).reread
  | str s => exact ((Has.str s).restoredBy hfin).reread
  | date day => exact ((Has.date day).restoredBy hfin).reread
  | datetime t => exact rereadBy_datetime t

theorem isNone_of_holds_int {v : Value} (h : Scalar.int.Holds v) :
    Payload.isNone v.toRaw = false := by
  cases h
  rfl

theorem isNone_of_holds_datetime {v : Value} (h : Scalar.datetime.Holds v) :
    Payload.isNone v.toRaw = false := by
  cases h with
  | datetime t => exact isNone_instant t

end Scalar

namespace Domain

variable {d : Domain}

theorem rereadBy_null (conv : Converter) : Value.null.RereadBy (d.apply conv) :=
  (restoredBy_null conv).reread

theorem rereadBy_scalar {kind : Scalar} {v : Value} (h : v = .null ∨ kind.Holds v)
    (hfin : v.IsFinite) : v.RereadBy (d.apply (.scalar kind)) := by
  rcases h with rfl | h
  · exact rereadBy_null _
  · rw [apply_scalar]
    exact h.rereadBy hfin

theorem rereadBy_nullable {kind : Scalar} {v : Value} (h : v = .null ∨ kind.Holds v)
    (hnone : kind.Holds v → Payload.isNone v.toRaw = false) (hfin : v.IsFinite) :
    v.RereadBy (d.apply (.nullable (.scalar kind))) := by
  rcases h with rfl | h
  · exact rereadBy_null _
  · obtain ⟨w, hw, hraw⟩ := h.rereadBy hfin
    refine ⟨w, ?_, hraw⟩
    rw [apply_nullable, hnone h, apply_scalar]
    exact hw

theorem rereadBy_bucket {entries : List (MapKey × Value)}
    (hkeys : ∀ e ∈ entries, ∃ s, e.1 = .str s) :
    (Value.map entries).RereadBy (d.apply (.map .str (.scalar .any))) := by
  have hkey : ∀ e ∈ entries, e.1.RereadBy .str := fun e he => by
    obtain ⟨s, hs⟩ := hkeys e he
    exact ⟨.str s, by rw [hs]; rfl, by rw [hs]⟩
  have hvalue : ∀ e ∈ entries, e.2.RereadBy (d.apply (.scalar .any)) := fun e _ => by
    rw [apply_scalar]
    exact Scalar.convert_any _
  obtain ⟨t, ht, hraw⟩ := reread_map hkey hvalue
  refine ⟨.map t, ?_, ?_⟩
  · rw [Value.toRaw]
    exact apply_map_obj ht
  · rw [Value.toRaw, Value.toRaw, hraw]

end Domain

namespace Farm

variable {d : Domain}

theorem eq_bucket_of_builds {c : Catalog} {conv : Converter}
    (hb : Builds c (.map .str .any) conv) : conv = .map .str (.scalar .any) :=
  hb.det (.map rfl (.single rfl))

theorem eq_nullable_of_builds {c : Catalog} {inner : Shape} {kind : Scalar} {conv : Converter}
    (hb : Builds c (.optional inner) conv) (hs : inner.scalar? = some kind) :
    conv = .nullable (.scalar kind) :=
  hb.det (.optional (.single hs))

/-- A finite value in a field of a point is read back. -/
theorem reread_field {s : Shape} {conv : Converter} (hs : s ∈ pointShapes)
    (hb : Builds d.catalog s conv) {v : Value} (hv : d.HasShape s v) (hfin : v.IsFinite) :
    v.RereadBy (d.apply conv) := by
  have hsingle : ∀ kind, s.scalar? = some kind → v.RereadBy (d.apply conv) := fun kind hkind => by
    rw [HasPoints.eq_scalar_of_builds hb hkind]
    exact Domain.rereadBy_scalar (hv.of_single hkind) hfin
  simp only [pointShapes, List.mem_cons, List.not_mem_nil, or_false] at hs
  rcases hs with rfl | rfl | rfl | rfl | rfl | rfl | rfl | rfl
  · exact hsingle _ rfl
  · exact hsingle _ rfl
  · exact hsingle _ rfl
  · exact hsingle _ rfl
  · exact hsingle _ rfl
  · rw [eq_bucket_of_builds hb]
    cases hv with
    | null => exact Domain.rereadBy_null _
    | single hs => cases hs
    | map hkey hkeys =>
      cases hkey
      refine Domain.rereadBy_bucket fun e he => ?_
      obtain ⟨k, v⟩ := e
      cases hkeys _ he
      exact ⟨_, rfl⟩
  · rw [eq_nullable_of_builds hb rfl]
    cases hv with
    | null => exact Domain.rereadBy_null _
    | single hs => cases hs
    | optional hv =>
      exact Domain.rereadBy_nullable (hv.of_single rfl) Scalar.isNone_of_holds_datetime hfin
  · rw [eq_nullable_of_builds hb rfl]
    cases hv with
    | null => exact Domain.rereadBy_null _
    | single hs => cases hs
    | optional hv =>
      exact Domain.rereadBy_nullable (hv.of_single rfl) Scalar.isNone_of_holds_int hfin

/-! ## Payloads of points -/

namespace HasPoints

theorem exists_builds (h : HasPoints d) {id : SchemaId} (hid : id ∈ pointIds) :
    ∃ fs, Builds d.catalog (.record id) (.record id fs) := by
  obtain ⟨conv, hb⟩ := exists_builds_iff.2 (h.wellFormed hid)
  obtain ⟨fs, rfl, -⟩ := hb.of_record
  exact ⟨fs, hb⟩

theorem record_obj_iff (h : HasPoints d) {es : Object} {r : Record} :
    d.record Id.point (.obj es) = .ok r ↔
      ∃ fs typed, Builds d.catalog (.record (pointMember (pointTag es)))
        (.record (pointMember (pointTag es)) fs) ∧ d.fields fs es [] = .ok typed ∧
        d.catalog.assemble (pointMember (pointTag es)) typed es = r := by
  obtain ⟨fs₀, hb₀⟩ := h.exists_builds (show Id.point ∈ pointIds by decide)
  obtain ⟨fs, hb⟩ := h.exists_builds (pointMember_mem (pointTag es))
  have hfollow : ∃ sentTo, d.follow es d.catalog.length ⟨Id.point, fs₀, none⟩ =
      .ok ⟨pointMember (pointTag es), fs, sentTo⟩ := by
    rw [h.follow_point]
    split
    · next hstay =>
      rw [hstay] at hb ⊢
      cases hb.det hb₀
      exact ⟨none, rfl⟩
    · rw [Catalog.converter_eq_ok.2 hb]
      exact ⟨_, rfl⟩
  obtain ⟨sentTo, hfollow⟩ := hfollow
  rw [Domain.record_obj_iff (Catalog.converter_eq_ok.2 hb₀) hfollow]
  constructor
  · rintro ⟨typed, htyped⟩
    exact ⟨fs, typed, hb, htyped⟩
  · rintro ⟨fs', typed, hb', htyped⟩
    cases hb'.det hb
    exact ⟨typed, htyped⟩

end HasPoints

/-! ## Points that were read -/

theorem exists_converter {c : Catalog} {id : SchemaId} {fs : List (String × Converter)}
    (hb : Builds c (.record id) (.record id fs)) {g : Field} (hg : g ∈ c.allFields id) :
    ∃ conv, (g.name, conv) ∈ fs ∧ Builds c g.shape conv := by
  obtain ⟨fs', heq, hnames, hfields⟩ := hb.of_record
  cases heq
  obtain ⟨f, hf, hname⟩ := List.mem_map.1 (hnames ▸ List.mem_map_of_mem hg : g.name ∈ fs.map (·.1))
  obtain ⟨g', hg', hname', hconv⟩ := hfields f hf
  cases Catalog.eq_of_name_eq hg' hg (hname'.trans hname)
  exact ⟨f.2, hname ▸ hf, hconv⟩

theorem exists_fillShape {id : SchemaId} {e : String × Value} (he : e ∈ pointFills id) :
    ∃ s, (e.1, s) ∈ fillShapes := by
  simp only [pointFills, List.mem_cons, List.not_mem_nil, or_false] at he
  rcases he with rfl | rfl | rfl | rfl | rfl | rfl <;> simp [fillShapes]

theorem exists_pointFill (id : SchemaId) {e : String × Shape} (he : e ∈ fillShapes) :
    ∃ v, (e.1, v) ∈ pointFills id := by
  simp only [fillShapes, List.mem_cons, List.not_mem_nil, or_false] at he
  rcases he with rfl | rfl | rfl | rfl | rfl | rfl <;> simp [pointFills]

/-- The shapes of the fields of a point that a store gives values of its own. -/
def stampShapes : List (String × Shape) :=
  [("id", .int), ("created_at", .datetime), ("updated_at", .datetime)]

/-- The fields of a point that a store gives values of its own. -/
def stamps : List String := stampShapes.map (·.1)

theorem HasPoints.declares (h : HasPoints d) {id : SchemaId} (hid : id ∈ pointIds) {name : String}
    (hname : name ∈ "name" :: stamps ++ fillShapes.map (·.1)) : d.catalog.Declares id name := by
  have hall : ∀ id ∈ pointIds, ∀ name ∈ "name" :: stamps ++ fillShapes.map (·.1),
      name ∈ (schemas.allFields id).map (·.name) := by decide
  unfold Catalog.Declares
  rw [h.allFields_eq hid]
  exact hall id hid name hname

theorem HasPoints.eq_scalar_of_stamp (h : HasPoints d) {id : SchemaId} (hid : id ∈ pointIds)
    {g : Field} (hg : g ∈ d.catalog.allFields id) {s : Shape} (hs : (g.name, s) ∈ stampShapes)
    {kind : Scalar} (hkind : s.scalar? = some kind) {conv : Converter}
    (hb : Builds d.catalog g.shape conv) : conv = .scalar kind := by
  have hall : ∀ id ∈ pointIds, ∀ g ∈ schemas.allFields id, ∀ e ∈ stampShapes,
      g.name = e.1 → g.shape = e.2 := by decide
  rw [h.allFields_eq hid] at hg
  rw [hall id hid g hg _ hs rfl] at hb
  exact eq_scalar_of_builds hb hkind

theorem HasPoints.reread_stamp (h : HasPoints d) {id : SchemaId} (hid : id ∈ pointIds) {g : Field}
    (hg : g ∈ d.catalog.allFields id) (hname : g.name ∈ stamps) {conv : Converter}
    (hb : Builds d.catalog g.shape conv) {w : Json} {x : Value} (hx : d.apply conv w = .ok x) :
    x.RereadBy (d.apply conv) := by
  obtain ⟨⟨name, s⟩, hs, rfl⟩ := List.mem_map.1 hname
  have hkind : s.scalar? = some .int ∨ s.scalar? = some .datetime := by
    have hall : ∀ e ∈ stampShapes, e.2.scalar? = some .int ∨ e.2.scalar? = some .datetime := by
      decide
    exact hall _ hs
  rcases hkind with hkind | hkind
  all_goals
    rw [h.eq_scalar_of_stamp hid hg hs hkind hb] at hx ⊢
    rw [Domain.apply_scalar] at hx
    have hhas := Scalar.has_of_convert hx
    exact Domain.rereadBy_scalar hhas.holds (by cases hhas <;> trivial)

/-- What is known of a point that was read from a mapping: it has the shapes of its schema, which
its tag leads to on the wire as well, an entry for each key of the mapping, and stamps that are
those of the mapping. -/
structure ReadFrom (d : Domain) (es : Object) (r : Record) : Prop where
  schema : r.schema ∈ pointIds
  whole : r.Whole d.catalog
  typed : r.Typed d
  tag : pointMember (pointTag r.rawEntries) = r.schema
  present : ∀ e ∈ fillShapes, ∀ y, r.get? e.1 = some y → y.isNull = false
  covers : ∀ k, Table.get? r.rawEntries k = none → Table.get? es k = none
  stamp : ∀ g ∈ d.catalog.allFields r.schema, g.name ∈ stamps → ∀ conv,
    Builds d.catalog g.shape conv → ∃ x, r.get? g.name = some x ∧
      d.apply conv ((Table.get? es g.name).getD .null) = .ok x

theorem typed_of_record {id : SchemaId} (hregular : d.RegularWithin (.record id)) {raw : Json}
    {r : Record} (h : d.record id raw = .ok r) : r.Typed d := by
  unfold Domain.record at h
  obtain ⟨v, hv, h⟩ := Scalar.ok_of_bind h
  cases v with
  | record r' =>
    cases h
    exact (Domain.hasShape_record_iff.1 (Domain.hasShape_of_read hregular hv)).2
  | _ => cases h

theorem HasPoints.readFrom (h : HasPoints d) {es : Object} (hes : Table.Sorted es) {r : Record}
    (hr : d.record Id.point (.obj es) = .ok r) : ReadFrom d es r := by
  have hregular : d.RegularWithin (.record Id.point) := fun id hid =>
    h.regular (h.mem_pointIds_of_within (by decide) hid)
  have hwhole : r.Whole d.catalog := Domain.whole_of_record (fun es' hes' => by
    cases hes'
    exact hes) hr
  have htyped := typed_of_record hregular hr
  obtain ⟨fs, typed, hb, hfields, hassemble⟩ := h.record_obj_iff.1 hr
  have hid := pointMember_mem (pointTag es)
  have hd := (h.fills hid hb).hooked
  have hA := hd.assembled hes hfields
  have htag := h.pointMember_rawEntries hid hb rfl hes hfields
  have hschema : r.schema = pointMember (pointTag es) := by
    rw [← hassemble, hd.assemble_eq hfields, Record.schema_fillAll]
  rw [hassemble] at hA htag
  rw [← hschema] at hid htag hd hA
  refine ⟨hid, hwhole, htyped, htag, fun e he y hy => ?_, fun k hk => ?_,
    fun g hg hname conv hconv => ?_⟩
  · obtain ⟨v, hv⟩ := exists_pointFill r.schema he
    exact hA.present _ hv y hy
  · rw [Record.get?_rawEntries hA.sortedFields hA.sortedExtra, Option.map_eq_none_iff,
      Option.or_eq_none_iff] at hk
    have hdecl := hA.has k
    have hextra := hA.extra k
    rw [Table.has, hk.1, Option.isSome_none, eq_comm, decide_eq_false_iff_not] at hdecl
    rw [hk.2, if_neg hdecl, eq_comm, Option.map_eq_none_iff] at hextra
    exact hextra
  · obtain ⟨conv', hmem, hconv'⟩ := exists_converter hb (hschema ▸ hg)
    cases hconv'.det hconv
    obtain ⟨y, hy, -, x, hx, rfl | ⟨hfill, -⟩⟩ := hA.origin hd hfields hmem
    · exact ⟨_, hy, hx⟩
    · obtain ⟨s, hs⟩ := exists_fillShape hfill
      have hall : ∀ e ∈ fillShapes, e.1 ∉ stamps := by decide
      exact absurd hname (hall _ hs)

/-! ## Points that can be saved -/

/-- A point that is read back from its wire form: its fields are, its tag leads to its schema, and
no field that a hook fills looks absent. -/
structure Saveable (d : Domain) (r : Record) : Prop where
  whole : r.Whole d.catalog
  schema : r.schema ∈ pointIds
  tag : pointMember (pointTag r.rawEntries) = r.schema
  field : ∀ g ∈ d.catalog.allFields r.schema, ∀ conv, Builds d.catalog g.shape conv →
    ∀ y, r.get? g.name = some y → y.RereadBy (d.apply conv)
  present : ∀ e ∈ fillShapes, ∀ y, r.get? e.1 = some y → y.toRaw ≠ .null

namespace Saveable

variable {r : Record}

theorem raw_field (hr : Saveable d r) {g : Field} (hg : g ∈ d.catalog.allFields r.schema) :
    ∃ y, r.get? g.name = some y ∧ Table.get? r.rawEntries g.name = some y.toRaw := by
  have hhas := (hr.whole.has_iff g.name).2 (List.mem_map_of_mem hg)
  obtain ⟨y, hy⟩ := Option.isSome_iff_exists.1 hhas
  exact ⟨y, hy, hr.whole.get?_raw hy⟩

/-- The fields of a payload that has the entries of a point, stamps aside: each is read, is read
back itself, and has the wire form of the one in the point. -/
structure Reread (d : Domain) (r : Record) (S : List String) (es : Object)
    (fs : List (String × Converter)) (typed : List (String × Value)) : Prop where
  builds : Builds d.catalog (.record r.schema) (.record r.schema fs)
  made : d.fields fs es [] = .ok typed
  field : ∀ g ∈ d.catalog.allFields r.schema, ∀ conv, Builds d.catalog g.shape conv →
    ∃ x, Table.get? typed g.name = some x ∧
      d.apply conv ((Table.get? es g.name).getD .null) = .ok x ∧ x.RereadBy (d.apply conv) ∧
      (g.name ∉ S → Table.get? r.rawEntries g.name = some x.toRaw)

variable {es : Object} {S : List String} {fs : List (String × Converter)}
  {typed : List (String × Value)}

theorem exists_reread (h : HasPoints d) (hr : Saveable d r) (hS : S ⊆ stamps)
    (hoff : ∀ k ∉ S, Table.get? es k = Table.get? r.rawEntries k)
    (hon : ∀ g ∈ d.catalog.allFields r.schema, g.name ∈ S → ∀ conv, Builds d.catalog g.shape conv →
      ∃ x, d.apply conv ((Table.get? es g.name).getD .null) = .ok x) :
    ∃ fs typed, Reread d r S es fs typed := by
  obtain ⟨fs, hb⟩ := h.exists_builds hr.schema
  obtain ⟨fs', heq, hnames, hfields⟩ := hb.of_record
  cases heq
  have hread : ∀ g ∈ d.catalog.allFields r.schema, ∀ conv, Builds d.catalog g.shape conv →
      ∃ x, d.apply conv ((Table.get? es g.name).getD .null) = .ok x ∧
        x.RereadBy (d.apply conv) ∧
        (g.name ∉ S → Table.get? r.rawEntries g.name = some x.toRaw) := by
    intro g hg conv hconv
    by_cases hname : g.name ∈ S
    · obtain ⟨x, hx⟩ := hon g hg hname conv hconv
      exact ⟨x, hx, h.reread_stamp hr.schema hg (hS hname) hconv hx, fun hno => absurd hname hno⟩
    · obtain ⟨y, hy, hraw⟩ := hr.raw_field hg
      obtain ⟨x, hx, hxraw⟩ := hr.field g hg conv hconv y hy
      refine ⟨x, ?_, ⟨x, hxraw ▸ hx, rfl⟩, fun _ => by rw [hraw, hxraw]⟩
      rw [hoff _ hname, hraw]
      exact hx
  have hall : ∀ f ∈ fs, ∃ x, d.apply f.2 ((Table.get? es f.1).getD .null) = .ok x := by
    intro f hf
    obtain ⟨g, hg, hname, hconv⟩ := hfields f hf
    obtain ⟨x, hx, -⟩ := hread g hg f.2 hconv
    exact ⟨x, hname ▸ hx⟩
  obtain ⟨typed, htyped⟩ := Domain.exists_fields hall []
  refine ⟨fs, typed, hb, htyped, fun g hg conv hconv => ?_⟩
  obtain ⟨conv', hmem, hconv'⟩ := exists_converter hb hg
  cases hconv'.det hconv
  obtain ⟨x, hx, happly⟩ := Domain.get?_fields htyped (h.fills hr.schema hb).hooked.nodup _ hmem
  obtain ⟨x', hx', hrest⟩ := hread g hg _ hconv
  cases hx'.symm.trans happly
  exact ⟨x, hx, happly, hrest⟩

namespace Reread

theorem declared (ht : Reread d r S es fs typed) (h : HasPoints d) (hr : Saveable d r)
    (k : String) :
    Table.has typed k = true ↔ d.catalog.Declares r.schema k := by
  have hd := (h.fills hr.schema ht.builds).hooked
  rw [hd.has_fields ht.made, decide_eq_true_iff, hd.names]
  rfl

theorem exists_field (ht : Reread d r S es fs typed) {k : String}
    (hk : d.catalog.Declares r.schema k) :
    ∃ x, Table.get? typed k = some x ∧ (k ∉ S → Table.get? r.rawEntries k = some x.toRaw) := by
  obtain ⟨g, hg, rfl⟩ := List.mem_map.1 hk
  obtain ⟨conv, -, hconv⟩ := exists_converter ht.builds hg
  obtain ⟨x, hx, -, -, hraw⟩ := ht.field g hg conv hconv
  exact ⟨x, hx, hraw⟩

theorem present (ht : Reread d r S es fs typed) (h : HasPoints d) (hr : Saveable d r)
    (hS : S ⊆ stamps) {e : String × Shape} (he : e ∈ fillShapes) {x : Value}
    (hx : Table.get? typed e.1 = some x) : x.toRaw ≠ .null := by
  have hdecl := (ht.declared h hr e.1).1 (by rw [Table.has, hx]; rfl)
  obtain ⟨x', hx', hraw⟩ := ht.exists_field hdecl
  cases hx'.symm.trans hx
  have hoffS : e.1 ∉ S := fun hmem => by
    have hall : ∀ e ∈ fillShapes, e.1 ∉ stamps := by decide
    exact hall e he (hS hmem)
  obtain ⟨g, hg, hname⟩ := List.mem_map.1 hdecl
  obtain ⟨y, hy, hyraw⟩ := hr.raw_field hg
  rw [hname] at hy hyraw
  have hsame := (hraw hoffS).symm.trans hyraw
  rw [Option.some.inj hsame]
  exact hr.present e he y hy

theorem assemble_eq (ht : Reread d r S es fs typed) (h : HasPoints d) (hr : Saveable d r)
    (hS : S ⊆ stamps) : d.catalog.assemble r.schema typed es =
      ⟨r.schema, typed, Catalog.extras typed es⟩ := by
  rw [(h.fills hr.schema ht.builds).hooked.assemble_eq ht.made]
  refine Record.fillAll_eq_self fun e he x hx => ?_
  obtain ⟨s, hs⟩ := exists_fillShape he
  exact Bool.eq_false_iff.2 fun hnull => ht.present h hr hS hs hx (toRaw_of_isNull hnull)

theorem raw_eq (ht : Reread d r S es fs typed) (h : HasPoints d) (hr : Saveable d r)
    (hes : Table.Sorted es) (hoff : ∀ k ∉ S, Table.get? es k = Table.get? r.rawEntries k)
    {k : String} (hk : k ∉ S) :
    Table.get? (Record.mk r.schema typed (Catalog.extras typed es)).rawEntries k =
      Table.get? r.rawEntries k := by
  rw [Record.get?_rawEntries (Domain.sorted_fields ht.made Table.sorted_nil)
    (Catalog.sorted_extras hes)]
  by_cases hdecl : Table.has typed k = true
  · obtain ⟨x, hx, hxraw⟩ := ht.exists_field ((ht.declared h hr k).1 hdecl)
    rw [hx, hxraw hk]
    rfl
  · have hnone : Table.get? typed k = none := by simpa [Table.has] using hdecl
    rw [hnone, Option.none_or, Catalog.get?_extras, if_neg hdecl, hoff k hk, Option.map_map]
    cases Table.get? r.rawEntries k <;> rfl

end Reread

/-- A payload that has the entries of a point, stamps aside, is read as a point that has them too
and can be saved as well. -/
theorem reread (h : HasPoints d) (hr : Saveable d r) (hS : S ⊆ stamps) (hes : Table.Sorted es)
    (hoff : ∀ k ∉ S, Table.get? es k = Table.get? r.rawEntries k)
    (hon : ∀ g ∈ d.catalog.allFields r.schema, g.name ∈ S → ∀ conv, Builds d.catalog g.shape conv →
      ∃ x, d.apply conv ((Table.get? es g.name).getD .null) = .ok x) :
    ∃ q, d.record Id.point (.obj es) = .ok q ∧ Saveable d q ∧ q.schema = r.schema ∧
      ∀ k ∉ S, Table.get? q.rawEntries k = Table.get? r.rawEntries k := by
  obtain ⟨fs, typed, ht⟩ := exists_reread h hr hS hoff hon
  have hq := ht.assemble_eq h hr hS
  have hwhole : Record.Whole d.catalog ⟨r.schema, typed, Catalog.extras typed es⟩ := by
    rw [← hq]
    exact (Record.Whole.assemble (Domain.sorted_fields ht.made Table.sorted_nil)
      (ht.declared h hr) hes).1
  have htag : pointTag es = pointTag r.rawEntries := by
    unfold pointTag
    rw [hoff _ fun hmem => absurd (hS hmem) (by decide)]
  refine ⟨⟨r.schema, typed, Catalog.extras typed es⟩, h.record_obj_iff.2 ?_,
    ⟨hwhole, hr.schema, ?_, ?_, fun e he x => ht.present h hr hS he⟩, rfl,
    fun k => ht.raw_eq h hr hes hoff⟩
  · rw [htag, hr.tag]
    exact ⟨fs, typed, ht.builds, ht.made, hq⟩
  · unfold pointTag
    rw [ht.raw_eq h hr hes hoff fun hmem => absurd (hS hmem) (by decide)]
    exact hr.tag
  · intro g hg conv hconv y hy
    obtain ⟨x, hx, -, hxread, -⟩ := ht.field g hg conv hconv
    cases hx.symm.trans hy
    exact hxread

/-! ## Points that can be saved stay so -/

theorem get?_rawEntries_put (hr : r.Whole d.catalog) (name : String) (v : Value) (k : String) :
    Table.get? (r.put name v).rawEntries k =
      if k = name then some v.toRaw else Table.get? r.rawEntries k := by
  rw [Record.get?_rawEntries (r := r.put name v) (Table.sorted_put hr.sortedFields name v)
    hr.sortedExtra, Record.get?_rawEntries hr.sortedFields hr.sortedExtra]
  show ((Table.get? (Table.put r.fields name v) k).or _).map Value.toRaw = _
  rw [Table.get?_put]
  split <;> rfl

theorem put_meta (h : HasPoints d) (hr : Saveable d r) {entries : List (MapKey × Value)}
    (hkeys : ∀ e ∈ entries, ∃ s, e.1 = .str s) : Saveable d (r.put "meta" (.map entries)) := by
  have hshape : ∀ id ∈ pointIds, ∀ g ∈ schemas.allFields id, g.name = "meta" →
      g.shape = .map .str .any := by decide
  have hget : ∀ k, (r.put "meta" (.map entries)).get? k =
      if k = "meta" then some (.map entries) else r.get? k :=
    fun k => Table.get?_put r.fields "meta" k _
  refine ⟨hr.whole.put (h.declares hr.schema (by decide)) _, hr.schema, ?_,
    fun g hg conv hconv y hy => ?_, fun e he y hy => ?_⟩
  · unfold pointTag
    rw [get?_rawEntries_put hr.whole, if_neg (by decide)]
    exact hr.tag
  · rw [hget] at hy
    split at hy
    · next hname =>
      cases hy
      change g ∈ d.catalog.allFields r.schema at hg
      rw [h.allFields_eq hr.schema] at hg
      rw [hshape _ hr.schema g hg hname] at hconv
      rw [eq_bucket_of_builds hconv]
      exact Domain.rereadBy_bucket hkeys
    · exact hr.field g hg conv hconv y hy
  · rw [hget] at hy
    split at hy
    · cases hy
      rw [Value.toRaw]
      exact fun hnull => by cases hnull
    · exact hr.present e he y hy

end Saveable

/-- A finite point with values of its shapes can be saved, if its tag leads to its schema and the
fields that hooks fill are not absent. -/
theorem HasPoints.saveable (h : HasPoints d) {r : Record} (hid : r.schema ∈ pointIds)
    (hwhole : r.Whole d.catalog) (htyped : r.Typed d) (hfin : (Value.record r).IsFinite)
    (htag : pointMember (pointTag r.rawEntries) = r.schema)
    (hpresent : ∀ e ∈ fillShapes, ∀ y, r.get? e.1 = some y → y.isNull = false) : Saveable d r := by
  refine ⟨hwhole, hid, htag, fun g hg conv hconv y hy => ?_, fun e he y hy hnull => ?_⟩
  · obtain ⟨v, hv, hshape⟩ := htyped g hg
    cases hv.symm.trans hy
    exact reread_field (h.shape_mem_pointShapes hid hg) hconv hshape (Record.all_of_get? hfin hy)
  · have := isNull_of_toRaw (Record.all_of_get? hfin hy) hnull
    rw [hpresent e he y hy] at this
    cases this

end Farm

end GardenMap
