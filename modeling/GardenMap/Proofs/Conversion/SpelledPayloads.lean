import GardenMap.Farm.Schemas
import GardenMap.Proofs.Conversion.Shapes
import GardenMap.Proofs.Literal.Rendering

/-!
# Texts and the literals they spell

Under a shape that reads text as a literal, a text is converted like the literal that it spells, to
the same value or with the same error (`Domain.apply_text`). The exception is text for null under
lists and mappings: it is an error there, where null itself is absent. Records take it.

Proof. By the shape. A single value and a record only see what the text spells. Lists and mappings
do as well, apart from null. An optional shape takes the text `None` for itself and hands every
other text on.
-/

namespace GardenMap

/-- Text is read as a literal under the shape. -/
inductive Shape.ReadsText : Shape → Prop
  | bool : ReadsText .bool
  | int : ReadsText .int
  | float : ReadsText .float
  | list (item : Shape) : ReadsText (.list item)
  | map (key value : Shape) : ReadsText (.map key value)
  | record (id : SchemaId) : ReadsText (.record id)
  | optional {inner : Shape} (h : ReadsText inner) : ReadsText (.optional inner)
  | union {members : List Shape} {only : Shape} (hm : concrete members = [only])
      (h : ReadsText only) : ReadsText (.union members)

/-- A text that spells null does not reach the shape as null: something else was expected. -/
inductive Shape.RefusesNull (text : String) : Shape → String → Prop
  | list (item : Shape) : RefusesNull text (.list item) "a list"
  | map (key value : Shape) : RefusesNull text (.map key value) "a mapping"
  | optional {inner : Shape} {what : String} (htext : text ≠ "None")
      (h : RefusesNull text inner what) : RefusesNull text (.optional inner) what
  | union {members : List Shape} {only : Shape} {what : String} (hm : concrete members = [only])
      (htext : hasNull members = true → text ≠ "None") (h : RefusesNull text only what) :
      RefusesNull text (.union members) what

/-! ## Payloads -/

namespace Payload

variable {text : String} {v : Json}

theorem literal_eq_ok (hread : Literal.read text = .ok v) : literal text = .ok v :=
  Scalar.literal_of_read hread

theorem spelled_of_not_text (hv : ∀ s, v ≠ .str s) : spelled v = .ok v := by
  cases v with
  | str s => exact absurd rfl (hv s)
  | _ => rfl

theorem record_text (hread : Literal.read text = .ok v) (hv : ∀ s, v ≠ .str s) :
    record (.str text) = record v := by
  unfold record
  rw [Scalar.literal_of_read hread, spelled_of_not_text hv]

theorem items_text (hread : Literal.read text = .ok v) (hv : ∀ s, v ≠ .str s)
    (hnull : v ≠ .null) : items (.str text) = items v := by
  cases v with
  | null => exact absurd rfl hnull
  | str s => exact absurd rfl (hv s)
  | _ =>
    unfold items
    simp only [literal_eq_ok hread]
    rfl

theorem items_null (hread : Literal.read text = .ok .null) :
    items (.str text) = unexpected "a list" .null := by
  unfold items
  simp only [literal_eq_ok hread]
  rfl

theorem entries_text (hread : Literal.read text = .ok v) (hv : ∀ s, v ≠ .str s)
    (hnull : v ≠ .null) : entries (.str text) = entries v := by
  cases v with
  | null => exact absurd rfl hnull
  | str s => exact absurd rfl (hv s)
  | _ =>
    unfold entries
    simp only [literal_eq_ok hread]
    rfl

theorem entries_null (hread : Literal.read text = .ok .null) :
    entries (.str text) = unexpected "a mapping" .null := by
  unfold entries
  simp only [literal_eq_ok hread]
  rfl

end Payload

/-! ## Conversions -/

namespace Domain

variable {d : Domain} {text : String} {v : Json}

/-- What a text that spells `v` is converted to, beside `v` itself. -/
structure AsSpelled (d : Domain) (s : Shape) (conv : Converter) (text : String) (v : Json) :
    Prop where
  same : (v = .null → ∀ what, ¬s.RefusesNull text what) →
    d.apply conv (.str text) = d.apply conv v
  refused : ∀ what, v = .null → s.RefusesNull text what →
    d.apply conv (.str text) = .error (.here (.expected what .null))

theorem asSpelled_scalar {s : Shape} {kind : Scalar} (hs : ∀ what, ¬s.RefusesNull text what)
    (h : kind.convert (.str text) = kind.convert v) : d.AsSpelled s (.scalar kind) text v where
  same _ := by rw [apply_scalar, h]
  refused what _ href := absurd href (hs what)

theorem asSpelled_nullable {s inner : Shape} {conv : Converter}
    (hread : Literal.read text = .ok v) (hv : ∀ u, v ≠ .str u)
    (hs : ∀ what, s.RefusesNull text what ↔ text ≠ "None" ∧ inner.RefusesNull text what)
    (h : d.AsSpelled inner conv text v) : d.AsSpelled s (.nullable conv) text v := by
  have hother : text ≠ "None" → d.apply (.nullable conv) (.str text) = d.apply conv (.str text) :=
    fun htext => by
      rw [apply_nullable, Payload.isNone_eq_false (by simp) (by simpa using htext)]
      rfl
  refine ⟨fun hsame => ?_, fun what hnull href => ?_⟩
  · by_cases htext : text = "None"
    · -- this text is not handed on, and the null that it spells is absent here as well
      subst htext
      obtain rfl : v = .null := Except.ok.inj (hread.symm.trans rfl)
      rw [apply_nullable, apply_nullable]
      rfl
    rw [hother htext, h.same fun hnull what href => hsame hnull what ((hs what).2 ⟨htext, href⟩)]
    by_cases hnull : v = .null
    · rw [hnull, apply_null, apply_null]
    · rw [apply_nullable, Payload.isNone_eq_false hnull (hv "None")]
      rfl
  · obtain ⟨htext, href⟩ := (hs what).1 href
    rw [hother htext]
    exact h.refused what hnull href

theorem asSpelled {s : Shape} (hs : s.ReadsText) {conv : Converter}
    (hb : Builds d.catalog s conv) (hread : Literal.read text = .ok v)
    (hv : ∀ u, v ≠ .str u) : d.AsSpelled s conv text v := by
  have hspelled : Payload.spelled (.str text) = Payload.spelled v := by
    rw [Scalar.literal_of_read hread, Payload.spelled_of_not_text hv]
  induction hs generalizing conv with
  | bool =>
    obtain rfl := hb.of_single (show Shape.bool.scalar? = some .bool from rfl)
    exact asSpelled_scalar nofun (congrArg (· >>= Scalar.toBool) hspelled)
  | int =>
    obtain rfl := hb.of_single (show Shape.int.scalar? = some .int from rfl)
    exact asSpelled_scalar nofun (congrArg (· >>= Scalar.toInt) hspelled)
  | float =>
    obtain rfl := hb.of_single (show Shape.float.scalar? = some .float from rfl)
    exact asSpelled_scalar nofun (congrArg (· >>= Scalar.toFloat) hspelled)
  | list item =>
    obtain ⟨part, rfl, -⟩ := hb.of_list
    refine ⟨fun hsame => ?_, fun what hnull href => ?_⟩
    · have hnull : v ≠ .null := fun hnull => hsame hnull _ (.list item)
      rw [apply_list, apply_list, Payload.items_text hread hv hnull]
    · cases href
      subst hnull
      rw [apply_list, Payload.items_null hread]
      rfl
  | map key value =>
    obtain ⟨kind, part, -, rfl, -⟩ := hb.of_map
    refine ⟨fun hsame => ?_, fun what hnull href => ?_⟩
    · have hnull : v ≠ .null := fun hnull => hsame hnull _ (.map key value)
      rw [apply_map, apply_map, Payload.entries_text hread hv hnull]
    · cases href
      subst hnull
      rw [apply_map, Payload.entries_null hread]
      rfl
  | record id =>
    obtain ⟨fs, rfl, -⟩ := hb.of_record
    refine ⟨fun _ => ?_, nofun⟩
    rw [apply_record, apply_record, Payload.record_text hread hv]
  | @optional inner _ ih =>
    obtain ⟨part, rfl, hpart⟩ := hb.of_optional
    refine asSpelled_nullable hread hv (fun what => ⟨fun h => ?_, fun h => .optional h.1 h.2⟩)
      (ih hpart)
    cases h with
    | optional htext h => exact ⟨htext, h⟩
  | @union members only hm _ ih =>
    obtain ⟨hempty, -⟩ | ⟨only', part, hm', hpart, rfl⟩ := hb.of_union
    · rw [hm] at hempty
      cases hempty
    cases hm.symm.trans hm'
    have hinv : ∀ what, (Shape.union members).RefusesNull text what →
        (Shape.hasNull members = true → text ≠ "None") ∧ only.RefusesNull text what := by
      intro what h
      cases h with
      | union hm' htext h =>
        cases hm.symm.trans hm'
        exact ⟨htext, h⟩
    split
    · next hnull =>
      exact asSpelled_nullable hread hv (fun what =>
        ⟨fun h => ⟨(hinv what h).1 hnull, (hinv what h).2⟩, fun h => .union hm (fun _ => h.1) h.2⟩)
        (ih hpart)
    · next hnull =>
      have h := ih hpart
      exact ⟨fun hsame => h.same fun hv what href =>
          hsame hv what (.union hm (fun hn => absurd hn hnull) href),
        fun what hv href => h.refused what hv (hinv what href).2⟩

/-- A text is converted like the literal that it spells, except that lists and mappings refuse a
text for null. -/
theorem apply_text {s : Shape} (hs : s.ReadsText) {conv : Converter}
    (hconv : d.catalog.converter s = .ok conv) (hread : Literal.read text = .ok v)
    (hv : ∀ u, v ≠ .str u) :
    ((v = .null → ∀ what, ¬s.RefusesNull text what) →
        d.apply conv (.str text) = d.apply conv v) ∧
      ∀ what, v = .null → s.RefusesNull text what →
        d.apply conv (.str text) = .error (.here (.expected what .null)) ∧
          d.apply conv v = .ok .null := by
  have h : d.AsSpelled s conv text v := asSpelled hs (Catalog.converter_eq_ok.1 hconv) hread hv
  refine ⟨h.same, fun what hnull href => ⟨h.refused what hnull href, ?_⟩⟩
  rw [hnull, apply_null]

theorem converter_ints :
    Farm.domain.catalog.converter (.list .int) = .ok (.list (.scalar .int)) :=
  Catalog.converter_eq_ok.2 (.list (.single rfl))

theorem read_ints : Literal.read "[1, 2]" = .ok (.arr [.int 1, .int 2]) := by
  have hdigit : ∀ c : Char, c.isDigit = true → Literal.Digits [c] :=
    fun c hc => ⟨nofun, List.forall_mem_singleton.2 hc⟩
  have hone : Literal.Written ['1'] (.int 1) :=
    @Literal.Written.int _ ['1'] _ .none (hdigit _ rfl) rfl
  have htwo : Literal.Written ['2'] (.int 2) :=
    @Literal.Written.int _ ['2'] _ .none (hdigit _ rfl) rfl
  have hspaced : Literal.Renders [' ', '2'] (.int 2) :=
    @Literal.Renders.mk [' '] ['2'] [] _ (by decide) htwo Literal.gap_nil
  have hlist : Literal.Renders "[1, 2]".toList (.arr [.int 1, .int 2]) :=
    .of_written (.list (.items (.more (.of_written hone) (.one hspaced))))
  exact Literal.readChars_eq_ok_iff.2 (Literal.spells_of_renders hlist)

theorem apply_text_ints :
    (Shape.list .int).ReadsText ∧
      Farm.domain.catalog.converter (.list .int) = .ok (.list (.scalar .int)) ∧
      Literal.read "[1, 2]" = .ok (.arr [.int 1, .int 2]) ∧
      Farm.domain.apply (.list (.scalar .int)) (.str "[1, 2]") =
        Farm.domain.apply (.list (.scalar .int)) (.arr [.int 1, .int 2]) := by
  exact ⟨.list .int, converter_ints, read_ints,
    (apply_text (.list .int) converter_ints read_ints nofun).1 nofun⟩

/-- The text `None` spells null, which is absent under lists, but the text is an error. -/
theorem text_for_null_is_refused :
    (Shape.list .int).ReadsText ∧
      Farm.domain.catalog.converter (.list .int) = .ok (.list (.scalar .int)) ∧
      Literal.read "None" = .ok .null ∧
      Farm.domain.apply (.list (.scalar .int)) (.str "None") =
        .error (.here (.expected "a list" .null)) ∧
      Farm.domain.apply (.list (.scalar .int)) .null = .ok .null := by
  refine ⟨.list .int, converter_ints, rfl, ?_, apply_null _⟩
  rw [apply_list, Payload.items_null rfl]
  rfl

end Domain

end GardenMap
