import GardenMap.Proofs.Phrase.Offsets
import GardenMap.Proofs.Query.Complements
import GardenMap.Proofs.Query.Instants
import GardenMap.Proofs.Record.RelativeUpdates
import GardenMap.Proofs.Time.Spans

/-!
# Offsets in updates and in queries

Updates read offsets with their own reader, queries read them as date expressions. The two agree on
every text (`offsets_read_alike`): an update of a field of instants leaves the instant whose text
the filter of a clause on that field asks for. The filter asks for something else only where the
field is the discriminator of the family of the target, whose tag is written last
(`tag_replaces_instant`).
-/

namespace GardenMap

def Catalog.HasInstants (c : Catalog) (id : SchemaId) (key : String) : Prop :=
  ∃ f, c.field? id key = some f ∧ (f.shape = .datetime ∨ f.shape = .optional .datetime)

namespace Record

variable {d : Domain} {r : Record} {now : Instant} {text : String} {span : Span}

theorem eq_of_append_datetime {current sum : Value} {t : Instant}
    (h : current.append (.datetime t) = .ok sum) : sum = .datetime t := by
  cases current with
  | null => exact (Except.ok.inj h).symm
  | raw v =>
    cases v with
    | null => exact (Except.ok.inj h).symm
    | _ => cases h
  | _ => cases h

theorem apply_offset (hread : Phrase.readOffset text.toList = .ok (some span))
    {t : Instant} (ht : now.add? span = some t) {key marked : String} {append : Bool}
    (hmark : splitMark appendMark marked = (key, append))
    (hf : d.catalog.HasInstants r.schema key) :
    r.apply d now [(marked, .str text)] =
      match r.written key (.datetime t.asRead) append with
      | .ok sum => (r.put key sum, .ok ())
      | .error e => (r.put key .null,
          .error (.rejected r.schema.name (.str t.text)
            (.misfit ((ConvertError.here (.append e)).under key)))) := by
  obtain ⟨f, hf, hshape⟩ := hf
  obtain ⟨hdate, conv, hconv, htyped⟩ := exists_typed_instant d t hshape
  have hresolve := resolveRelative_instant hread ht
  rw [← hdate] at hresolve
  rw [apply, update_field hmark hf hresolve hconv htyped]
  cases r.written key (.datetime t.asRead) append <;> rfl

theorem eq_of_written {key : String} {append : Bool} {sum : Value} {t : Instant}
    (h : r.written key (.datetime t) append = .ok sum) : sum = .datetime t := by
  cases append with
  | false => exact (Except.ok.inj h).symm
  | true => exact eq_of_append_datetime h

theorem apply_of_outOfCalendar (hread : Phrase.readOffset text.toList = .ok (some span))
    (hout : now.add? span = none) {key marked : String} {append : Bool}
    (hmark : splitMark appendMark marked = (key, append))
    (hf : d.catalog.HasInstants r.schema key) :
    r.apply d now [(marked, .str text)] = (r, .error .outOfCalendar) := by
  obtain ⟨f, hf, hshape⟩ := hf
  have hdate : f.shape.isDate = false := by
    rcases hshape with h | h <;> rw [h] <;> rfl
  have hresolve : resolveRelative now f.shape.isDate (.str text) = none := by
    simp only [resolveRelative, hdate, hread, hout, Bool.false_eq_true, if_false, Option.map_none]
  simp only [apply, update, hmark, hf, Option.any_some, hresolve]

end Record

namespace Clause

variable {now : Instant} {q : Clause}

theorem meaning_offset {text : String} {span : Span} (hq : q.value = .str text)
    (h : Phrase.readOffset text.toList = .ok (some span)) :
    q.meaning now =
      match now.add? span with
      | none => .error .outOfCalendar
      | some t => .ok (.literal (.str t.text)) := by
  obtain ⟨m, hread, hm⟩ := (Phrase.readOffset_eq_some_iff _ _).1 h
  have hresolve : m.resolve? now = now.add? span := by
    rcases hm with rfl | ⟨rfl, rfl⟩
    · rfl
    · exact now.add?_zero.symm
  rw [meaning, hq]
  simp only [hread, hresolve]
  cases now.add? span <;> rfl

end Clause

namespace Plan

variable {d : Domain} {target : SchemaId} {now : Instant} {key text : String} {span : Span}

theorem compile_offset (hread : Phrase.readOffset text.toList = .ok (some span))
    {t : Instant} (ht : now.add? span = some t) {q : Clause} (hq : q.target = (key, false))
    (hvalue : q.value = .str text) (hkey : key ≠ "") (hf : d.catalog.HasInstants target key) :
    compile d target now [q] =
      .ok ⟨target, Draft.tagged d.catalog target [(key, .str t.text)], []⟩ := by
  obtain ⟨f, hf, hshape⟩ := hf
  have hm : q.meaning now = .ok (.literal (.str t.text)) := by
    rw [Clause.meaning_offset hvalue hread, ht]
  have hdirect : ¬Clause.Nested d.catalog target key := fun h => by
    rw [Clause.Nested, hf] at h
    cases h.1
  rw [compile_literal hq hkey hm, hf, Clause.typed_instant t hshape, Clause.entry_direct hdirect]
  rfl

theorem ne_empty_of_compile {q : Clause} (hq : q.target = (key, false)) {plan : Plan}
    (h : compile d target now [q] = .ok plan) : key ≠ "" := by
  rintro rfl
  simp only [compile, List.foldlM_cons, Draft.add_eq, hq] at h
  cases h

end Plan

/-- A text is an offset for updates exactly when it is an unqualified date expression for that
offset, or for now and the offset is none, and an error in updates is the same error in queries.

So an update of a field of instants by an offset, when it succeeds, leaves the instant whose text
the filter of a clause with that offset asks for, if the field is not the discriminator of the
family. An update that does not append succeeds, and so does a clause whose key is not empty, unless
the offset leads beyond the calendar. -/
theorem offsets_read_alike :
    (∀ s span, Phrase.readOffset s = .ok (some span) ↔
      ∃ m, Phrase.readDateExpr s = .ok (some ⟨none, m⟩) ∧
        (m = .offset span ∨ m = .now ∧ span = .zero)) ∧
    (∀ s e, Phrase.readOffset s = .error e → Phrase.readDateExpr s = .error e) ∧
    ∀ (d : Domain) (r : Record) (target : SchemaId) (now : Instant) (key marked text : String)
      (append : Bool) (q : Clause) (span : Span),
      Phrase.readOffset text.toList = .ok (some span) →
      d.catalog.HasInstants r.schema key → splitMark appendMark marked = (key, append) →
      d.catalog.HasInstants target key → q.target = (key, false) → q.value = .str text →
      (∀ family, d.catalog.family? target = some family → family.discriminator ≠ key) →
      (now.add? span = none →
        r.apply d now [(marked, .str text)] = (r, .error .outOfCalendar) ∧
        (key ≠ "" → Plan.compile d target now [q] = .error .outOfCalendar)) ∧
      ∀ t, now.add? span = some t →
        (append = false → (r.apply d now [(marked, .str text)]).2 = .ok ()) ∧
        (∀ r', r.apply d now [(marked, .str text)] = (r', .ok ()) →
          (r'.get? key).map Value.toRaw = some (.str t.text)) ∧
        (key ≠ "" → ∃ plan, Plan.compile d target now [q] = .ok plan) ∧
        ∀ plan, Plan.compile d target now [q] = .ok plan →
          Table.get? plan.filter key = some (.str t.text) := by
  refine ⟨Phrase.readOffset_eq_some_iff, fun s e => Phrase.readDateExpr_of_error, ?_⟩
  intro d r target now key marked text append q span hread hr hmark hf hq hvalue htag
  refine ⟨fun hout => ⟨Record.apply_of_outOfCalendar hread hout hmark hr, fun hkey => ?_⟩,
    fun t ht => ?_⟩
  · refine Plan.compile_of_meaning_error hq hkey ?_
    rw [Clause.meaning_offset hvalue hread, hout]
  · have happly := Record.apply_offset hread ht hmark hr
    refine ⟨?_, ?_, ?_, ?_⟩
    · rintro rfl
      rw [happly]
      rfl
    · intro r' h
      rw [happly] at h
      split at h
      · next sum hsum =>
        cases h
        rw [Record.get?_put_self, Record.eq_of_written hsum]
        exact congrArg (some ∘ Json.str) t.text_asRead
      · cases h
    · intro hkey
      exact ⟨_, Plan.compile_offset hread ht hq hvalue hkey hf⟩
    · intro plan hplan
      have hkey : key ≠ "" := Plan.ne_empty_of_compile hq hplan
      rw [Plan.compile_offset hread ht hq hvalue hkey hf] at hplan
      cases hplan
      rw [Draft.get?_tagged_of_ne htag, Table.get?_cons, if_pos rfl]

/-- A day before noon, in a point and in a filter of points. -/
theorem offsets_read_alike_on_points : ∃ r' plan,
    Farm.origin.apply Farm.domain Record.noon [("created_at", .str "1 Day ago")] = (r', .ok ()) ∧
    (r'.get? "created_at").map Value.toRaw = some (.str "2024-02-27T12:00:00.000Z") ∧
    Plan.compile Farm.domain Farm.Id.point Record.noon [⟨"created_at", .str "1 Day ago"⟩] =
      .ok plan ∧
    Table.get? plan.filter "created_at" = some (.str "2024-02-27T12:00:00.000Z") := by
  have hread : Phrase.readOffset "1 Day ago".toList = .ok (some ⟨-86400⟩) := by rfl
  have hbefore : Record.noon.add? ⟨-86400⟩ = some ⟨1709035200, 0, by decide⟩ := by decide +kernel
  have htext : (⟨1709035200, 0, by decide⟩ : Instant).text = "2024-02-27T12:00:00.000Z" := by
    decide +kernel
  have hpoint : Farm.domain.catalog.HasInstants Farm.Id.point "created_at" :=
    ⟨⟨"created_at", .datetime⟩, by decide +kernel, .inl rfl⟩
  obtain ⟨-, hin⟩ := offsets_read_alike.2.2 Farm.domain Farm.origin Farm.Id.point Record.noon
    "created_at" "created_at" "1 Day ago" false ⟨"created_at", .str "1 Day ago"⟩ ⟨-86400⟩ hread
    hpoint rfl hpoint rfl rfl (by decide +kernel)
  obtain ⟨hsucceeds, hleaves, hcompiles, hasks⟩ := hin _ hbefore
  obtain ⟨plan, hplan⟩ := hcompiles (by decide)
  rw [htext] at hleaves hasks
  exact ⟨_, plan, Prod.ext rfl (hsucceeds rfl), hleaves _ (Prod.ext rfl (hsucceeds rfl)), hplan,
    hasks plan hplan⟩

/-- At the discriminator of the family the filter asks for the tag, not for the instant. -/
theorem tag_replaces_instant :
    ¬∀ (d : Domain) (target : SchemaId) (now : Instant) (key text : String) (q : Clause)
      (span : Span), Phrase.readOffset text.toList = .ok (some span) →
      d.catalog.HasInstants target key → q.target = (key, false) → q.value = .str text →
      ∀ t, now.add? span = some t → ∀ plan, Plan.compile d target now [q] = .ok plan →
        Table.get? plan.filter key = some (.str t.text) := by
  intro h
  have hread : Phrase.readOffset "now".toList = .ok (some .zero) := rfl
  have hnow := Record.noon.add?_zero
  have hfield : stampedPoints.catalog.HasInstants stampedSchema.id Farm.pointerType :=
    ⟨⟨Farm.pointerType, .datetime⟩, by decide +kernel, .inl rfl⟩
  have hcompile := Plan.compile_offset hread hnow
    (show Clause.target ⟨Farm.pointerType, .str "now"⟩ = (Farm.pointerType, false) from by decide)
    rfl (by decide) hfield
  have hfilter := h _ _ _ _ _ _ _ hread hfield (by decide) rfl _ hnow _ hcompile
  have htag : Table.get? (Draft.tagged stampedPoints.catalog stampedSchema.id
      [(Farm.pointerType, .str Record.noon.text)]) Farm.pointerType = some (.str "Stamped") := by
    rfl
  rw [htag, Option.some.injEq, Json.str.injEq] at hfilter
  exact absurd hfilter (by decide +kernel)

end GardenMap
