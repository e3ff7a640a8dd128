import GardenMap.Proofs.Query.ClauseOrder
import GardenMap.Proofs.Record.RelativeUpdates
import GardenMap.Proofs.Time.Spans

/-!
# Relative dates beyond the calendar

Counts that no span holds are refused by queries and kept as text by updates. A span that is held is
added to now without a look at the calendar. So queries and updates break off with a date out of
range exactly when they come to a relative date whose second lies outside of the calendar
(`outOfCalendar_iff`).

Proof. No other fault of a clause or of a value is a date out of range, so one clause or one update
breaks off like that only when its text is a relative date, and now cannot be moved by its span. A
list breaks off where the first of its elements does (`foldlM_eq_error_iff`), with what the elements
before it have come to.
-/

namespace GardenMap

theorem foldlM_eq_error_iff {α β ε : Type} (f : β → α → Except ε β) (l : List α) (b : β) (e : ε) :
    l.foldlM f b = .error e ↔ ∃ before a after b', l = before ++ a :: after ∧
      before.foldlM f b = .ok b' ∧ f b' a = .error e := by
  induction l generalizing b with
  | nil =>
    refine ⟨nofun, ?_⟩
    rintro ⟨before, a, after, b', h, -⟩
    cases before <;> cases h
  | cons x l ih =>
    rw [List.foldlM_cons]
    cases hx : f b x with
    | error e' =>
      constructor
      · rintro ⟨⟩
        exact ⟨[], x, l, b, rfl, rfl, hx⟩
      · rintro ⟨before, a, after, b', h, hbefore, ha⟩
        cases before with
        | nil =>
          cases h
          cases hbefore
          exact hx.symm.trans ha
        | cons y before =>
          cases h
          rw [List.foldlM_cons, hx] at hbefore
          cases hbefore
    | ok next =>
      refine (ih next).trans ⟨?_, ?_⟩
      · rintro ⟨before, a, after, b', rfl, hbefore, ha⟩
        refine ⟨x :: before, a, after, b', rfl, ?_, ha⟩
        rw [List.foldlM_cons, hx]
        exact hbefore
      · rintro ⟨before, a, after, b', h, hbefore, ha⟩
        cases before with
        | nil =>
          cases h
          cases hbefore
          rw [hx] at ha
          cases ha
        | cons y before =>
          cases h
          rw [List.foldlM_cons, hx] at hbefore
          exact ⟨before, a, after, b', rfl, hbefore, ha⟩

/-! ## Queries -/

namespace Clause

variable {d : Domain} {now : Instant} {q : Clause}

/-- The span of the relative date that the text of a clause is. -/
def span? (q : Clause) : Option Span :=
  match q.value with
  | .str text =>
    match Phrase.readDateExpr text.toList with
    | .ok (some ⟨_, .offset span⟩) => some span
    | _ => none
  | _ => none

theorem meaning_eq_outOfCalendar_iff :
    q.meaning now = .error .outOfCalendar ↔
      ∃ span, q.span? = some span ∧ now.LeavesCalendar span := by
  unfold meaning span?
  cases q.value with
  | str text =>
    simp only
    cases Phrase.readDateExpr text.toList with
    | error e => simp [refuse]
    | ok expr? =>
      cases expr? with
      | none =>
        cases Phrase.readThreshold text.toList with
        | error e => simp [refuse]
        | ok bound? => cases bound? <;> simp
      | some expr =>
        obtain ⟨qualifier, moment⟩ := expr
        cases moment with
        | offset span =>
          simp only [Moment.resolve?, Option.some.injEq, exists_eq_left', ← now.add?_eq_none_iff]
          cases now.add? span with
          | none => simp
          | some t => cases qualifier <;> simp
        | now => cases qualifier <;> simp [Moment.resolve?]
        | absolute t => cases qualifier <;> simp [Moment.resolve?]
  | _ => simp

theorem meaning_of_error {text : String} {e : PhraseError} (hq : q.value = .str text)
    (h : Phrase.readDateExpr text.toList = .error e) : q.meaning now = q.refuse (.phrase e) := by
  unfold meaning
  simp only [hq, h]

theorem typed_ne_outOfCalendar (declared : Option Field) (v : Json) :
    q.typed d declared v ≠ .error .outOfCalendar := by
  unfold typed refuse
  split
  · simp
  · split
    · simp
    · split <;> simp

end Clause

theorem Draft.add_eq_outOfCalendar_iff {d : Domain} {target : SchemaId} {now : Instant}
    {draft : Draft} {q : Clause} :
    draft.add d target now q = .error .outOfCalendar ↔
      q.target.1 ≠ "" ∧ q.meaning now = .error .outOfCalendar := by
  rw [Draft.add_eq]
  by_cases hkey : q.target.1 = ""
  · simp [hkey, Clause.refuse]
  · rw [if_neg (by simpa using hkey), and_iff_right hkey]
    cases q.meaning now with
    | error e => simp
    | ok m =>
      cases m with
      | comparison op operand => simp
      | literal v =>
        have hne := Clause.typed_ne_outOfCalendar (d := d) (q := q)
          (d.catalog.field? target q.target.1) v
        simp only [reduceCtorEq, iff_false]
        split
        · next e htyped =>
          rw [htyped] at hne
          simpa using hne
        · split
          · nofun
          · split <;> nofun

namespace Plan

variable {d : Domain} {target : SchemaId} {now : Instant} {clauses : List Clause}

theorem compile_eq_error_iff {e : Error} :
    compile d target now clauses = .error e ↔
      clauses.foldlM (Draft.add d target now) .empty = .error e := by
  unfold compile
  cases clauses.foldlM (Draft.add d target now) .empty with
  | error e' => exact ⟨fun h => by cases h; rfl, fun h => by cases h; rfl⟩
  | ok draft => exact ⟨nofun, nofun⟩

theorem compile_append_of_meaning_error {before after : List Clause} {q : Clause} {plan : Plan}
    {e : Error} (hbefore : compile d target now before = .ok plan) (hkey : q.target.1 ≠ "")
    (hm : q.meaning now = .error e) : compile d target now (before ++ q :: after) = .error e := by
  obtain ⟨draft, hdraft, -⟩ := compile_eq_ok hbefore
  refine compile_eq_error_iff.2 ((foldlM_eq_error_iff _ _ _ _).2
    ⟨before, q, after, draft, rfl, hdraft, ?_⟩)
  rw [Draft.add_eq, if_neg (by simpa using hkey), hm]

theorem compile_eq_outOfCalendar_iff :
    compile d target now clauses = .error .outOfCalendar ↔
      ∃ before q after, clauses = before ++ q :: after ∧
        (∃ plan, compile d target now before = .ok plan) ∧ q.target.1 ≠ "" ∧
        ∃ span, q.span? = some span ∧ now.LeavesCalendar span := by
  rw [compile_eq_error_iff, foldlM_eq_error_iff]
  constructor
  · rintro ⟨before, q, after, draft, h, hbefore, hq⟩
    obtain ⟨hkey, hmeaning⟩ := Draft.add_eq_outOfCalendar_iff.1 hq
    have hplan := exists_compile_iff.2 ((Draft.foldlM_eq_ok_iff _).1 ⟨draft, hbefore⟩)
    exact ⟨before, q, after, h, hplan, hkey, Clause.meaning_eq_outOfCalendar_iff.1 hmeaning⟩
  · rintro ⟨before, q, after, h, hbefore, hkey, hspan⟩
    obtain ⟨draft, hdraft⟩ := (Draft.foldlM_eq_ok_iff .empty).2 (exists_compile_iff.1 hbefore)
    exact ⟨before, q, after, draft, h, hdraft,
      Draft.add_eq_outOfCalendar_iff.2 ⟨hkey, Clause.meaning_eq_outOfCalendar_iff.2 hspan⟩⟩

end Plan

/-! ## Updates -/

/-- Whether a field of dates has that name. -/
def Catalog.holdsDates (c : Catalog) (id : SchemaId) (name : String) : Bool :=
  (c.field? id name).any fun f => f.shape.isDate

namespace Record

variable {d : Domain} {r : Record} {now : Instant}

/-- The offset that a text is, in fields of dates a number of days. -/
def readSpan (dated : Bool) (text : String) : Except PhraseError (Option Span) :=
  if dated then Phrase.readDayOffset text.toList else Phrase.readOffset text.toList

/-- The span of the offset that the value of an update is. -/
def span? (dated : Bool) (v : Json) : Option Span :=
  match v with
  | .str text => (readSpan dated text).toOption.join
  | _ => none

theorem resolveRelative_eq_none_iff {dated : Bool} {v : Json} :
    resolveRelative now dated v = none ↔
      ∃ span, span? dated v = some span ∧ now.LeavesCalendar span := by
  unfold span? resolveRelative readSpan
  simp only [← now.add?_eq_none_iff]
  cases v with
  | str text =>
    cases dated with
    | true =>
      simp only [if_true]
      rcases Phrase.readDayOffset text.toList with e | _ | span <;> simp [Except.toOption]
    | false =>
      simp only [Bool.false_eq_true, if_false]
      rcases Phrase.readOffset text.toList with e | _ | span <;> simp [Except.toOption]
  | _ => simp

theorem resolveRelative_of_error {dated : Bool} {text : String} {e : PhraseError}
    (h : readSpan dated text = .error e) :
    resolveRelative now dated (.str text) = some (.str text) := by
  unfold readSpan at h
  unfold resolveRelative
  cases dated with
  | true =>
    simp only [if_true] at h ⊢
    rw [h]
  | false =>
    simp only [Bool.false_eq_true, if_false] at h ⊢
    rw [h]

theorem update_eq_outOfCalendar_iff {marked : String} {v : Json} :
    (r.update d now marked v).2 = .error .outOfCalendar ↔
      ∃ span, span? (d.catalog.holdsDates r.schema (splitMark appendMark marked).1) v =
        some span ∧ now.LeavesCalendar span := by
  rw [← resolveRelative_eq_none_iff]
  unfold update Catalog.holdsDates
  simp only
  split
  · next hnone => simp [hnone]
  · next w hsome =>
    simp only [hsome, reduceCtorEq, iff_false]
    intro h
    obtain ⟨e, he⟩ := mapError_eq_error h
    rw [he] at h
    cases h

/-- One update, its record lost when it fails. -/
def updated (d : Domain) (now : Instant) (r : Record) (u : String × Json) :
    Except (Record × Error) Record :=
  match r.update d now u.1 u.2 with
  | (r', .ok ()) => .ok r'
  | (r', .error e) => .error (r', e)

theorem apply_eq_foldlM (updates : List (String × Json)) :
    r.apply d now updates =
      match updates.foldlM (updated d now) r with
      | .ok r' => (r', .ok ())
      | .error (r', e) => (r', .error e) := by
  induction updates generalizing r with
  | nil => rfl
  | cons u updates ih =>
    rw [apply, List.foldlM_cons, updated]
    rcases r.update d now u.1 u.2 with ⟨r', e | _⟩
    · rfl
    · exact ih

theorem foldlM_updated_eq_ok_iff {updates : List (String × Json)} {r' : Record} :
    updates.foldlM (updated d now) r = .ok r' ↔ r.apply d now updates = (r', .ok ()) := by
  rw [apply_eq_foldlM]
  split <;> simp [*]

theorem foldlM_updated_eq_error_iff {updates : List (String × Json)} {r' : Record} {e : Error} :
    updates.foldlM (updated d now) r = .error (r', e) ↔
      r.apply d now updates = (r', .error e) := by
  rw [apply_eq_foldlM]
  split <;> simp [*]

theorem updated_eq_error_iff {u : String × Json} {r' : Record} {e : Error} :
    updated d now r u = .error (r', e) ↔ r.update d now u.1 u.2 = (r', .error e) := by
  unfold updated
  split <;> simp [*]

theorem apply_eq_error_iff {updates : List (String × Json)} {r' : Record} {e : Error} :
    r.apply d now updates = (r', .error e) ↔
      ∃ before marked v after b, updates = before ++ (marked, v) :: after ∧
        r.apply d now before = (b, .ok ()) ∧ b.update d now marked v = (r', .error e) := by
  rw [← foldlM_updated_eq_error_iff, foldlM_eq_error_iff]
  simp only [foldlM_updated_eq_ok_iff, updated_eq_error_iff, Prod.exists]

theorem schema_apply (d : Domain) (now : Instant) (r : Record) (updates : List (String × Json)) :
    (r.apply d now updates).1.schema = r.schema :=
  apply_keeps d (P := fun r' => r'.schema = r.schema)
    (fun _ marked v h => (schema_update d _ now marked v).trans h) rfl updates

theorem apply_eq_outOfCalendar_iff {updates : List (String × Json)} :
    (r.apply d now updates).2 = .error .outOfCalendar ↔
      ∃ before marked v after, updates = before ++ (marked, v) :: after ∧
        (r.apply d now before).2 = .ok () ∧
        ∃ span, span? (d.catalog.holdsDates r.schema (splitMark appendMark marked).1) v =
          some span ∧ now.LeavesCalendar span := by
  constructor
  · intro h
    obtain ⟨before, marked, v, after, b, hsplit, hbefore, hfail⟩ :=
      apply_eq_error_iff.1 (Prod.ext rfl h)
    have hb := schema_apply d now r before
    rw [hbefore] at hb
    refine ⟨before, marked, v, after, hsplit, congrArg Prod.snd hbefore, ?_⟩
    rw [← hb]
    exact update_eq_outOfCalendar_iff.1 (congrArg Prod.snd hfail)
  · rintro ⟨before, marked, v, after, hsplit, hbefore, hspan⟩
    rw [← schema_apply d now r before] at hspan
    exact congrArg Prod.snd (apply_eq_error_iff.2 ⟨before, marked, v, after, _, hsplit,
      Prod.ext rfl hbefore, Prod.ext rfl (update_eq_outOfCalendar_iff.2 hspan)⟩)

end Record

/-! ## Both -/

theorem holdsDates_created_at : Farm.domain.catalog.holdsDates Farm.origin.schema
    (splitMark appendMark "created_at").1 = false := by
  decide +kernel

/-- Queries and updates go beyond the calendar exactly where they come to a relative date that does.
A text that is refused as a relative date, such as one with a count that no span holds, does not get
there: it is a fault of its clause, and it stays the text of an update. -/
theorem outOfCalendar_iff (d : Domain) (now : Instant) :
    (∀ target clauses, Plan.compile d target now clauses = .error .outOfCalendar ↔
      ∃ before q after, clauses = before ++ q :: after ∧
        (∃ plan, Plan.compile d target now before = .ok plan) ∧ q.target.1 ≠ "" ∧
        ∃ span, q.span? = some span ∧ now.LeavesCalendar span) ∧
    (∀ (r : Record) updates, (r.apply d now updates).2 = .error .outOfCalendar ↔
      ∃ before marked v after, updates = before ++ (marked, v) :: after ∧
        (r.apply d now before).2 = .ok () ∧
        ∃ span, Record.span? (d.catalog.holdsDates r.schema (splitMark appendMark marked).1) v =
          some span ∧ now.LeavesCalendar span) ∧
    ∀ text e,
      (Phrase.readDateExpr text.toList = .error e → ∀ target before plan (q : Clause) after,
        Plan.compile d target now before = .ok plan → q.value = .str text → q.target.1 ≠ "" →
        Plan.compile d target now (before ++ q :: after) = q.refuse (.phrase e)) ∧
      ∀ dated, Record.readSpan dated text = .error e →
        Record.resolveRelative now dated (.str text) = some (.str text) := by
  refine ⟨fun target clauses => Plan.compile_eq_outOfCalendar_iff,
    fun r updates => Record.apply_eq_outOfCalendar_iff, fun text e => ⟨?_, ?_⟩⟩
  · intro h target before plan q after hbefore hq hkey
    exact Plan.compile_append_of_meaning_error hbefore hkey (Clause.meaning_of_error hq h)
  · exact fun dated => Record.resolveRelative_of_error

/-- A date in 4000 years stays within the calendar, in a query about points and in an update. -/
theorem outOfCalendar_iff_near :
    Plan.compile Farm.domain Farm.Id.point Record.noon
        [⟨"created_at", .str "in 4000 years"⟩] ≠ .error .outOfCalendar ∧
      (Farm.origin.apply Farm.domain Record.noon
        [("created_at", .str "in 4000 years")]).2 ≠ .error .outOfCalendar := by
  have hnear : ¬Record.noon.LeavesCalendar ⟨126144000000⟩ := by decide +kernel
  obtain ⟨hcompile, happly, -⟩ := outOfCalendar_iff Farm.domain Record.noon
  constructor
  · rw [Ne, hcompile]
    rintro ⟨before, q, after, hsplit, -, -, span, hspan, hleaves⟩
    obtain ⟨-, h⟩ | ⟨-, h⟩ := List.singleton_eq_append_iff.1 hsplit
    · cases h
      cases hspan
      exact hnear hleaves
    · cases h
  · rw [Ne, happly]
    rintro ⟨before, marked, v, after, hsplit, -, span, hspan, hleaves⟩
    obtain ⟨-, h⟩ | ⟨-, h⟩ := List.singleton_eq_append_iff.1 hsplit
    · cases h
      rw [holdsDates_created_at] at hspan
      cases hspan
      exact hnear hleaves
    · cases h

/-- A date in 400000 years goes beyond the calendar, in a query about points and in an update. -/
theorem farDate_outOfCalendar :
    Plan.compile Farm.domain Farm.Id.point Record.noon
        [⟨"created_at", .str "in 400000 years"⟩] = .error .outOfCalendar ∧
      (Farm.origin.apply Farm.domain Record.noon
        [("created_at", .str "in 400000 years")]).2 = .error .outOfCalendar := by
  have hfar : Record.noon.LeavesCalendar ⟨12614400000000⟩ := by decide +kernel
  constructor
  · exact Plan.compile_eq_outOfCalendar_iff.2
      ⟨[], _, [], rfl, ⟨_, rfl⟩, by decide, _, by rfl, hfar⟩
  · refine Record.apply_eq_outOfCalendar_iff.2 ⟨[], _, _, [], rfl, rfl, _, ?_, hfar⟩
    rw [holdsDates_created_at]
    rfl

end GardenMap
