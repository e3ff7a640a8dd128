import GardenMap.Proofs.Conversion.Shapes
import GardenMap.Proofs.Record.Untouched
import GardenMap.Proofs.Time.Spans

/-!
# Updates by relative dates

The text of an offset, put under a key, leaves the instant that it denotes: in a field of instants
the instant cut to milliseconds, under an undeclared key its canonical text, and in a field of dates
the date, where the text is an offset in days (`apply_relative`). Everything else stays. Only where
the field is itself the one for undeclared keys, their values go with it, and only a clock that
stands at a leap second within a minute leaves a later instant (`bucket_takes_instant`).

Proof. The offset becomes a canonical text first, and the converters of instants and dates read
canonical texts back. What stays is a frame law of the one table that the update writes to.
-/

namespace GardenMap.Record

/-! ## What one update writes -/

/-- The second record is the first with a value in one field. Where the field is the one for
undeclared keys, these may change with it. -/
structure SetsField (c : Catalog) (name : String) (v : Value) (r r' : Record) : Prop where
  schema : r'.schema = r.schema
  value : r'.get? name = some v
  field : ∀ other, other ≠ name → r'.get? other = r.get? other
  extra : r'.extra = r.extra
  metadata : c.metadataField? r.schema ≠ some name → ∀ key, r'.metadata? c key = r.metadata? c key

/-- The second record is the first with a value under an undeclared key. -/
structure SetsMetadata (c : Catalog) (key : String) (v : Value) (r r' : Record) : Prop where
  schema : r'.schema = r.schema
  value : r'.metadata? c key = some v
  field : ∀ name, c.metadataField? r.schema ≠ some name → r'.get? name = r.get? name
  extra : ∀ other, c.metadataField? r.schema ≠ none ∨ other ≠ key →
    Table.get? r'.extra other = Table.get? r.extra other
  metadata : ∀ other, other ≠ key → r'.metadata? c other = r.metadata? c other

/-- Undeclared keys have a place: the field for them holds a mapping or is absent, or there is no
such field. -/
def TakesMetadata (c : Catalog) (r : Record) : Prop :=
  ∀ bucket, c.metadataField? r.schema = some bucket →
    ((r.get? bucket).getD .null).isNull = true ∨ ∃ entries, r.get? bucket = some (.map entries)

section

variable {c : Catalog} {r : Record}

theorem get?_put_of_ne {name other : String} (h : other ≠ name) (v : Value) :
    (r.put name v).get? other = r.get? other := by
  unfold put get?
  rw [Table.get?_put, if_neg h]

theorem metadata?_put_of_ne {name : String} (h : c.metadataField? r.schema ≠ some name) (v : Value)
    (key : String) : (r.put name v).metadata? c key = r.metadata? c key := by
  have hschema : (r.put name v).schema = r.schema := rfl
  unfold metadata?
  rw [hschema]
  cases hm : c.metadataField? r.schema with
  | none => rfl
  | some bucket =>
    have hne : bucket ≠ name := by
      rintro rfl
      exact h hm
    simp only [get?_put_of_ne hne]

theorem setsField_put (name : String) (v : Value) : SetsField c name v r (r.put name v) :=
  ⟨rfl, get?_put_self r name v, fun _ h => get?_put_of_ne h v, rfl, fun h => metadata?_put_of_ne h v⟩

theorem updateBucket_put {κ : Type} [Ord κ] (bucket : List (κ × Value)) (key : κ) {v : Json}
    (hv : v.isNull = false) :
    updateBucket bucket key v false = (Table.put bucket key (.raw v), .ok ()) := by
  unfold updateBucket
  rw [hv]
  rfl

theorem TakesMetadata.exists_entries (htakes : r.TakesMetadata c) {bucket : String}
    (hm : c.metadataField? r.schema = some bucket) : ∃ entries,
      (if ((r.get? bucket).getD .null).isNull then Value.map [] else (r.get? bucket).getD .null) =
        .map entries ∧
      ∀ key, r.metadata? c key = Table.get? entries (.str key) := by
  rcases htakes bucket hm with hnull | ⟨entries, hheld⟩
  · refine ⟨[], if_pos hnull, fun key => ?_⟩
    have hnone : (r.get? bucket).bind Value.entries? = none := by
      cases hheld : r.get? bucket with
      | none => rfl
      | some held =>
        rw [hheld, Option.getD_some] at hnull
        cases held with
        | null | raw => rfl
        | _ => cases hnull
    simp only [metadata?, hm, hnone]
    rfl
  · refine ⟨entries, by rw [hheld]; rfl, fun key => ?_⟩
    simp only [metadata?, hm, hheld, Option.bind_some, Value.entries?]

theorem exists_setsMetadata (htakes : r.TakesMetadata c) (key : String) {v : Json}
    (hv : v.isNull = false) :
    ∃ r', r.updateMetadata c key v false = (r', .ok ()) ∧ SetsMetadata c key (.raw v) r r' := by
  cases hm : c.metadataField? r.schema with
  | none =>
    refine ⟨{ r with extra := Table.put r.extra key (.raw v) }, ?_, rfl, ?_, fun _ _ => rfl, ?_, ?_⟩
    · simp only [updateMetadata, hm, updateBucket_put r.extra key hv]
    · simp only [metadata?, hm, Table.get?_put, if_true]
    · intro other hother
      rw [Table.get?_put, if_neg (hother.resolve_left fun h => h hm)]
    · intro other hother
      simp only [metadata?, hm, Table.get?_put, if_neg hother]
  | some bucket =>
    obtain ⟨entries, hheld, hold⟩ := htakes.exists_entries hm
    have hnew : ∀ k, (r.put bucket (.map (Table.put entries (.str key) (.raw v)))).metadata? c k =
        Table.get? (Table.put entries (.str key) (.raw v)) (.str k) := by
      intro k
      have hput := get?_put_self r bucket (.map (Table.put entries (.str key) (.raw v)))
      unfold metadata?
      rw [show c.metadataField? (r.put bucket _).schema = some bucket from hm]
      simp only [hput, Option.bind_some, Value.entries?]
    refine ⟨r.put bucket (.map (Table.put entries (.str key) (.raw v))), ?_, rfl, ?_, ?_,
      fun _ _ => rfl, ?_⟩
    · simp only [updateMetadata, hm, hheld, updateBucket_put entries (.str key) hv]
    · rw [hnew, Table.get?_put, if_pos rfl]
    · intro name hname
      exact get?_put_of_ne (fun h => hname (by rw [hm, h])) _
    · intro other hother
      rw [hnew, hold, Table.get?_put, if_neg fun h => hother (MapKey.str.inj h)]

end

/-! ## Offsets made absolute -/

section

variable {d : Domain} {r : Record} {now t : Instant} {key text : String} {span : Span}

theorem resolveRelative_instant (hread : Phrase.readOffset text.toList = .ok (some span))
    (ht : now.add? span = some t) :
    resolveRelative now false (.str text) = some (.str t.text) := by
  simp only [resolveRelative, hread, ht, Bool.false_eq_true, if_false, Option.map_some]

theorem resolveRelative_date (hread : Phrase.readDayOffset text.toList = .ok (some span))
    (ht : now.add? span = some t) :
    resolveRelative now true (.str text) = some (.str t.date.text) := by
  simp only [resolveRelative, hread, ht, if_true, Option.map_some]

/-- What an update leaves in a declared field. -/
def written (r : Record) (key : String) (typed : Value) (append : Bool) :
    Except AppendError Value :=
  if append then ((r.get? key).getD .null).append typed else .ok typed

theorem update_field {marked : String} {append : Bool}
    (hmark : splitMark appendMark marked = (key, append)) {f : Field}
    (hf : d.catalog.field? r.schema key = some f) {v w : Json}
    (hresolve : resolveRelative now f.shape.isDate v = some w) {conv : Converter}
    (hconv : d.catalog.converter f.shape = .ok conv) {typed : Value}
    (htyped : d.apply conv w = .ok typed) :
    r.update d now marked v =
      match r.written key typed append with
      | .ok sum => (r.put key sum, .ok ())
      | .error e => (r.put key .null,
          .error (.rejected r.schema.name w
            (.misfit ((ConvertError.here (.append e)).under key)))) := by
  have hname : f.name = key := Catalog.name_of_field? hf
  simp only [update, hmark, hf, Option.any_some, hresolve, updateField, hconv, htyped, hname,
    written]
  cases append with
  | false => rfl
  | true =>
    simp only [if_true]
    cases ((r.get? key).getD .null).append typed <;> rfl

theorem apply_field (hkey : key.toList.head? ≠ some appendMark) {f : Field}
    (hf : d.catalog.field? r.schema key = some f) {v w : Json}
    (hresolve : resolveRelative now f.shape.isDate v = some w) {conv : Converter}
    (hconv : d.catalog.converter f.shape = .ok conv) {typed : Value}
    (htyped : d.apply conv w = .ok typed) :
    r.apply d now [(key, v)] = (r.put key typed, .ok ()) := by
  rw [apply, update_field (splitMark_of_head?_ne hkey) hf hresolve hconv htyped]
  rfl

theorem apply_undeclared (hkey : key.toList.head? ≠ some appendMark)
    (hf : d.catalog.field? r.schema key = none) {v w : Json}
    (hresolve : resolveRelative now false v = some w) {r' : Record}
    (hupdate : r.updateMetadata d.catalog key w false = (r', .ok ())) :
    r.apply d now [(key, v)] = (r', .ok ()) := by
  have hupdate : r.update d now key v = (r', .ok ()) := by
    simp only [update, splitMark_of_head?_ne hkey, hf, Option.any_none, hresolve, hupdate]
    rfl
  simp only [apply, hupdate]

theorem exists_typed_instant (d : Domain) (t : Instant) {f : Field}
    (hshape : f.shape = .datetime ∨ f.shape = .optional .datetime) :
    f.shape.isDate = false ∧ ∃ conv, d.catalog.converter f.shape = .ok conv ∧
      d.apply conv (.str t.text) = .ok (.datetime t.asRead) := by
  obtain ⟨conv, hconv, happly⟩ :=
    Catalog.exists_converter_single (d := d) rfl hshape (Scalar.isNone_instant t)
  refine ⟨?_, conv, hconv, happly.trans (Scalar.toDatetime_text t)⟩
  rcases hshape with h | h <;> rw [h] <;> rfl

theorem exists_typed_date (d : Domain) (day : Date) {f : Field}
    (hshape : f.shape = .date ∨ f.shape = .optional .date) :
    f.shape.isDate = true ∧ ∃ conv, d.catalog.converter f.shape = .ok conv ∧
      d.apply conv (.str day.text) = .ok (.date day) := by
  obtain ⟨conv, hconv, happly⟩ :=
    Catalog.exists_converter_single (d := d) rfl hshape (Scalar.isNone_date day)
  refine ⟨?_, conv, hconv, happly.trans (Scalar.toDate_text day)⟩
  rcases hshape with h | h <;> rw [h] <;> rfl

theorem apply_instant (hkey : key.toList.head? ≠ some appendMark)
    (hread : Phrase.readOffset text.toList = .ok (some span)) (ht : now.add? span = some t)
    {f : Field} (hf : d.catalog.field? r.schema key = some f)
    (hshape : f.shape = .datetime ∨ f.shape = .optional .datetime) :
    r.apply d now [(key, .str text)] = (r.put key (.datetime t.asRead), .ok ()) := by
  obtain ⟨hdate, conv, hconv, htyped⟩ := exists_typed_instant d t hshape
  have hresolve := resolveRelative_instant hread ht
  rw [← hdate] at hresolve
  exact apply_field hkey hf hresolve hconv htyped

theorem apply_date (hkey : key.toList.head? ≠ some appendMark)
    (hread : Phrase.readDayOffset text.toList = .ok (some span)) (ht : now.add? span = some t)
    {f : Field} (hf : d.catalog.field? r.schema key = some f)
    (hshape : f.shape = .date ∨ f.shape = .optional .date) :
    r.apply d now [(key, .str text)] = (r.put key (.date t.date), .ok ()) := by
  obtain ⟨hdate, conv, hconv, htyped⟩ := exists_typed_date d t.date hshape
  have hresolve := resolveRelative_date hread ht
  rw [← hdate] at hresolve
  exact apply_field hkey hf hresolve hconv htyped

/-- A text that is an offset, put under a key that is not marked, succeeds where the instant is in
the calendar. In a field of instants it leaves what the text of the instant is read as, on the clock
the instant cut to milliseconds, and under an undeclared key the canonical text of the instant. A
text that is an offset in days leaves in a field of dates the date of the instant. Everything else
stays. -/
theorem apply_relative (d : Domain) (r : Record) (now : Instant) (key text : String)
    (hkey : key.toList.head? ≠ some appendMark) :
    (∀ span t, Phrase.readOffset text.toList = .ok (some span) → now.add? span = some t →
      (∀ f, d.catalog.field? r.schema key = some f →
        f.shape = .datetime ∨ f.shape = .optional .datetime →
        ∃ r', r.apply d now [(key, .str text)] = (r', .ok ()) ∧
          SetsField d.catalog key (.datetime t.asRead) r r' ∧ (t.OnClock → t.asRead = t.cut)) ∧
      (d.catalog.field? r.schema key = none → r.TakesMetadata d.catalog →
        ∃ r', r.apply d now [(key, .str text)] = (r', .ok ()) ∧
          SetsMetadata d.catalog key (.raw (.str t.text)) r r')) ∧
    ∀ span t, Phrase.readDayOffset text.toList = .ok (some span) → now.add? span = some t →
      ∀ f, d.catalog.field? r.schema key = some f →
        f.shape = .date ∨ f.shape = .optional .date →
        ∃ r', r.apply d now [(key, .str text)] = (r', .ok ()) ∧
          SetsField d.catalog key (.date t.date) r r' := by
  refine ⟨fun span t hread ht => ⟨fun f hf hshape => ?_, fun hf htakes => ?_⟩,
    fun span t hread ht f hf hshape => ?_⟩
  · exact ⟨_, apply_instant hkey hread ht hf hshape, setsField_put key _,
      Instant.asRead_of_onClock⟩
  · obtain ⟨r', hupdate, hsets⟩ := exists_setsMetadata htakes key (v := .str t.text) rfl
    exact ⟨r', apply_undeclared hkey hf (resolveRelative_instant hread ht) hupdate, hsets⟩
  · exact ⟨_, apply_date hkey hread ht hf hshape, setsField_put key _⟩

end

/-- A schema with an instant, a date and a field for undeclared keys. -/
def diarySchema : Schema where
  id := ⟨"Diary", 0⟩
  bases := []
  fields := [⟨"at", .datetime⟩, ⟨"day", .optional .date⟩, ⟨"meta", .map .str .any⟩]
  metadata := some "meta"

def diary : Domain := ⟨[diarySchema], fun _ => []⟩

/-- A record of that schema that holds nothing. -/
def blankPage : Record := ⟨diarySchema.id, [("at", .null), ("day", .null), ("meta", .null)], []⟩

/-- Noon of 2024-02-28. -/
def noon : Instant := ⟨1709121600, 0, by decide⟩

/-- Noon of the leap day after it. -/
def leapNoon : Instant := ⟨1709208000, 0, by decide⟩

theorem add?_noon : noon.add? ⟨86400⟩ = some leapNoon := by decide +kernel

/-- From the day before a leap day. -/
theorem apply_relative_diary :
    (∃ r', blankPage.apply diary noon [("at", .str "in 24 hours")] = (r', .ok ()) ∧
      SetsField diary.catalog "at" (.datetime leapNoon) blankPage r') ∧
    (∃ r', blankPage.apply diary noon [("due", .str "1  DAY ago")] = (r', .ok ()) ∧
      SetsMetadata diary.catalog "due" (.raw (.str "2024-02-27T12:00:00.000Z")) blankPage r') ∧
    ∃ r', blankPage.apply diary noon [("day", .str "tomorrow")] = (r', .ok ()) ∧
      SetsField diary.catalog "day" (.date leapNoon.date) blankPage r' := by
  obtain ⟨hat, -⟩ := apply_relative diary blankPage noon "at" "in 24 hours" (by decide)
  obtain ⟨hdue, -⟩ := apply_relative diary blankPage noon "due" "1  DAY ago" (by decide)
  obtain ⟨-, hday⟩ := apply_relative diary blankPage noon "day" "tomorrow" (by decide)
  have hread : leapNoon.asRead = leapNoon := by decide +kernel
  have hbefore : noon.add? ⟨-86400⟩ = some ⟨1709035200, 0, by decide⟩ := by decide +kernel
  have htext : (⟨1709035200, 0, by decide⟩ : Instant).text = "2024-02-27T12:00:00.000Z" := by
    decide +kernel
  have htakes : blankPage.TakesMetadata diary.catalog := fun bucket hm => by
    cases hm
    exact .inl rfl
  obtain ⟨r', happly, hset, -⟩ :=
    (hat ⟨86400⟩ leapNoon rfl add?_noon).1 ⟨"at", .datetime⟩ rfl (.inl rfl)
  have hput := (hdue ⟨-86400⟩ _ rfl hbefore).2 rfl htakes
  rw [hread] at hset
  rw [htext] at hput
  exact ⟨⟨r', happly, hset⟩, hput, hday ⟨86400⟩ leapNoon rfl add?_noon ⟨"day", .optional .date⟩ rfl (.inr rfl)⟩

/-- A schema whose instant is the field for undeclared keys. -/
def logSchema : Schema where
  id := ⟨"Log", 0⟩
  bases := []
  fields := [⟨"at", .datetime⟩]
  metadata := some "at"

def log : Domain := ⟨[logSchema], fun _ => []⟩

/-- A record of that schema that holds nothing. -/
def blankLog : Record := ⟨logSchema.id, [("at", .null)], []⟩

theorem apply_blankLog : blankLog.apply log noon [("colour", .str "red")] =
    (⟨logSchema.id, [("at", .map [(.str "colour", .raw (.str "red"))])], []⟩, .ok ()) := by
  have hresolve : resolveRelative noon false (.str "red") = some (.str "red") := by rfl
  have hupdate : blankLog.updateMetadata log.catalog "colour" (.str "red") false =
      (⟨logSchema.id, [("at", .map [(.str "colour", .raw (.str "red"))])], []⟩, .ok ()) := by rfl
  exact apply_undeclared (by decide) rfl hresolve hupdate

/-- A leap second after the fourth second of a minute. -/
def leapFour : Instant := ⟨1718020804, 1333333333, by decide⟩

/-- An instant in the field for undeclared keys takes the place of a key that an update put there,
and a leap second within a minute leaves no instant cut to milliseconds. -/
theorem bucket_takes_instant :
    (¬∀ (d : Domain) (r : Record) (now : Instant) (key text : String),
      key.toList.head? ≠ some appendMark →
      ∀ span t, Phrase.readOffset text.toList = .ok (some span) → now.add? span = some t →
      ∀ f, d.catalog.field? r.schema key = some f → f.shape = .datetime →
      ∀ other, (r.apply d now [(key, .str text)]).1.metadata? d.catalog other =
        r.metadata? d.catalog other) ∧
    ¬∀ (d : Domain) (r : Record) (now : Instant) (key text : String),
      key.toList.head? ≠ some appendMark →
      ∀ span t, Phrase.readOffset text.toList = .ok (some span) → now.add? span = some t →
      ∀ f, d.catalog.field? r.schema key = some f → f.shape = .datetime →
      (r.apply d now [(key, .str text)]).1.get? key = some (.datetime t.cut) := by
  have hread : Phrase.readOffset "now".toList = .ok (some .zero) := rfl
  refine ⟨fun h => ?_, fun h => ?_⟩
  · have hnow := noon.add?_zero
    have hkept := h log (blankLog.apply log noon [("colour", .str "red")]).1 noon "at" "now"
      (by decide) _ _ hread hnow ⟨"at", .datetime⟩ (by rw [apply_blankLog]; rfl) rfl "colour"
    rw [apply_blankLog, apply_instant (by decide) hread hnow (by rfl) (.inl rfl)] at hkept
    cases hkept
  · have hcut := h diary blankPage leapFour "at" "now" (by decide) _ _ hread leapFour.add?_zero
      ⟨"at", .datetime⟩ rfl rfl
    rw [apply_instant (by decide) hread leapFour.add?_zero rfl (.inl rfl), get?_put_self,
      Option.some.injEq, Value.datetime.injEq] at hcut
    exact absurd hcut (by decide +kernel)

end GardenMap.Record
