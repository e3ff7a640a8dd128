import GardenMap.Farm.Schemas
import GardenMap.Proofs.Tables
import GardenMap.Record.Update

/-!
# What a failing update leaves behind

A list of updates stops at the first that fails. The record is then the one that the updates before
it made, with one exception: an append takes the value out of its place before it adds to it, so an
append whose value does not go with the one in place leaves that place empty
(`apply_error_state`). The exception is real: the value that was there is gone
(`refused_append_drops_value`).

Proof. `updateBucket`, `updateField` and `updateMetadata` fail in two ways, before they touch the
record or in `Value.append`; one lemma each says what is left. `update_error_state` puts them
together for one update, and `apply_error_state` follows by induction on the list.
-/

namespace GardenMap

namespace Value

theorem append_of_isNull {current : Value} (h : current.isNull = true) (addend : Value) :
    current.append addend = .ok addend := by
  cases current with
  | null => rfl
  | raw v =>
    cases v with
    | null => rfl
    | _ => simp [isNull, Json.isNull] at h
  | _ => simp [isNull] at h

end Value

theorem Table.length_erase_lt {κ α : Type} [Ord κ] {t : Table κ α} {k : κ} {v : α}
    (h : Table.get? t k = some v) : (Table.erase t k).length < t.length := by
  induction t with
  | nil => cases h
  | cons e t ih =>
    obtain ⟨l, w⟩ := e
    rw [Table.get?] at h
    rw [Table.erase]
    split
    · exact Nat.lt_succ_self _
    · next hk =>
      rw [if_neg hk] at h
      exact Nat.succ_lt_succ (ih h)

namespace Record

variable (d : Domain) (now : Instant)

/-- Both tables of a record are in order. -/
def Sorted (r : Record) : Prop := Table.Sorted r.fields ∧ Table.Sorted r.extra

/-- The value under a key: of a declared field, or of the metadata. -/
def under? (c : Catalog) (r : Record) (key : String) : Option Value :=
  match c.field? r.schema key with
  | some f => r.get? f.name
  | none => r.metadata? c key

/-- A record without the value under a key: a declared field is absent, metadata has no entry. -/
def without (c : Catalog) (r : Record) (key : String) : Record :=
  match c.field? r.schema key, c.metadataField? r.schema with
  | some f, _ => r.put f.name .null
  | none, none => { r with extra := Table.erase r.extra key }
  | none, some field =>
    match r.get? field with
    | some (.map entries) => r.put field (.map (Table.erase entries (.str key)))
    | _ => r

/-- The value that an update brings to a key: relative dates are made absolute, and what goes to a
declared field is converted. -/
def incoming? (r : Record) (key : String) (v : Json) : Option Value :=
  let declared := d.catalog.field? r.schema key
  (resolveRelative now (declared.any fun f => f.shape.isDate) v).bind fun v =>
    match declared with
    | none => some (.raw v)
    | some f =>
      match d.catalog.converter f.shape with
      | .error _ => none
      | .ok conv => (d.apply conv v).toOption

/-- An update appends, and its value does not go with the one in place. -/
def RefusesAppend (r : Record) (marked : String) (v : Json) : Prop :=
  ∃ key addend current e, splitMark appendMark marked = (key, true) ∧
    incoming? d now r key v = some addend ∧ r.under? d.catalog key = some current ∧
    current.append addend = .error e

variable {d now}

/-! ## Buckets -/

theorem updateBucket_error {κ : Type} [Ord κ] {bucket bucket' : List (κ × Value)} {key : κ}
    {v : Json} {append : Bool} {e : ConvertError}
    (h : updateBucket bucket key v append = (bucket', .error e)) :
    append = true ∧ bucket' = Table.erase bucket key ∧
      ∃ current e', Table.get? bucket key = some current ∧
        current.append (.raw v) = .error e' := by
  unfold updateBucket at h
  split at h
  · next ha =>
    split at h
    · simp at h
    · next e' he =>
      simp only [Prod.mk.injEq] at h
      refine ⟨ha, h.1.symm, ?_⟩
      cases hg : Table.get? bucket key with
      | none =>
        rw [hg, Option.getD_none, Value.append_of_isNull rfl] at he
        cases he
      | some current =>
        rw [hg, Option.getD_some] at he
        exact ⟨current, e', rfl, he⟩
  · split at h <;> simp at h

/-! ## Fields and metadata -/

theorem put_get?_eq_self {r : Record} (hr : r.Sorted) {name : String} {v : Value}
    (h : r.get? name = some v) : r.put name v = r := by
  obtain ⟨schema, fields, extra⟩ := r
  exact congrArg (Record.mk schema · extra) (Table.put_eq_self hr.1 h)

theorem get?_put_self (r : Record) (name : String) (v : Value) :
    (r.put name v).get? name = some v := by
  simp [get?, put, Table.get?_put]

theorem put_ne_self {r : Record} {name : String} {v w : Value} (h : r.get? name = some w)
    (hvw : v ≠ w) : r.put name v ≠ r := by
  intro he
  rw [← he, get?_put_self] at h
  exact hvw (Option.some.inj h)

theorem ne_null_of_append {current addend : Value} {e : AppendError}
    (h : current.append addend = .error e) : Value.null ≠ current := by
  rintro rfl
  cases h

theorem updateField_error {r r' : Record} {f : Field} {v : Json} {append : Bool}
    {e : ConvertError} (h : updateField d r f v append = (r', .error e)) :
    r' = r ∧ (∀ conv, d.catalog.converter f.shape = .ok conv → ∃ e, d.apply conv v = .error e) ∨
    append = true ∧ r' = r.put f.name .null ∧ ∃ conv addend current e',
      d.catalog.converter f.shape = .ok conv ∧ d.apply conv v = .ok addend ∧
        r.get? f.name = some current ∧ current.append addend = .error e' := by
  unfold updateField at h
  split at h
  · next hc =>
    simp only [Prod.mk.injEq] at h
    refine .inl ⟨h.1.symm, fun conv hconv => ?_⟩
    rw [hc] at hconv
    cases hconv
  · next conv hc =>
    split at h
    · next e' he =>
      simp only [Prod.mk.injEq] at h
      refine .inl ⟨h.1.symm, fun conv' hconv => ?_⟩
      rw [hc] at hconv
      cases hconv
      exact ⟨e', he⟩
    · next addend ha =>
      split at h
      · next happ =>
        split at h
        · simp at h
        · next e' he =>
          simp only [Prod.mk.injEq] at h
          refine .inr ⟨happ, h.1.symm, ?_⟩
          cases hg : r.get? f.name with
          | none =>
            rw [hg, Option.getD_none, Value.append_of_isNull rfl] at he
            cases he
          | some current =>
            rw [hg, Option.getD_some] at he
            exact ⟨conv, addend, current, e', hc, ha, rfl, he⟩
      · simp at h

section Metadata

variable {c : Catalog} {r r' : Record} {key : String} {v : Json} {append : Bool}
  {e : ConvertError}

theorem updateMetadata_error_extra (hm : c.metadataField? r.schema = none)
    (h : updateMetadata c r key v append = (r', .error e)) :
    append = true ∧ r' = { r with extra := Table.erase r.extra key } ∧ r' ≠ r ∧ ∃ current e',
      Table.get? r.extra key = some current ∧ current.append (.raw v) = .error e' := by
  rcases hb : updateBucket r.extra key v append with ⟨extra, outcome⟩
  simp only [updateMetadata, hm, hb, Prod.mk.injEq] at h
  obtain ⟨rfl, rfl⟩ := h
  obtain ⟨happ, rfl, current, e', hcur, he⟩ := updateBucket_error hb
  refine ⟨happ, rfl, fun hself => ?_, current, e', hcur, he⟩
  have hlt := Table.length_erase_lt hcur
  have hlen := congrArg (fun r : Record => r.extra.length) hself
  simp only at hlen
  omega

/-- The metadata field holds a mapping and the append is refused, or it holds something else and
stays. -/
theorem updateMetadata_error_bucket (hr : r.Sorted) {field : String}
    (hm : c.metadataField? r.schema = some field)
    (h : updateMetadata c r key v append = (r', .error e)) :
    (r' = r ∧ ∀ entries, r.get? field ≠ some (.map entries)) ∨
    append = true ∧ r' ≠ r ∧ ∃ entries current e', r.get? field = some (.map entries) ∧
      r' = r.put field (.map (Table.erase entries (.str key))) ∧
      Table.get? entries (.str key) = some current ∧ current.append (.raw v) = .error e' := by
  simp only [updateMetadata, hm] at h
  generalize hheld : (r.get? field).getD .null = held at h
  by_cases hn : held.isNull = true
  · -- an empty mapping has no entry that could refuse
    rcases hb : updateBucket ([] : List (MapKey × Value)) (.str key) v append with
      ⟨entries, outcome⟩
    simp only [hn, if_true, hb, Prod.mk.injEq] at h
    rw [h.2] at hb
    obtain ⟨-, -, current, e', hcur, -⟩ := updateBucket_error hb
    cases hcur
  · have hget : r.get? field = some held := by
      cases hg : r.get? field with
      | none =>
        rw [hg, Option.getD_none] at hheld
        exact absurd (hheld ▸ rfl) hn
      | some w =>
        rw [hg, Option.getD_some] at hheld
        rw [hheld]
    simp only [hn, Bool.false_eq_true, if_false] at h
    split at h
    · next entries =>
      rcases hb : updateBucket entries (.str key) v append with ⟨entries', outcome⟩
      simp only [hb, Prod.mk.injEq] at h
      obtain ⟨rfl, rfl⟩ := h
      obtain ⟨happ, rfl, current, e', hcur, he⟩ := updateBucket_error hb
      refine .inr ⟨happ, put_ne_self hget fun hmap => ?_, entries, current, e', hget, rfl, hcur, he⟩
      have hlt := Table.length_erase_lt hcur
      rw [Value.map.inj hmap] at hlt
      exact Nat.lt_irrefl _ hlt
    · next other hother =>
      simp only [Prod.mk.injEq] at h
      refine .inl ⟨h.1 ▸ put_get?_eq_self hr hget, fun entries hmap => ?_⟩
      rw [hget] at hmap
      exact hother entries (Option.some.inj hmap)

end Metadata

/-! ## One update -/

section Incoming

variable {r : Record} {key : String} {v w : Json}

theorem incoming?_field {f : Field} (hdecl : d.catalog.field? r.schema key = some f)
    (hrel : resolveRelative now f.shape.isDate v = some w) {addend : Value} :
    incoming? d now r key v = some addend ↔
      ∃ conv, d.catalog.converter f.shape = .ok conv ∧ d.apply conv w = .ok addend := by
  simp only [incoming?, hdecl, Option.any_some, hrel, Option.bind_some]
  cases d.catalog.converter f.shape with
  | error e => simp
  | ok conv => cases ha : d.apply conv w <;> simp [Except.toOption, ha]

theorem incoming?_metadata (hdecl : d.catalog.field? r.schema key = none)
    (hrel : resolveRelative now false v = some w) {addend : Value} :
    incoming? d now r key v = some addend ↔ Value.raw w = addend := by
  simp [incoming?, hdecl, hrel]

theorem incoming?_of_outOfCalendar
    (hrel : resolveRelative now ((d.catalog.field? r.schema key).any fun f => f.shape.isDate) v
      = none) : incoming? d now r key v = none := by
  simp [incoming?, hrel]

end Incoming

theorem mapError_eq_error {ε δ α : Type} {o : Except ε α} {f : ε → δ} {e : δ}
    (h : o.mapError f = .error e) : ∃ e', o = .error e' := by
  cases o with
  | ok a => cases h
  | error e' => exact ⟨e', rfl⟩

/-- A failing update leaves the record as it was, unless an append is refused: then the value in
place is gone. -/
theorem update_error_state {r r' : Record} (hr : r.Sorted) {marked : String} {v : Json} {e : Error}
    (h : update d now r marked v = (r', .error e)) :
    (¬RefusesAppend d now r marked v ∧ r' = r) ∨
    (RefusesAppend d now r marked v ∧ r' = r.without d.catalog (splitMark appendMark marked).1 ∧
      r' ≠ r) := by
  rcases hs : splitMark appendMark marked with ⟨key, append⟩
  simp only [update, hs] at h
  simp only [RefusesAppend, hs, Prod.mk.injEq]
  split at h
  · -- the date lies outside the calendar
    next hrel =>
    simp only [Prod.mk.injEq] at h
    refine .inl ⟨?_, h.1.symm⟩
    rintro ⟨_, addend, -, -, ⟨rfl, -⟩, hin, -⟩
    rw [incoming?_of_outOfCalendar hrel] at hin
    cases hin
  next w hrel =>
  simp only [Prod.mk.injEq] at h
  obtain ⟨rfl, h⟩ := h
  obtain ⟨e', he'⟩ := mapError_eq_error h
  cases hdecl : d.catalog.field? r.schema key with
  | some f =>
    simp only [hdecl, Option.any_some] at hrel he' ⊢
    have hfail : updateField d r f w append = ((updateField d r f w append).1, .error e') :=
      Prod.ext rfl he'
    rcases updateField_error hfail with
      ⟨hself, hno⟩ | ⟨happ, hput, conv, addend, current, e'', hconv, ha, hcur, hsum⟩
    · refine .inl ⟨?_, hself⟩
      rintro ⟨_, addend, -, -, ⟨rfl, -⟩, hin, -⟩
      obtain ⟨conv, hconv, ha⟩ := (incoming?_field hdecl hrel).1 hin
      obtain ⟨e'', he''⟩ := hno conv hconv
      rw [ha] at he''
      cases he''
    · rw [hput]
      refine .inr ⟨⟨key, addend, current, e'', ⟨rfl, happ⟩, ?_, ?_, hsum⟩, ?_, ?_⟩
      · exact (incoming?_field hdecl hrel).2 ⟨conv, hconv, ha⟩
      · simp only [under?, hdecl, hcur]
      · simp only [without, hdecl]
      · exact put_ne_self hcur (ne_null_of_append hsum)
  | none =>
    simp only [hdecl, Option.any_none] at hrel he' ⊢
    have hfail : updateMetadata d.catalog r key w append =
        ((updateMetadata d.catalog r key w append).1, .error e') := Prod.ext rfl he'
    cases hm : d.catalog.metadataField? r.schema with
    | none =>
      obtain ⟨happ, herase, hne, current, e'', hcur, hsum⟩ := updateMetadata_error_extra hm hfail
      refine .inr ⟨⟨key, .raw w, current, e'', ⟨rfl, happ⟩, ?_, ?_, hsum⟩, ?_, hne⟩
      · exact (incoming?_metadata hdecl hrel).2 rfl
      · simp only [under?, hdecl, metadata?, hm, hcur]
      · simp only [without, hdecl, hm, herase]
    | some field =>
      rcases updateMetadata_error_bucket hr hm hfail with
        ⟨hself, hno⟩ | ⟨happ, hne, entries, current, e'', hget, herase, hcur, hsum⟩
      · refine .inl ⟨?_, hself⟩
        rintro ⟨_, addend, current, e'', ⟨rfl, -⟩, -, hcur, -⟩
        simp only [under?, hdecl, metadata?, hm] at hcur
        cases hget : r.get? field with
        | none => simp [hget] at hcur
        | some held =>
          cases held with
          | map entries => exact hno entries hget
          | _ => simp [hget, Value.entries?] at hcur
      · refine .inr ⟨⟨key, .raw w, current, e'', ⟨rfl, happ⟩, ?_, ?_, hsum⟩, ?_, hne⟩
        · exact (incoming?_metadata hdecl hrel).2 rfl
        · simp [under?, hdecl, metadata?, hm, hget, Value.entries?, hcur]
        · simp only [without, hdecl, hm, hget, herase]

/-! ## Order stays -/

theorem Sorted.put {r : Record} (hr : r.Sorted) (name : String) (v : Value) :
    (r.put name v).Sorted :=
  ⟨Table.sorted_put hr.1 name v, hr.2⟩

theorem sorted_updateBucket {κ : Type} [Ord κ] [Std.TransOrd κ] [Std.LawfulEqOrd κ]
    {bucket : List (κ × Value)} (hb : Table.Sorted bucket) (key : κ) (v : Json) (append : Bool) :
    Table.Sorted (updateBucket bucket key v append).1 := by
  unfold updateBucket
  split
  · split
    · exact Table.sorted_put hb _ _
    · exact Table.sorted_erase hb _
  · split
    · exact Table.sorted_erase hb _
    · exact Table.sorted_put hb _ _

theorem Sorted.updateField {r : Record} (hr : r.Sorted) (f : Field) (v : Json) (append : Bool) :
    (updateField d r f v append).1.Sorted := by
  unfold Record.updateField
  split
  · exact hr
  split
  · exact hr
  split
  · split <;> exact hr.put _ _
  · exact hr.put _ _

theorem Sorted.updateMetadata {r : Record} (hr : r.Sorted) (c : Catalog) (key : String) (v : Json)
    (append : Bool) : (updateMetadata c r key v append).1.Sorted := by
  unfold Record.updateMetadata
  split
  · exact ⟨hr.1, sorted_updateBucket hr.2 key v append⟩
  · simp only
    split <;> exact hr.put _ _

theorem Sorted.update {r : Record} (hr : r.Sorted) (marked : String) (v : Json) :
    (update d now r marked v).1.Sorted := by
  unfold Record.update
  simp only
  split
  · exact hr
  · split
    · exact hr.updateField _ _ _
    · exact hr.updateMetadata _ _ _ _

/-! ## A list of updates -/

/-- When a list of updates fails, the ones before the failing update were made. The failing update
leaves their record as it is, exactly unless it is an append that is refused; then the value under
its key is gone, and nothing else. -/
theorem apply_error_state (d : Domain) (now : Instant) (r : Record)
    (updates : List (String × Json)) (hr : r.Sorted) {r' : Record} {e : Error}
    (h : apply d now r updates = (r', .error e)) :
    ∃ made marked v rest before, updates = made ++ (marked, v) :: rest ∧
      apply d now r made = (before, .ok ()) ∧ update d now before marked v = (r', .error e) ∧
      (r' = before ↔ ¬RefusesAppend d now before marked v) ∧
      (RefusesAppend d now before marked v →
        r' = before.without d.catalog (splitMark appendMark marked).1) := by
  induction updates generalizing r with
  | nil => simp [apply] at h
  | cons u updates ih =>
    obtain ⟨marked, v⟩ := u
    rw [apply] at h
    split at h
    · next before hu =>
      have hbefore : before.Sorted := by
        have hs : (update d now r marked v).1.Sorted := hr.update marked v
        rwa [hu] at hs
      obtain ⟨made, marked', v', rest, last, rfl, hmade, hfail, hstate⟩ := ih before hbefore h
      refine ⟨(marked, v) :: made, marked', v', rest, last, rfl, ?_, hfail, hstate⟩
      rw [apply, hu]
      exact hmade
    · next before e' hu =>
      simp only [Prod.mk.injEq, Except.error.injEq] at h
      obtain ⟨rfl, rfl⟩ := h
      refine ⟨[], marked, v, updates, r, rfl, rfl, hu, ?_⟩
      rcases update_error_state hr hu with ⟨hno, hself⟩ | ⟨hyes, hwithout, hne⟩
      · exact ⟨⟨fun _ => hno, fun _ => hself⟩, fun hyes => absurd hyes hno⟩
      · exact ⟨⟨fun hself => absurd hself hne, fun hno => absurd hyes hno⟩, fun _ => hwithout⟩

/-! ### A value that is lost -/

/-- 1970-01-01T00:00:00Z. -/
def epoch : Instant := ⟨0, 0, by decide⟩

theorem converter_int (c : Catalog) : c.converter .int = .ok (.scalar .int) := by
  rw [Catalog.converter, Registry.resolve]
  rfl

/-- A place that has only its first coordinate. -/
def somewhere (x : Value) : Record :=
  ⟨Farm.Id.coordinate, [("x", x), ("y", .null), ("z", .null)], []⟩

theorem sorted_somewhere (x : Value) : (somewhere x).Sorted := by
  refine ⟨?_, List.Pairwise.nil⟩
  show List.Pairwise (fun a b => compare a b = .lt) ["x", "y", "z"]
  decide

theorem apply_somewhere (now : Instant) :
    apply Farm.domain now (somewhere (.int 5)) [("+x", .null)] =
      (somewhere .null, .error (.rejected "Coordinate" .null
        (.misfit ((ConvertError.here (.append (.kinds "null" "int"))).under "x")))) := by
  have hx : Farm.domain.catalog.field? Farm.Id.coordinate "x" = some ⟨"x", .int⟩ := by
    decide +kernel
  have hmark : splitMark appendMark "+x" = ("x", true) := by decide
  simp only [apply, update, somewhere, hmark, hx, resolveRelative, updateField, converter_int,
    Domain.apply, Conversion.convert]
  rfl

theorem apply_error_state_somewhere :
    ∃ made marked v rest before,
      [("+x", Json.null)] = made ++ (marked, v) :: rest ∧
      apply Farm.domain epoch (somewhere (.int 5)) made = (before, .ok ()) ∧
      update Farm.domain epoch before marked v = (somewhere .null, .error
        (.rejected "Coordinate" .null
          (.misfit ((ConvertError.here (.append (.kinds "null" "int"))).under "x")))) ∧
      (somewhere .null = before ↔ ¬RefusesAppend Farm.domain epoch before marked v) ∧
      (RefusesAppend Farm.domain epoch before marked v →
        somewhere .null = before.without Farm.domain.catalog (splitMark appendMark marked).1) :=
  apply_error_state Farm.domain epoch (somewhere (.int 5)) [("+x", .null)]
    (sorted_somewhere (.int 5)) (apply_somewhere epoch)

/-- A failing update does change the record: the number that was in place is gone. -/
theorem refused_append_drops_value :
    ¬∀ (d : Domain) (now : Instant) (r r' before : Record) (made rest : List (String × Json))
      (marked : String) (v : Json) (e : Error), r.Sorted →
      apply d now r made = (before, .ok ()) →
      apply d now r (made ++ (marked, v) :: rest) = (r', .error e) → r' = before := by
  intro h
  have heq := h Farm.domain epoch (somewhere (.int 5)) (somewhere .null)
    (somewhere (.int 5)) [] [] "+x" .null _ (sorted_somewhere (.int 5)) rfl (apply_somewhere _)
  simp [somewhere] at heq

end Record

end GardenMap
