import GardenMap.Proofs.Conversion.Forms
import GardenMap.Proofs.Literal.Values
import GardenMap.Proofs.Record.Keys

/-!
# Conversions that succeed

What a domain converts a payload to, and from which parts. The domain finds everything afresh, so
its conversions have no state to speak of: `items`, `entries`, `fields` and `follow` are the walks
over the parts of a payload without it.
-/

namespace GardenMap

open Conversion

namespace Domain

variable (d : Domain)

def items (item : Converter) (vs : List Json) (position : Nat) : Except ConvertError (List Value) :=
  (convertItems d.catalog d.source item vs position ()).1

/-- A table with the entries of a mapping put into it. -/
def entries (key : Scalar) (value : Converter) (es : Object) (done : List (MapKey × Value)) :
    Except ConvertError (List (MapKey × Value)) :=
  (convertEntries d.catalog d.source key value es done ()).1

/-- A table with the fields of a payload put into it. -/
def fields (fs : List (String × Converter)) (es : Object) (done : List (String × Value)) :
    Except ConvertError (List (String × Value)) :=
  (convertFields d.catalog d.source fs es done ()).1

/-- The target that the tags of a payload lead to. -/
def follow (es : Object) (steps : Nat) (target : Target) : Except ConvertError Target :=
  (dispatch d.catalog d.source es steps target ()).1

/-! ## Equations -/

variable {d}

theorem apply_scalar (kind : Scalar) : d.apply (.scalar kind) = kind.convert := by
  funext v
  unfold apply
  rw [convert_scalar]

theorem apply_absent (v : Json) : d.apply .absent v = .ok .null := by
  unfold apply
  rw [convert_absent]

theorem apply_nullable {inner : Converter} {r : Json} :
    d.apply (.nullable inner) r = if Payload.isNone r then .ok .null else d.apply inner r := by
  unfold apply
  rw [convert_nullable]
  split <;> rfl

theorem apply_list {item : Converter} {r : Json} :
    d.apply (.list item) r =
      match Payload.items r with
      | .error e => .error e
      | .ok none => .ok .null
      | .ok (some vs) => (d.items item vs 0).map .list := by
  unfold apply items
  rw [convert_list]
  rcases Payload.items r with e | _ | vs
  · rfl
  · rfl
  · simp only
    rcases convertItems d.catalog d.source item vs 0 () with ⟨_ | xs, s⟩ <;> rfl

theorem apply_map {key : Scalar} {value : Converter} {r : Json} :
    d.apply (.map key value) r =
      match Payload.entries r with
      | .error e => .error e
      | .ok none => .ok .null
      | .ok (some es) => (d.entries key value es []).map .map := by
  unfold apply entries
  rw [convert_map]
  rcases Payload.entries r with e | _ | es
  · rfl
  · rfl
  · simp only
    rcases convertEntries d.catalog d.source key value es [] () with ⟨_ | done, s⟩ <;> rfl

theorem apply_record {id : SchemaId} {fs : List (String × Converter)} {r : Json} :
    d.apply (.record id fs) r =
      match Payload.record r with
      | .error e => .error e
      | .ok none => .ok .null
      | .ok (some es) =>
        match d.follow es d.catalog.length ⟨id, fs, none⟩ with
        | .error e => .error e
        | .ok target =>
          match d.fields target.fields es [] with
          | .error e => .error (Target.blame target.sentTo e)
          | .ok typed => .ok (.record (d.catalog.assemble target.schema typed es)) := by
  unfold apply follow fields
  rw [convert_record]
  rcases Payload.record r with e | _ | es
  · rfl
  · rfl
  · simp only
    rcases dispatch d.catalog d.source es d.catalog.length ⟨id, fs, none⟩ () with ⟨_ | target, ⟨⟩⟩
    · rfl
    · simp only
      rcases convertFields d.catalog d.source target.fields es [] () with ⟨_ | typed, s⟩ <;> rfl

theorem follow_succ {es : Object} {steps : Nat} {target : Target} :
    d.follow es (steps + 1) target =
      match d.catalog.rootedFamily? target.schema with
      | none => .ok target
      | some family =>
        let member := family.select (d.indexOf family)
          ((Table.get? es family.discriminator).bind Json.str?)
        if member = target.schema then .ok target
        else
          match (d.catalog.converter (.record member)).map Converter.fields with
          | .error e => .error (Target.blame target.sentTo (.here (.unresolved e)))
          | .ok fields => d.follow es steps ⟨member, fields, target.sentTo.getD member.name⟩ := by
  unfold follow
  rw [dispatch]
  cases d.catalog.rootedFamily? target.schema with
  | none => rfl
  | some family =>
    have hmember : ∀ tag, d.source.member family tag () =
        (family.select (d.indexOf family) tag, ()) := fun _ => rfl
    have hfields : ∀ id, d.source.fieldsOf id () =
        ((d.catalog.converter (.record id)).map Converter.fields, ()) := fun _ => rfl
    simp only [hmember, hfields]
    by_cases hm : family.select (d.indexOf family)
        ((Table.get? es family.discriminator).bind Json.str?) = target.schema
    · rw [if_pos hm, if_pos hm]
    · rw [if_neg hm, if_neg hm]
      cases (d.catalog.converter (.record (family.select (d.indexOf family)
        ((Table.get? es family.discriminator).bind Json.str?)))).map Converter.fields <;> rfl

theorem follow_eq_self {target : Target} (h : d.catalog.rootedFamily? target.schema = none)
    (es : Object) (steps : Nat) : d.follow es steps target = .ok target := by
  cases steps with
  | zero => rfl
  | succ steps => rw [follow_succ, h]

theorem follow_base {base : SchemaId} {f : Family} (hbase : d.catalog.rootedFamily? base = some f)
    (es : Object) {member : SchemaId}
    (hmember : f.select (d.indexOf f) ((Table.get? es f.discriminator).bind Json.str?) = member)
    (hroot : member ≠ base → d.catalog.rootedFamily? member = none)
    (fs : List (String × Converter)) :
    d.follow es d.catalog.length ⟨base, fs, none⟩ =
      if member = base then .ok ⟨base, fs, none⟩
      else
        match (d.catalog.converter (.record member)).map Converter.fields with
        | .error e => .error (.here (.unresolved e))
        | .ok fields => .ok ⟨member, fields, some member.name⟩ := by
  obtain ⟨n, hn⟩ : ∃ n, d.catalog.length = n + 1 := by
    cases hc : d.catalog with
    | nil => rw [hc] at hbase; cases hbase
    | cons s older => exact ⟨older.length, rfl⟩
  rw [hn, follow_succ, hbase]
  simp only [hmember]
  split
  · rfl
  · next hne =>
    cases (d.catalog.converter (.record member)).map Converter.fields with
    | error e => rfl
    | ok fields => exact follow_eq_self (hroot hne) es n

theorem items_cons {item : Converter} {v : Json} {vs : List Json} {position : Nat} :
    d.items item (v :: vs) position =
      match d.apply item v with
      | .error e => .error (e.under (toString position))
      | .ok x => (d.items item vs (position + 1)).map (x :: ·) := by
  unfold apply items
  rw [convertItems]
  rcases convert d.catalog d.source item v () with ⟨_ | x, ⟨⟩⟩
  · rfl
  · simp only
    rcases convertItems d.catalog d.source item vs (position + 1) () with ⟨_ | xs, s⟩ <;> rfl

theorem entries_cons {key : Scalar} {value : Converter} {k : String} {v : Json} {es : Object}
    {done : List (MapKey × Value)} :
    d.entries key value ((k, v) :: es) done =
      match key.convertKey k with
      | .error e => .error (e.under k)
      | .ok l =>
        match d.apply value v with
        | .error e => .error (e.under k)
        | .ok x => d.entries key value es (Table.put done l x) := by
  unfold apply entries
  rw [convertEntries]
  rcases key.convertKey k with e | l
  · rfl
  · simp only
    rcases convert d.catalog d.source value v () with ⟨_ | x, ⟨⟩⟩ <;> rfl

theorem fields_cons {name : String} {conv : Converter} {fs : List (String × Converter)}
    {es : Object} {done : List (String × Value)} :
    d.fields ((name, conv) :: fs) es done =
      match d.apply conv ((Table.get? es name).getD .null) with
      | .error e => .error (e.under name)
      | .ok x => d.fields fs es (Table.put done name x) := by
  unfold apply fields
  rw [convertFields]
  rcases convert d.catalog d.source conv ((Table.get? es name).getD .null) () with ⟨_ | x, ⟨⟩⟩ <;>
    rfl

/-! ## Absent payloads -/

theorem apply_null (conv : Converter) : d.apply conv .null = .ok .null := by
  cases conv with
  | scalar kind =>
    rw [apply_scalar]
    cases kind <;> rfl
  | absent => rw [apply_absent]
  | nullable inner => rw [apply_nullable]; rfl
  | list item => rw [apply_list]; rfl
  | map key value => rw [apply_map]; rfl
  | record id fs => rw [apply_record]; rfl

/-! ## Values that come out -/

theorem of_apply_list {item : Converter} {r : Json} {v : Value}
    (h : d.apply (.list item) r = .ok v) :
    v = .null ∨ ∃ vs xs, Payload.items r = .ok (some vs) ∧ d.items item vs 0 = .ok xs ∧
      v = .list xs := by
  rw [apply_list] at h
  rcases hvs : Payload.items r with e | _ | vs <;> rw [hvs] at h
  · cases h
  · cases h
    exact .inl rfl
  · cases hxs : d.items item vs 0 with
    | error e => simp only [hxs] at h; cases h
    | ok xs =>
      simp only [hxs] at h
      cases h
      exact .inr ⟨vs, xs, rfl, hxs, rfl⟩

theorem of_apply_map {key : Scalar} {value : Converter} {r : Json} {v : Value}
    (h : d.apply (.map key value) r = .ok v) :
    v = .null ∨ ∃ es t, Payload.entries r = .ok (some es) ∧ d.entries key value es [] = .ok t ∧
      v = .map t := by
  rw [apply_map] at h
  rcases hes : Payload.entries r with e | _ | es <;> rw [hes] at h
  · cases h
  · cases h
    exact .inl rfl
  · cases ht : d.entries key value es [] with
    | error e => simp only [ht] at h; cases h
    | ok t =>
      simp only [ht] at h
      cases h
      exact .inr ⟨es, t, rfl, ht, rfl⟩

theorem of_apply_record {id : SchemaId} {fs : List (String × Converter)} {r : Json} {v : Value}
    (h : d.apply (.record id fs) r = .ok v) :
    v = .null ∨ ∃ es target typed, Payload.record r = .ok (some es) ∧
      d.follow es d.catalog.length ⟨id, fs, none⟩ = .ok target ∧
      d.fields target.fields es [] = .ok typed ∧
      v = .record (d.catalog.assemble target.schema typed es) := by
  rw [apply_record] at h
  rcases hes : Payload.record r with e | _ | es <;> rw [hes] at h
  · cases h
  · cases h
    exact .inl rfl
  · cases htarget : d.follow es d.catalog.length ⟨id, fs, none⟩ with
    | error e => simp only [htarget] at h; cases h
    | ok target =>
      cases htyped : d.fields target.fields es [] with
      | error e => simp only [htarget, htyped] at h; cases h
      | ok typed =>
        simp only [htarget, htyped] at h
        cases h
        exact .inr ⟨es, target, typed, rfl, htarget, htyped, rfl⟩

theorem apply_list_arr {item : Converter} {vs : List Json} {xs : List Value}
    (h : d.items item vs 0 = .ok xs) : d.apply (.list item) (.arr vs) = .ok (.list xs) := by
  rw [apply_list]
  simp only [Payload.items, h]
  rfl

theorem apply_map_obj {key : Scalar} {value : Converter} {es : Object} {t : List (MapKey × Value)}
    (h : d.entries key value es [] = .ok t) :
    d.apply (.map key value) (.obj es) = .ok (.map t) := by
  rw [apply_map]
  simp only [Payload.entries, h]
  rfl

theorem of_apply_map_obj {key : Scalar} {value : Converter} {es : Object} {v : Value}
    (h : d.apply (.map key value) (.obj es) = .ok v) :
    ∃ t, d.entries key value es [] = .ok t ∧ v = .map t := by
  rw [apply_map] at h
  simp only [Payload.entries] at h
  cases ht : d.entries key value es [] with
  | error e => rw [ht] at h; cases h
  | ok t =>
    rw [ht] at h
    cases h
    exact ⟨t, rfl, rfl⟩

theorem apply_record_obj {id : SchemaId} {fs : List (String × Converter)} {es : Object}
    {target : Target} {typed : List (String × Value)}
    (htarget : d.follow es d.catalog.length ⟨id, fs, none⟩ = .ok target)
    (htyped : d.fields target.fields es [] = .ok typed) :
    d.apply (.record id fs) (.obj es) =
      .ok (.record (d.catalog.assemble target.schema typed es)) := by
  rw [apply_record]
  show (match d.follow es d.catalog.length ⟨id, fs, none⟩ with
    | .error e => Except.error e
    | .ok target => _) = _
  simp only [htarget, htyped]

/-! ## Walks -/

theorem of_items {item : Converter} {vs : List Json} {position : Nat} {xs : List Value}
    (h : d.items item vs position = .ok xs) : ∀ x ∈ xs, ∃ v ∈ vs, d.apply item v = .ok x := by
  induction vs generalizing position xs with
  | nil =>
    unfold items at h
    rw [convertItems] at h
    cases h
    simp
  | cons v vs ih =>
    rw [items_cons] at h
    cases hv : d.apply item v with
    | error e =>
      rw [hv] at h
      cases h
    | ok y =>
      rw [hv] at h
      cases hys : d.items item vs (position + 1) with
      | error e =>
        rw [hys] at h
        cases h
      | ok ys =>
        rw [hys] at h
        cases h
        intro x hx
        rcases List.mem_cons.1 hx with rfl | hx
        · exact ⟨v, by simp, hv⟩
        · obtain ⟨w, hw, hwx⟩ := ih hys x hx
          exact ⟨w, by simp [hw], hwx⟩

theorem entries_nil {key : Scalar} {value : Converter} {done : List (MapKey × Value)} :
    d.entries key value [] done = .ok done := by
  unfold entries
  rw [convertEntries]

theorem entries_cons_eq_ok {key : Scalar} {value : Converter} {f : String × Json} {es : Object}
    {done t : List (MapKey × Value)} :
    d.entries key value (f :: es) done = .ok t ↔
      ∃ k x, key.convertKey f.1 = .ok k ∧ d.apply value f.2 = .ok x ∧
        d.entries key value es (Table.put done k x) = .ok t := by
  obtain ⟨s, v⟩ := f
  rw [entries_cons]
  cases hk : key.convertKey s with
  | error e => simp
  | ok k =>
    cases hv : d.apply value v with
    | error e => simp
    | ok x => simp

theorem of_entries {key : Scalar} {value : Converter} {es : Object}
    {done t : List (MapKey × Value)} (h : d.entries key value es done = .ok t) :
    ∀ e ∈ t, e ∈ done ∨
      ∃ f ∈ es, key.convertKey f.1 = .ok e.1 ∧ d.apply value f.2 = .ok e.2 := by
  induction es generalizing done with
  | nil =>
    rw [entries_nil] at h
    cases h
    exact fun e he => .inl he
  | cons f es ih =>
    obtain ⟨k, x, hk, hx, h⟩ := entries_cons_eq_ok.1 h
    intro e he
    rcases ih h e he with he | ⟨g, hg, hge⟩
    · rcases Table.mem_of_mem_put he with rfl | he
      · exact .inr ⟨f, by simp, hk, hx⟩
      · exact .inl he
    · exact .inr ⟨g, by simp [hg], hge⟩

theorem sorted_entries {key : Scalar} {value : Converter} {es : Object}
    {done t : List (MapKey × Value)} (h : d.entries key value es done = .ok t)
    (hdone : Table.Sorted done) : Table.Sorted t := by
  induction es generalizing done with
  | nil =>
    rw [entries_nil] at h
    cases h
    exact hdone
  | cons f es ih =>
    obtain ⟨k, x, -, -, h⟩ := entries_cons_eq_ok.1 h
    exact ih h (Table.sorted_put hdone k x)

theorem has_entries {key : Scalar} {value : Converter} {es : Object}
    {done t : List (MapKey × Value)} (h : d.entries key value es done = .ok t) :
    (∀ k, Table.has done k = true → Table.has t k = true) ∧
      ∀ f ∈ es, ∃ k, key.convertKey f.1 = .ok k ∧ Table.has t k = true := by
  induction es generalizing done with
  | nil =>
    rw [entries_nil] at h
    cases h
    exact ⟨fun k hk => hk, by simp⟩
  | cons f es ih =>
    obtain ⟨k, x, hk, -, h⟩ := entries_cons_eq_ok.1 h
    obtain ⟨hdone, hes⟩ := ih h
    have hput : ∀ l, Table.has done l = true → Table.has t l = true := by
      intro l hl
      refine hdone l ?_
      rw [Table.has_put, hl, Bool.or_true]
    refine ⟨hput, List.forall_mem_cons.2 ⟨⟨k, hk, hdone k ?_⟩, hes⟩⟩
    rw [Table.has_put, decide_eq_true rfl, Bool.true_or]

theorem get?_entries_of_not_mem {value : Converter} {es : Object} {done t : List (MapKey × Value)}
    (h : d.entries .str value es done = .ok t) {k : String} (hk : k ∉ es.map (·.1)) :
    Table.get? t (.str k) = Table.get? done (.str k) := by
  induction es generalizing done with
  | nil =>
    rw [entries_nil] at h
    cases h
    rfl
  | cons f es ih =>
    obtain ⟨_, x, ⟨⟩, -, h⟩ := entries_cons_eq_ok.1 h
    simp only [List.map_cons, List.mem_cons, not_or] at hk
    rw [ih h hk.2, Table.get?_put, if_neg fun heq => hk.1 (MapKey.str.inj heq)]

theorem get?_entries {value : Converter} {es : Object} {done t : List (MapKey × Value)}
    (h : d.entries .str value es done = .ok t) (hkeys : (es.map (·.1)).Nodup) :
    ∀ f ∈ es, ∃ x, Table.get? t (.str f.1) = some x ∧ d.apply value f.2 = .ok x := by
  induction es generalizing done with
  | nil => simp
  | cons f es ih =>
    obtain ⟨_, x, ⟨⟩, hx, h⟩ := entries_cons_eq_ok.1 h
    rw [List.map_cons, List.nodup_cons] at hkeys
    refine List.forall_mem_cons.2 ⟨⟨x, ?_, hx⟩, ih h hkeys.2⟩
    rw [get?_entries_of_not_mem h hkeys.1, Table.get?_put, if_pos rfl]

theorem exists_entries {key : Scalar} {value : Converter} {es : Object}
    (h : ∀ f ∈ es, ∃ k x, key.convertKey f.1 = .ok k ∧ d.apply value f.2 = .ok x)
    (done : List (MapKey × Value)) : ∃ t, d.entries key value es done = .ok t := by
  induction es generalizing done with
  | nil => exact ⟨done, entries_nil⟩
  | cons f es ih =>
    obtain ⟨⟨k, x, hk, hx⟩, hes⟩ := List.forall_mem_cons.1 h
    obtain ⟨t, ht⟩ := ih hes (Table.put done k x)
    exact ⟨t, entries_cons_eq_ok.2 ⟨k, x, hk, hx, ht⟩⟩

theorem fields_nil {es : Object} {done : List (String × Value)} :
    d.fields [] es done = .ok done := by
  unfold fields
  rw [convertFields]

theorem fields_cons_eq_ok {f : String × Converter} {fs : List (String × Converter)} {es : Object}
    {done t : List (String × Value)} :
    d.fields (f :: fs) es done = .ok t ↔
      ∃ x, d.apply f.2 ((Table.get? es f.1).getD .null) = .ok x ∧
        d.fields fs es (Table.put done f.1 x) = .ok t := by
  obtain ⟨name, conv⟩ := f
  rw [fields_cons]
  cases hx : d.apply conv ((Table.get? es name).getD .null) with
  | error e => simp
  | ok x => simp

theorem get?_fields_of_not_mem {fs : List (String × Converter)} {es : Object}
    {done t : List (String × Value)} (h : d.fields fs es done = .ok t) {k : String}
    (hk : k ∉ fs.map (·.1)) : Table.get? t k = Table.get? done k := by
  induction fs generalizing done with
  | nil =>
    rw [fields_nil] at h
    cases h
    rfl
  | cons f fs ih =>
    obtain ⟨x, -, h⟩ := fields_cons_eq_ok.1 h
    simp only [List.map_cons, List.mem_cons, not_or] at hk
    rw [ih h hk.2, Table.get?_put, if_neg hk.1]

theorem get?_fields {fs : List (String × Converter)} {es : Object} {done t : List (String × Value)}
    (h : d.fields fs es done = .ok t) (hnames : (fs.map (·.1)).Nodup) :
    ∀ f ∈ fs, ∃ x, Table.get? t f.1 = some x ∧
      d.apply f.2 ((Table.get? es f.1).getD .null) = .ok x := by
  induction fs generalizing done with
  | nil => simp
  | cons f fs ih =>
    obtain ⟨x, hx, h⟩ := fields_cons_eq_ok.1 h
    rw [List.map_cons, List.nodup_cons] at hnames
    refine List.forall_mem_cons.2 ⟨⟨x, ?_, hx⟩, ih h hnames.2⟩
    rw [get?_fields_of_not_mem h hnames.1, Table.get?_put, if_pos rfl]

theorem has_fields {fs : List (String × Converter)} {es : Object} {t : List (String × Value)}
    (h : d.fields fs es [] = .ok t) (hnames : (fs.map (·.1)).Nodup) (k : String) :
    Table.has t k = decide (k ∈ fs.map (·.1)) := by
  by_cases hk : k ∈ fs.map (·.1)
  · obtain ⟨f, hf, rfl⟩ := List.mem_map.1 hk
    obtain ⟨x, hx, -⟩ := get?_fields h hnames f hf
    rw [decide_eq_true hk, Table.has, hx]
    rfl
  · rw [decide_eq_false hk, Table.has, get?_fields_of_not_mem h hk]
    rfl

theorem sorted_fields {fs : List (String × Converter)} {es : Object}
    {done t : List (String × Value)} (h : d.fields fs es done = .ok t)
    (hdone : Table.Sorted done) : Table.Sorted t := by
  induction fs generalizing done with
  | nil =>
    rw [fields_nil] at h
    cases h
    exact hdone
  | cons f fs ih =>
    obtain ⟨x, -, h⟩ := fields_cons_eq_ok.1 h
    exact ih h (Table.sorted_put hdone f.1 x)

theorem exists_fields {fs : List (String × Converter)} {es : Object}
    (h : ∀ f ∈ fs, ∃ x, d.apply f.2 ((Table.get? es f.1).getD .null) = .ok x)
    (done : List (String × Value)) : ∃ t, d.fields fs es done = .ok t := by
  induction fs generalizing done with
  | nil => exact ⟨done, fields_nil⟩
  | cons f fs ih =>
    obtain ⟨⟨x, hx⟩, hfs⟩ := List.forall_mem_cons.1 h
    obtain ⟨t, ht⟩ := ih hfs (Table.put done f.1 x)
    exact ⟨t, fields_cons_eq_ok.2 ⟨x, hx, ht⟩⟩

end Domain

/-! ## Parts of payloads -/

namespace Payload

theorem sorted_of_spelled {r w : Json} (hr : r.Sorted) (h : spelled r = .ok w) : w.Sorted := by
  unfold spelled at h
  split at h
  · unfold literal at h
    split at h
    · next hread =>
      cases h
      exact Literal.sorted_of_read hread
    · cases h
  · cases h
    exact hr

theorem spelled_of_items {r : Json} {vs : List Json} (h : items r = .ok (some vs)) :
    spelled r = .ok (.arr vs) := by
  unfold items at h
  split at h
  · cases h
  · cases h
    rfl
  · next text =>
    cases hl : literal text with
    | error e => rw [hl] at h; cases h
    | ok w =>
      rw [hl] at h
      cases w <;> cases h
      exact hl
  · cases h

theorem spelled_of_entries {r : Json} {es : Object} (h : entries r = .ok (some es)) :
    spelled r = .ok (.obj es) := by
  unfold entries at h
  split at h
  · cases h
  · cases h
    rfl
  · next text =>
    cases hl : literal text with
    | error e => rw [hl] at h; cases h
    | ok w =>
      rw [hl] at h
      cases w <;> cases h
      exact hl
  · cases h

theorem spelled_of_record {r : Json} {es : Object} (h : record r = .ok (some es)) :
    spelled r = .ok (.obj es) := by
  unfold record at h
  cases hl : spelled r with
  | error e => rw [hl] at h; cases h
  | ok w =>
    rw [hl] at h
    cases w <;> cases h
    rfl

theorem sorted_of_items {r : Json} {vs : List Json} (hr : r.Sorted)
    (h : items r = .ok (some vs)) : ∀ v ∈ vs, v.Sorted :=
  Json.sortedItems_iff.1 (sorted_of_spelled hr (spelled_of_items h))

theorem sorted_of_entries {r : Json} {es : Object} (hr : r.Sorted)
    (h : entries r = .ok (some es)) : (Json.obj es).Sorted :=
  sorted_of_spelled hr (spelled_of_entries h)

theorem sorted_of_record {r : Json} {es : Object} (hr : r.Sorted)
    (h : record r = .ok (some es)) : (Json.obj es).Sorted :=
  sorted_of_spelled hr (spelled_of_record h)

end Payload

theorem Json.Sorted.value {es : Object} (h : (Json.obj es).Sorted) {f : String × Json}
    (hf : f ∈ es) : f.2.Sorted := by
  rw [Json.Sorted, Json.sortedEntries_iff] at h
  exact h.2 f hf

end GardenMap
