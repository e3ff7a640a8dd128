import GardenMap.Proofs.Record.Keys
import GardenMap.Proofs.Record.RelativeUpdates
import GardenMap.Proofs.Record.Soundness

/-!
# The last update of a key counts

Updates without a mark leave the last value of every key that they name and nothing else changes, so
two lists with the same last values leave the same record (`apply_last`).

Proof. One update writes one value to one place (`of_update`). What a list has left after some of its
updates is described by look-ups, `Takes`: each place holds the last value that was brought to it,
or what it held before. One more update keeps the description, and a record in order is known by
its look-ups.
-/

namespace GardenMap.Record

/-- The last value that updates give for a key. -/
def last? (updates : List (String × Json)) (key : String) : Option Json :=
  Table.get? (Table.ofList updates) key

/-- The entries for undeclared keys in a field, none when it is absent. -/
def bucketEntries? (r : Record) (bucket : String) : Option (List (MapKey × Value)) :=
  let held := (r.get? bucket).getD .null
  if held.isNull then some [] else held.entries?

/-- The tables of a record are in order, that of its undeclared keys too. -/
structure InOrder (c : Catalog) (r : Record) : Prop where
  tables : r.Sorted
  entries : ∀ bucket t, c.metadataField? r.schema = some bucket →
    r.bucketEntries? bucket = some t → Table.Sorted t

/-- Updates neither append nor name the field for undeclared keys. -/
structure Plain (c : Catalog) (schema : SchemaId) (updates : List (String × Json)) : Prop where
  unmarked : ∀ u ∈ updates, u.1.toList.head? ≠ some appendMark
  elsewhere : ∀ u ∈ updates, c.metadataField? schema ≠ some u.1

theorem last?_append (updates : List (String × Json)) (u : String × Json) (key : String) :
    last? (updates ++ [u]) key = if key = u.1 then some u.2 else last? updates key := by
  unfold last? Table.ofList Table.putAll
  rw [List.foldl_append, List.foldl_cons, List.foldl_nil, Table.get?_put]

variable {d : Domain} {now : Instant} {r r' : Record}

/-! ## One update -/

/-- A table with a value at a key, or without an entry there when the value is absent. -/
def withEntry {κ : Type} [Ord κ] (t : List (κ × Value)) (key : κ) (x : Value) : List (κ × Value) :=
  if x.isNull then Table.erase t key else Table.put t key x

/-- A value brought to a key of a record: to the declared field, or to the place for undeclared
keys. -/
inductive Brings (c : Catalog) (key : String) (x : Value) (r : Record) : Record → Prop
  | field (hf : (c.field? r.schema key).isSome = true) : Brings c key x r (r.put key x)
  | extra (hf : c.field? r.schema key = none) (hm : c.metadataField? r.schema = none) :
      Brings c key x r { r with extra := withEntry r.extra key x }
  | entry {bucket : String} {t : List (MapKey × Value)} (hf : c.field? r.schema key = none)
      (hm : c.metadataField? r.schema = some bucket) (ht : r.bucketEntries? bucket = some t) :
      Brings c key x r (r.put bucket (.map (withEntry t (.str key) x)))

theorem updateBucket_eq {κ : Type} [Ord κ] (t : List (κ × Value)) (key : κ) (w : Json) :
    updateBucket t key w false = (withEntry t key (.raw w), .ok ()) := by
  unfold updateBucket withEntry
  rw [if_neg Bool.false_ne_true, show (Value.raw w).isNull = w.isNull from rfl]
  split <;> rfl

theorem of_updateField {f : Field} {w : Json}
    (h : updateField d r f w false = (r', .ok ())) :
    ∃ conv x, d.catalog.converter f.shape = .ok conv ∧ d.apply conv w = .ok x ∧
      r' = r.put f.name x := by
  unfold updateField at h
  cases hconv : d.catalog.converter f.shape with
  | error e => simp [hconv] at h
  | ok conv =>
    cases hx : d.apply conv w with
    | error e => simp [hconv, hx] at h
    | ok x =>
      simp only [hconv, hx, Bool.false_eq_true, if_false, Prod.mk.injEq, and_true] at h
      exact ⟨conv, x, rfl, hx, h.symm⟩

theorem of_updateMetadata {c : Catalog} {key : String} {w : Json}
    (hf : c.field? r.schema key = none) (h : updateMetadata c r key w false = (r', .ok ())) :
    Brings c key (.raw w) r r' := by
  unfold updateMetadata at h
  cases hm : c.metadataField? r.schema with
  | none =>
    simp only [hm, updateBucket_eq, Prod.mk.injEq, and_true] at h
    exact h ▸ .extra hf hm
  | some bucket =>
    simp only [hm] at h
    have hentries : ∀ t, (if ((r.get? bucket).getD .null).isNull = true then Value.map []
        else (r.get? bucket).getD .null) = .map t → r.bucketEntries? bucket = some t := by
      intro t ht
      unfold bucketEntries?
      simp only
      split
      · next hnull =>
        rw [if_pos hnull] at ht
        cases ht
        rfl
      · next hnull =>
        rw [if_neg hnull] at ht
        rw [ht]
        rfl
    split at h
    · next t ht =>
      simp only [updateBucket_eq, Prod.mk.injEq, and_true] at h
      exact h ▸ .entry hf hm (hentries t ht)
    · cases (Prod.mk.inj h).2

theorem of_mapError {ε ε' : Type} {f : ε → ε'} {x : Except ε Unit}
    (h : x.mapError f = .ok ()) : x = .ok () := by
  cases x with
  | ok => rfl
  | error e => cases h

theorem metadata?_of_entries {c : Catalog} {bucket : String}
    (hm : c.metadataField? r.schema = some bucket) {t : List (MapKey × Value)}
    (ht : r.bucketEntries? bucket = some t) (key : String) :
    r.metadata? c key = Table.get? t (.str key) := by
  simp only [metadata?, hm]
  unfold bucketEntries? at ht
  cases hheld : r.get? bucket with
  | none =>
    rw [hheld] at ht
    cases ht
    rfl
  | some held =>
    rw [hheld] at ht
    simp only [Option.getD_some] at ht
    rw [Option.bind_some]
    split at ht
    · next hnull =>
      cases ht
      cases held with
      | null | raw => rfl
      | _ => cases hnull
    · rw [ht]
      rfl

/-- What an update without a mark does when it succeeds. -/
theorem of_update {key : String} {v : Json} (hmark : key.toList.head? ≠ some appendMark)
    (h : r.update d now key v = (r', .ok ())) :
    ∃ x, incoming? d now r key v = some x ∧ Brings d.catalog key x r r' := by
  unfold update at h
  rw [splitMark_of_head?_ne hmark] at h
  simp only at h
  split at h
  · cases (Prod.mk.inj h).2
  · next w hw =>
    simp only [Prod.mk.injEq] at h
    cases hf : d.catalog.field? r.schema key with
    | none =>
      simp only [hf, Option.any_none] at h hw
      have hupdate : r.updateMetadata d.catalog key w false = (r', .ok ()) :=
        Prod.ext h.1 (of_mapError h.2)
      exact ⟨.raw w, (incoming?_metadata hf hw).2 rfl, of_updateMetadata hf hupdate⟩
    | some f =>
      simp only [hf, Option.any_some] at h hw
      have hupdate : r.updateField d f w false = (r', .ok ()) := Prod.ext h.1 (of_mapError h.2)
      obtain ⟨conv, x, hconv, hx, rfl⟩ := of_updateField hupdate
      refine ⟨x, (incoming?_field hf hw).2 ⟨conv, hconv, hx⟩, ?_⟩
      rw [Catalog.name_of_field? hf]
      exact .field (by rw [hf]; rfl)

theorem incoming?_congr (h : r'.schema = r.schema) (key : String) (v : Json) :
    incoming? d now r' key v = incoming? d now r key v := by
  unfold incoming?
  rw [h]

/-! ## Several updates -/

variable (d now r)

/-- What updates bring to a declared field, if they name it. -/
def fieldNews? (updates : List (String × Json)) (name : String) : Option Value :=
  if (d.catalog.field? r.schema name).isSome then
    (last? updates name).bind (incoming? d now r name)
  else none

/-- What updates leave under an undeclared key, if they name it: nothing of an absent value. -/
def entryNews? (updates : List (String × Json)) (key : String) : Option (Option Value) :=
  if (d.catalog.field? r.schema key).isSome then none
  else (last? updates key).map fun v => (incoming? d now r key v).filter fun x => !x.isNull

variable {d now r}

/-- What is new under keys of mappings, which are undeclared keys when they are texts. -/
def underKeys (news : String → Option (Option Value)) : MapKey → Option (Option Value)
  | .str key => news key
  | _ => none

/-- A table in order that holds what is new, and elsewhere what another table holds. -/
structure Overlaid {κ : Type} [Ord κ] (news : κ → Option (Option Value))
    (t t' : List (κ × Value)) : Prop where
  sorted : Table.Sorted t'
  get? : ∀ k, Table.get? t' k = (news k).getD (Table.get? t k)

/-- The second record is the first with what updates bring. -/
structure Takes (d : Domain) (now : Instant) (updates : List (String × Json))
    (r r' : Record) : Prop where
  schema : r'.schema = r.schema
  brought : ∀ key v, last? updates key = some v → (incoming? d now r key v).isSome = true
  sorted : Table.Sorted r'.fields
  field : ∀ name, d.catalog.metadataField? r.schema ≠ some name →
    r'.get? name = (fieldNews? d now r updates name).or (r.get? name)
  extra : d.catalog.metadataField? r.schema = none →
    Overlaid (entryNews? d now r updates) r.extra r'.extra
  kept : d.catalog.metadataField? r.schema ≠ none → r'.extra = r.extra
  entries : ∀ bucket, d.catalog.metadataField? r.schema = some bucket →
    (∀ key, entryNews? d now r updates key = none) ∧ r'.get? bucket = r.get? bucket ∨
    (∃ key, entryNews? d now r updates key ≠ none) ∧ ∃ t t', r.bucketEntries? bucket = some t ∧
      r'.get? bucket = some (.map t') ∧ Overlaid (underKeys (entryNews? d now r updates)) t t'

namespace Overlaid

variable {κ : Type} [Ord κ] {news : κ → Option (Option Value)} {t t' t'' : List (κ × Value)}

theorem refl (ht : Table.Sorted t) : Overlaid (fun _ => none) t t := ⟨ht, fun _ => rfl⟩

variable [Std.LawfulEqOrd κ] [Std.TransOrd κ] [DecidableEq κ]

theorem withEntry (h : Overlaid news t t') (key : κ) (x : Value) :
    Overlaid (fun k => if k = key then some ((some x).filter fun x => !x.isNull) else news k) t
      (Record.withEntry t' key x) := by
  unfold Record.withEntry
  split
  · next hx =>
    refine ⟨Table.sorted_erase h.sorted key, fun k => ?_⟩
    rw [Table.get?_erase h.sorted]
    split
    · simp [Option.filter, hx]
    · exact h.get? k
  · next hx =>
    refine ⟨Table.sorted_put h.sorted key x, fun k => ?_⟩
    rw [Table.get?_put]
    split
    · simp [Option.filter, hx]
    · exact h.get? k

theorem unique (h : Overlaid news t t') (h' : Overlaid news t t'') : t' = t'' :=
  Table.eq_of_get? h.sorted h'.sorted fun k => (h.get? k).trans (h'.get? k).symm

end Overlaid

section News

variable {updates : List (String × Json)} {key : String} {v : Json} {x : Value}

theorem fieldNews?_of_declared (hf : (d.catalog.field? r.schema key).isSome = true)
    (hx : incoming? d now r key v = some x) (name : String) :
    fieldNews? d now r (updates ++ [(key, v)]) name =
      if name = key then some x else fieldNews? d now r updates name := by
  unfold fieldNews?
  rw [last?_append]
  by_cases hname : name = key
  · subst hname
    rw [if_pos rfl, if_pos hf, if_pos rfl, Option.bind_some, hx]
  · rw [if_neg hname, if_neg hname]

theorem fieldNews?_of_undeclared (hf : d.catalog.field? r.schema key = none) (name : String) :
    fieldNews? d now r (updates ++ [(key, v)]) name = fieldNews? d now r updates name := by
  unfold fieldNews?
  rw [last?_append]
  by_cases hname : name = key
  · subst hname
    rw [hf]
    rfl
  · rw [if_neg hname]

theorem fieldNews?_congr {updates' : List (String × Json)}
    (h : ∀ key, last? updates' key = last? updates key) :
    fieldNews? d now r updates' = fieldNews? d now r updates := by
  funext name
  unfold fieldNews?
  rw [h]

theorem entryNews?_congr {updates' : List (String × Json)}
    (h : ∀ key, last? updates' key = last? updates key) :
    entryNews? d now r updates' = entryNews? d now r updates := by
  funext key
  unfold entryNews?
  rw [h]

theorem entryNews?_nil : entryNews? d now r [] = fun _ => none := by
  funext key
  unfold entryNews?
  split <;> rfl

theorem entryNews?_of_declared (hf : (d.catalog.field? r.schema key).isSome = true) :
    entryNews? d now r (updates ++ [(key, v)]) = entryNews? d now r updates := by
  funext k
  unfold entryNews?
  rw [last?_append]
  by_cases hk : k = key
  · subst hk
    rw [if_pos hf, if_pos hf]
  · rw [if_neg hk]

theorem entryNews?_of_undeclared (hf : d.catalog.field? r.schema key = none)
    (hx : incoming? d now r key v = some x) :
    entryNews? d now r (updates ++ [(key, v)]) = fun k =>
      if k = key then some ((some x).filter fun x => !x.isNull)
      else entryNews? d now r updates k := by
  funext k
  unfold entryNews?
  rw [last?_append]
  by_cases hk : k = key
  · subst hk
    rw [if_pos rfl, if_pos rfl, hf, Option.map_some, hx]
    rfl
  · rw [if_neg hk, if_neg hk]

end News

namespace Takes

variable {updates : List (String × Json)} {key : String} {v : Json} {x : Value}

theorem nil (hr : r.InOrder d.catalog) : Takes d now [] r r where
  schema := rfl
  brought key v h := by cases h
  sorted := hr.tables.1
  field name _ := by
    have hnone : fieldNews? d now r [] name = none := by
      unfold fieldNews?
      split <;> rfl
    rw [hnone, Option.none_or]
  extra _ := by
    rw [entryNews?_nil]
    exact .refl hr.tables.2
  kept _ := rfl
  entries _ _ := .inl ⟨fun key => congrFun entryNews?_nil key, rfl⟩

theorem overlaid_entries (h : Takes d now updates r r') (hr : r.InOrder d.catalog)
    {bucket : String} (hm : d.catalog.metadataField? r.schema = some bucket)
    {t' : List (MapKey × Value)} (ht' : r'.bucketEntries? bucket = some t') :
    ∃ t, r.bucketEntries? bucket = some t ∧
      Overlaid (underKeys (entryNews? d now r updates)) t t' := by
  obtain ⟨hnone, hsame⟩ | ⟨-, t, t'', ht, hget, hover⟩ := h.entries bucket hm
  · have ht : r.bucketEntries? bucket = some t' := by
      unfold bucketEntries? at ht' ⊢
      rwa [hsame] at ht'
    refine ⟨t', ht, hr.entries bucket t' hm ht, fun k => ?_⟩
    cases k with
    | str key =>
      show _ = (entryNews? d now r updates key).getD _
      rw [hnone]
      rfl
    | _ => rfl
  · have heq : r'.bucketEntries? bucket = some t'' := by
      unfold bucketEntries?
      rw [hget]
      rfl
    cases heq.symm.trans ht'
    exact ⟨t, ht, hover⟩

theorem brought_append (h : Takes d now updates r r') (hx : incoming? d now r key v = some x)
    (k : String) (w : Json) (hw : last? (updates ++ [(key, v)]) k = some w) :
    (incoming? d now r k w).isSome = true := by
  rw [last?_append] at hw
  split at hw
  · next hk =>
    cases hw
    rw [hk, hx]
    rfl
  · exact h.brought k w hw

theorem field_step (h : Takes d now updates r r')
    (hx : incoming? d now r key v = some x) (hf : (d.catalog.field? r.schema key).isSome = true)
    (helse : d.catalog.metadataField? r.schema ≠ some key) :
    Takes d now (updates ++ [(key, v)]) r (r'.put key x) where
  schema := h.schema
  brought := h.brought_append hx
  sorted := Table.sorted_put h.sorted key x
  field name hname := by
    rw [fieldNews?_of_declared hf hx]
    by_cases hk : name = key
    · rw [if_pos hk, hk, get?_put_self, Option.some_or]
    · rw [if_neg hk, get?_put_of_ne hk, h.field name hname]
  extra hm := by
    rw [entryNews?_of_declared hf]
    exact h.extra hm
  kept hm := h.kept hm
  entries bucket hm := by
    have hne : bucket ≠ key := fun heq => helse (heq ▸ hm)
    rw [entryNews?_of_declared hf, get?_put_of_ne hne]
    exact h.entries bucket hm

theorem extra_step (h : Takes d now updates r r') (hx : incoming? d now r key v = some x)
    (hf : d.catalog.field? r.schema key = none) (hm : d.catalog.metadataField? r.schema = none) :
    Takes d now (updates ++ [(key, v)]) r { r' with extra := withEntry r'.extra key x } where
  schema := h.schema
  brought := h.brought_append hx
  sorted := h.sorted
  field name hname := by
    rw [fieldNews?_of_undeclared hf]
    exact h.field name hname
  extra _ := by
    rw [entryNews?_of_undeclared hf hx]
    exact (h.extra hm).withEntry key x
  kept hm' := absurd hm hm'
  entries bucket hm' := by
    rw [hm] at hm'
    cases hm'

theorem entry_step (h : Takes d now updates r r') (hr : r.InOrder d.catalog)
    (hx : incoming? d now r key v = some x) (hf : d.catalog.field? r.schema key = none)
    {bucket : String} (hm : d.catalog.metadataField? r.schema = some bucket)
    {t' : List (MapKey × Value)} (ht' : r'.bucketEntries? bucket = some t') :
    Takes d now (updates ++ [(key, v)]) r
      (r'.put bucket (.map (withEntry t' (.str key) x))) where
  schema := h.schema
  brought := h.brought_append hx
  sorted := Table.sorted_put h.sorted bucket _
  field name hname := by
    have hne : name ≠ bucket := fun heq => hname (heq ▸ hm)
    rw [fieldNews?_of_undeclared hf, get?_put_of_ne hne]
    exact h.field name hname
  extra hm' := by
    rw [hm] at hm'
    cases hm'
  kept hm' := h.kept hm'
  entries bucket' hm' := by
    cases hm.symm.trans hm'
    obtain ⟨t, ht, hover⟩ := h.overlaid_entries hr hm ht'
    have hnews : underKeys (entryNews? d now r (updates ++ [(key, v)])) = fun k =>
        if k = .str key then some ((some x).filter fun x => !x.isNull)
        else underKeys (entryNews? d now r updates) k := by
      rw [entryNews?_of_undeclared hf hx]
      funext k
      cases k with
      | str k => simp only [underKeys, MapKey.str.injEq]
      | _ => rw [if_neg nofun]; rfl
    refine .inr ⟨⟨key, ?_⟩, t, _, ht, get?_put_self _ _ _, hnews ▸ hover.withEntry (.str key) x⟩
    rw [entryNews?_of_undeclared hf hx]
    simp

theorem step (h : Takes d now updates r r') (hr : r.InOrder d.catalog) {r'' : Record}
    (hmark : key.toList.head? ≠ some appendMark)
    (helse : d.catalog.metadataField? r.schema ≠ some key)
    (hupdate : r'.update d now key v = (r'', .ok ())) :
    Takes d now (updates ++ [(key, v)]) r r'' := by
  obtain ⟨x, hx, hbrings⟩ := of_update hmark hupdate
  rw [incoming?_congr h.schema] at hx
  have hschema := h.schema
  cases hbrings with
  | field hf => exact h.field_step hx (hschema ▸ hf) helse
  | extra hf hm => exact h.extra_step hx (hschema ▸ hf) (hschema ▸ hm)
  | entry hf hm ht => exact h.entry_step hr hx (hschema ▸ hf) (hschema ▸ hm) ht

theorem run (h : Takes d now updates r r') (hr : r.InOrder d.catalog)
    {rest : List (String × Json)} (hrest : Plain d.catalog r.schema rest) {r'' : Record}
    (happly : r'.apply d now rest = (r'', .ok ())) : Takes d now (updates ++ rest) r r'' := by
  -- on the updates that are left, those done so far growing at their end
  induction rest generalizing updates r' with
  | nil =>
    cases happly
    rw [List.append_nil]
    exact h
  | cons u rest ih =>
    obtain ⟨key, v⟩ := u
    obtain ⟨hmark, hmarks⟩ := List.forall_mem_cons.1 hrest.unmarked
    obtain ⟨helse, helses⟩ := List.forall_mem_cons.1 hrest.elsewhere
    rw [apply] at happly
    rcases hupdate : r'.update d now key v with ⟨r₁, _ | ⟨⟩⟩
    · rw [hupdate] at happly
      cases happly
    · rw [hupdate] at happly
      have hstep := h.step hr hmark helse hupdate
      rw [List.append_cons]
      exact ih hstep ⟨hmarks, helses⟩ happly

theorem bucket_unique (h : Takes d now updates r r') {updates' : List (String × Json)}
    {r'' : Record} (h' : Takes d now updates' r r'')
    (hnews : entryNews? d now r updates' = entryNews? d now r updates) {bucket : String}
    (hm : d.catalog.metadataField? r.schema = some bucket) :
    r''.get? bucket = r'.get? bucket := by
  have hbucket := h'.entries bucket hm
  rw [hnews] at hbucket
  obtain ⟨hnone, hkept⟩ | ⟨⟨key, hkey⟩, t, t', ht, hget, hover⟩ := h.entries bucket hm
  · obtain ⟨-, hkept'⟩ | ⟨⟨key, hkey⟩, -⟩ := hbucket
    · rw [hkept, hkept']
    · exact absurd (hnone key) hkey
  · obtain ⟨hnone, -⟩ | ⟨-, u, u', hu, hget', hover'⟩ := hbucket
    · exact absurd (hnone key) hkey
    · cases ht.symm.trans hu
      rw [hget, hget', hover'.unique hover]

theorem unique (h : Takes d now updates r r') {updates' : List (String × Json)} {r'' : Record}
    (h' : Takes d now updates' r r'') (hsame : ∀ key, last? updates' key = last? updates key) :
    r'' = r' := by
  have hentry : entryNews? d now r updates' = entryNews? d now r updates :=
    entryNews?_congr hsame
  have hfields : r''.fields = r'.fields := by
    refine Table.eq_of_get? h'.sorted h.sorted fun name => ?_
    -- the field for undeclared keys is known by its entries, every other one by its news
    by_cases hname : d.catalog.metadataField? r.schema = some name
    · exact h.bucket_unique h' hentry hname
    · have hget := h'.field name hname
      rw [fieldNews?_congr hsame] at hget
      exact hget.trans (h.field name hname).symm
  have hextra : r''.extra = r'.extra := by
    cases hm : d.catalog.metadataField? r.schema with
    | none =>
      have hover := h'.extra hm
      rw [hentry] at hover
      exact hover.unique (h.extra hm)
    | some bucket =>
      have hne : d.catalog.metadataField? r.schema ≠ none := by
        rw [hm]
        nofun
      rw [h'.kept hne, h.kept hne]
  have hschema : r''.schema = r'.schema := h'.schema.trans h.schema.symm
  cases r'
  cases r''
  simp only at hschema hfields hextra
  rw [hschema, hfields, hextra]

theorem metadata?_eq (h : Takes d now updates r r') (key : String) :
    r'.metadata? d.catalog key =
      (entryNews? d now r updates key).getD (r.metadata? d.catalog key) := by
  cases hm : d.catalog.metadataField? r.schema with
  | none =>
    simp only [metadata?, h.schema, hm]
    exact (h.extra hm).get? key
  | some bucket =>
    obtain ⟨hnone, hkept⟩ | ⟨-, t, t', ht, hget, hover⟩ := h.entries bucket hm
    · simp only [metadata?, h.schema, hm, hkept, hnone]
      rfl
    · rw [metadata?_of_entries hm ht]
      simp only [metadata?, h.schema, hm, hget, Option.bind_some, Value.entries?]
      exact hover.get? (.str key)

end Takes

/-! ## What is left -/

theorem exists_resolved {key : String} {v : Json} {x : Value}
    (hx : incoming? d now r key v = some x) :
    ∃ w, resolveRelative now ((d.catalog.field? r.schema key).any fun f => f.shape.isDate) v =
      some w := by
  cases hw : resolveRelative now ((d.catalog.field? r.schema key).any fun f => f.shape.isDate) v with
  | none =>
    rw [incoming?_of_outOfCalendar hw] at hx
    cases hx
  | some w => exact ⟨w, rfl⟩

/-- A record of this schema, made of any payload with this entry, has this value in the field before
it is finished. -/
def Constructs (d : Domain) (schema : SchemaId) (name : String) (w : Json) (x : Value) : Prop :=
  ∀ id es made, Table.get? es name = some w → d.record id (.obj es) = .ok made →
    made.schema = schema → ∃ fs typed, Builds d.catalog (.record schema) (.record schema fs) ∧
      d.fields fs es [] = .ok typed ∧ made = d.catalog.assemble schema typed es ∧
      Table.get? typed name = some x

theorem constructs_of_apply {schema : SchemaId} {f : Field} (hf : f ∈ d.catalog.allFields schema)
    {conv : Converter} (hconv : d.catalog.converter f.shape = .ok conv) {w : Json} {x : Value}
    (hx : d.apply conv w = .ok x) : Constructs d schema f.name w x := by
  rintro id es made hw hmade rfl
  obtain ⟨es', fs, typed, hes, hb, htyped, hmade⟩ := Domain.exists_assembled hmade
  cases hes
  refine ⟨fs, typed, hb, htyped, hmade, ?_⟩
  obtain ⟨fs', heq, hnames, hparts⟩ := hb.of_record
  cases heq
  have hname : f.name ∈ fs.map (·.1) := by
    rw [hnames]
    exact List.mem_map.2 ⟨f, hf, rfl⟩
  have hnodup : (fs.map (·.1)).Nodup := by
    rw [hnames]
    exact Catalog.nodup_allFields _ _
  obtain ⟨e, he, hef⟩ := List.mem_map.1 hname
  obtain ⟨g, hg, hge, hpart⟩ := hparts e he
  obtain rfl : g = f := Catalog.eq_of_name_eq hg hf (hge.trans hef)
  -- a shape has one converter, so construction and update convert alike
  cases hpart.det (Catalog.converter_eq_ok.1 hconv)
  obtain ⟨y, hy, happly⟩ := Domain.get?_fields htyped hnodup e he
  rw [hef, hw, Option.getD_some, hx] at happly
  cases happly
  rw [← hef, hy]

/-- The second record is the first with the last values of updates. A declared field has the value
that the last one for it converts to, relative dates made absolute, and so has a record that is made
of such a payload. An undeclared key has the last one for it, unless that is null. -/
structure EndsWithLast (d : Domain) (now : Instant) (updates : List (String × Json))
    (r r' : Record) : Prop where
  schema : r'.schema = r.schema
  field : ∀ f v, d.catalog.field? r.schema f.name = some f → last? updates f.name = some v →
    ∃ w conv x, resolveRelative now f.shape.isDate v = some w ∧
      d.catalog.converter f.shape = .ok conv ∧ d.apply conv w = .ok x ∧
      r'.get? f.name = some x ∧ Constructs d r.schema f.name w x
  metadata : ∀ key v, d.catalog.field? r.schema key = none → last? updates key = some v →
    ∃ w, resolveRelative now false v = some w ∧
      r'.metadata? d.catalog key = if w.isNull then none else some (.raw w)
  otherField : ∀ name, d.catalog.metadataField? r.schema ≠ some name →
    last? updates name = none ∨ d.catalog.field? r.schema name = none →
    r'.get? name = r.get? name
  otherMetadata : ∀ key, last? updates key = none ∨ d.catalog.field? r.schema key ≠ none →
    r'.metadata? d.catalog key = r.metadata? d.catalog key
  extra : d.catalog.metadataField? r.schema ≠ none → r'.extra = r.extra

theorem mem_of_last? {updates : List (String × Json)} {key : String} {v : Json}
    (h : last? updates key = some v) : (key, v) ∈ updates :=
  Table.mem_of_mem_ofList (Table.mem_of_get? h)

theorem Takes.endsWithLast {updates : List (String × Json)} (h : Takes d now updates r r')
    (hplain : Plain d.catalog r.schema updates) (hnames : d.catalog.NamesOnce r.schema) :
    EndsWithLast d now updates r r' where
  schema := h.schema
  field f v hf hv := by
    obtain ⟨x, hx⟩ := Option.isSome_iff_exists.1 (h.brought f.name v hv)
    obtain ⟨w, hw⟩ := exists_resolved hx
    rw [hf, Option.any_some] at hw
    obtain ⟨conv, hconv, happly⟩ := (incoming?_field hf hw).1 hx
    refine ⟨w, conv, x, hw, hconv, happly, ?_, constructs_of_apply
      (Catalog.mem_allFields_of_field? hnames hf).1 hconv happly⟩
    rw [h.field f.name (hplain.elsewhere (f.name, v) (mem_of_last? hv)), fieldNews?, hf, hv]
    show (incoming? d now r f.name v).or _ = _
    rw [hx, Option.some_or]
  metadata key v hf hv := by
    obtain ⟨x, hx⟩ := Option.isSome_iff_exists.1 (h.brought key v hv)
    obtain ⟨w, hw⟩ := exists_resolved hx
    rw [hf, Option.any_none] at hw
    obtain rfl := (incoming?_metadata hf hw).1 hx
    refine ⟨w, hw, ?_⟩
    rw [h.metadata?_eq, entryNews?, hf, hv]
    simp only [Option.isSome_none, Bool.false_eq_true, if_false, Option.map_some, hx,
      Option.getD_some]
    cases hnull : w.isNull <;> simp [Option.filter, Value.isNull, hnull]
  otherField name hname hnone := by
    have hnews : fieldNews? d now r updates name = none := by
      unfold fieldNews?
      rcases hnone with hnone | hnone
      · rw [hnone]
        split <;> rfl
      · rw [hnone]
        rfl
    rw [h.field name hname, hnews, Option.none_or]
  otherMetadata key hnone := by
    have hnews : entryNews? d now r updates key = none := by
      unfold entryNews?
      rcases hnone with hnone | hsome
      · rw [hnone]
        split <;> rfl
      · exact if_pos (Option.isSome_iff_ne_none.2 hsome)
    rw [h.metadata?_eq, hnews, Option.getD_none]
  extra := h.kept

/-- Updates without marks that do not name the field for undeclared keys, and that succeed at one
time, leave the last value of each key, and nothing else changes. Updates with the same last values
leave the same record. -/
theorem apply_last (hr : r.InOrder d.catalog) (hnames : d.catalog.NamesOnce r.schema)
    {updates : List (String × Json)} (hplain : Plain d.catalog r.schema updates)
    (h : r.apply d now updates = (r', .ok ())) :
    EndsWithLast d now updates r r' ∧
      ∀ updates' r'', Plain d.catalog r.schema updates' →
        (∀ key, last? updates' key = last? updates key) →
        r.apply d now updates' = (r'', .ok ()) → r'' = r' := by
  have htakes : Takes d now updates r r' := (Takes.nil hr).run hr hplain h
  refine ⟨htakes.endsWithLast hplain hnames, fun updates' r'' hplain' hsame h' => ?_⟩
  exact htakes.unique ((Takes.nil hr).run hr hplain' h') hsame

/-- Two colours, and an instant between them. -/
def colours : List (String × Json) :=
  [("colour", .str "red"), ("at", .str "in 24 hours"), ("colour", .str "blue")]

/-- A record of the diary with an instant and a colour. -/
def page (at_ : Value) (colour : String) : Record :=
  ⟨diarySchema.id, [("at", at_), ("day", .null),
    ("meta", .map [(.str "colour", .raw (.str colour))])], []⟩

theorem apply_colours : blankPage.apply diary noon colours =
    (page (.datetime leapNoon.asRead) "blue", .ok ()) := by
  have hred : blankPage.update diary noon "colour" (.str "red") = (page .null "red", .ok ()) := by
    rfl
  have hat : (page .null "red").update diary noon "at" (.str "in 24 hours") =
      (page (.datetime leapNoon.asRead) "red", .ok ()) := by
    obtain ⟨-, conv, hconv, htyped⟩ :=
      exists_typed_instant diary leapNoon (f := ⟨"at", .datetime⟩) (.inl rfl)
    have hread : Phrase.readOffset "in 24 hours".toList = .ok (some ⟨86400⟩) := rfl
    exact update_field (splitMark_of_head?_ne (by decide)) rfl
      (resolveRelative_instant hread add?_noon) hconv htyped
  have hblue : (page (.datetime leapNoon.asRead) "red").update diary noon "colour" (.str "blue") =
      (page (.datetime leapNoon.asRead) "blue", .ok ()) := by rfl
  simp only [colours, apply, hred, hat, hblue]

theorem apply_last_colours :
    blankPage.InOrder diary.catalog ∧ diary.catalog.NamesOnce blankPage.schema ∧
      Plain diary.catalog blankPage.schema colours ∧
      blankPage.apply diary noon colours = (page (.datetime leapNoon.asRead) "blue", .ok ()) ∧
      EndsWithLast diary noon colours blankPage (page (.datetime leapNoon.asRead) "blue") := by
  have horder : blankPage.InOrder diary.catalog :=
    ⟨⟨by unfold Table.Sorted; decide, Table.sorted_nil⟩, fun bucket t hm ht => by
      cases hm
      cases ht
      exact Table.sorted_nil⟩
  have hnames : diary.catalog.NamesOnce blankPage.schema := by
    have hlineage : diary.catalog.lineage blankPage.schema = [diarySchema] := rfl
    unfold Catalog.NamesOnce
    rw [hlineage]
    decide
  have hplain : Plain diary.catalog blankPage.schema colours := ⟨by decide, by decide⟩
  exact ⟨horder, hnames, hplain, apply_colours,
    (apply_last horder hnames hplain apply_colours).1⟩

/-- Where a schema declares a name with two shapes, an update converts to the first one and the
record that is made of the same payload has the last one. -/
theorem name_declared_twice_is_built_otherwise :
    (twiceRecord []).InOrder twice.catalog ∧
      Plain twice.catalog twiceSchema.id [("x", .arr [.int 1])] ∧
      (twiceRecord []).apply twice epoch [("x", .arr [.int 1])] = (twiceRecord [.int 1], .ok ()) ∧
      twice.record twiceSchema.id (.obj [("x", .arr [.int 1])]) = .ok (twiceRecord [.str "1"]) := by
  refine ⟨⟨⟨by unfold Table.Sorted; decide, Table.sorted_nil⟩, nofun⟩, ⟨by decide, by decide⟩,
    ?_, ?_⟩
  · have hx : twice.catalog.field? twiceSchema.id "x" = some ⟨"x", .list .int⟩ := by
      decide +kernel
    have hconv : twice.catalog.converter (.list .int) = .ok (.list (.scalar .int)) :=
      Catalog.converter_eq_ok.2 (.list (.single rfl))
    exact apply_field (by decide) hx rfl hconv (Domain.apply_list_arr items_twice)
  · have hitems : twice.items (.scalar .str) [.int 1] 0 = .ok [.str "1"] := by
      rw [Domain.items_cons, Domain.apply_scalar]
      simp only [Scalar.convert, Scalar.toStr]
      unfold Domain.items
      rw [Conversion.convertItems]
      rfl
    unfold Domain.record
    rw [read_twice_of_items hitems]
    rfl

end GardenMap.Record
