import GardenMap.Proofs.Record.Soundness

/-!
# Records are whole

A record that was made from a payload has an entry for every declared field and for nothing else,
and no declared name among its extra keys, whatever is done to it afterwards (`edited_of_made`):
fields are set and filled, updates are applied, and any of this may fail halfway. So on the wire
it is an object with one entry for each declared field and each extra key.

Proof. `Record.Whole` is the invariant. Conversion gives a field for each converter of the schema
that the payload is sent to. After that, whatever changes a record, hooks included, puts a value at a
declared name or rewrites the extra keys at an undeclared one. The mapping of undeclared keys is put
at the name of the metadata field: this is why the field has to be declared.

Conversely the changes that hooks are made of reach every whole record (`exists_changes`). So any
function on records that keeps them whole and keeps their schema is a hook (`exists_finish`).
-/

namespace GardenMap

/-! ## Declared names -/

namespace Catalog

variable {c : Catalog} {id : SchemaId} {name : String}

/-- The schema has a field of that name, of its own or of a schema that it extends. -/
def Declares (c : Catalog) (id : SchemaId) (name : String) : Prop :=
  name ∈ (c.allFields id).map (·.name)

/-- The field that holds undeclared keys, if the schema has one, is itself declared. -/
def BucketDeclared (c : Catalog) (id : SchemaId) : Prop :=
  ∀ bucket, c.metadataField? id = some bucket → c.Declares id bucket

theorem mem_names_foldl_addField (fs fields : List Field) :
    name ∈ (fs.foldl addField fields).map (·.name) ↔
      name ∈ fields.map (·.name) ∨ name ∈ fs.map (·.name) := by
  induction fs generalizing fields with
  | nil => simp
  | cons f fs ih =>
    have hstep : name ∈ (addField fields f).map (·.name) ↔
        name ∈ fields.map (·.name) ∨ name = f.name := by
      rw [names_addField]
      split
      · next hf => exact (or_iff_left_of_imp fun h => h ▸ hf).symm
      · rw [List.mem_append, List.mem_singleton]
    rw [List.foldl_cons, ih, hstep, List.map_cons, List.mem_cons, or_assoc]

theorem declares_iff : c.Declares id name ↔ ∃ t ∈ c.lineage id, ∃ f ∈ t.fields, f.name = name := by
  unfold Declares allFields
  rw [mem_names_foldl_addField, List.map_flatMap, List.mem_flatMap]
  simp

theorem field?_eq_none_iff : c.field? id name = none ↔ ¬c.Declares id name := by
  unfold field?
  rw [declares_iff, List.findSome?_eq_none_iff]
  simp

theorem declares_of_field? {f : Field} (h : c.field? id name = some f) :
    c.Declares id f.name := by
  obtain ⟨newer, t, older, -, hfind, -⟩ := List.findSome?_eq_some_iff.1 h
  have hname : f.name = name := by simpa using List.find?_some hfind
  by_contra hno
  rw [hname, ← field?_eq_none_iff, h] at hno
  cases hno

end Catalog

/-! ## Whole records -/

/-- The fields of a record are the declared ones, and its extra keys are not declared. -/
structure Record.Whole (c : Catalog) (r : Record) : Prop where
  sortedFields : Table.Sorted r.fields
  sortedExtra : Table.Sorted r.extra
  has_iff : ∀ name, Table.has r.fields name = true ↔ c.Declares r.schema name
  undeclared : ∀ name, Table.has r.extra name = true → ¬c.Declares r.schema name

namespace Record.Whole

variable {c : Catalog} {r : Record}

theorem put (hr : r.Whole c) {name : String} (hname : c.Declares r.schema name) (v : Value) :
    (r.put name v).Whole c := by
  refine ⟨Table.sorted_put hr.sortedFields name v, hr.sortedExtra, fun k => ?_, hr.undeclared⟩
  show Table.has (Table.put r.fields name v) k = true ↔ c.Declares r.schema k
  rw [Table.has_put, Bool.or_eq_true, decide_eq_true_eq, hr.has_iff k]
  exact or_iff_right_of_imp fun h => h ▸ hname

theorem setExtra (hr : r.Whole c) {extra : List (String × Value)} (hsorted : Table.Sorted extra)
    (h : ∀ name, Table.has extra name = true → ¬c.Declares r.schema name) :
    Record.Whole c { r with extra := extra } :=
  ⟨hr.sortedFields, hsorted, hr.has_iff, h⟩

theorem declares_of_get? (hr : r.Whole c) {name : String} (h : (r.get? name).isSome = true) :
    c.Declares r.schema name := (hr.has_iff name).1 h

/-! ## Making records -/

theorem fill (hr : r.Whole c) (name : String) (v : Value) : (r.fill name v).Whole c := by
  unfold Record.fill
  split
  · next old hold =>
    split
    · exact hr.put (hr.declares_of_get? (by rw [hold]; rfl)) v
    · exact hr
  · exact hr

theorem set? (hr : r.Whole c) {name : String} {v : Value} {r' : Record}
    (h : r.set? name v = some r') : r'.Whole c ∧ r'.schema = r.schema := by
  unfold Record.set? at h
  split at h
  · next hname =>
    cases h
    exact ⟨hr.put (hr.declares_of_get? hname) v, rfl⟩
  · cases h

theorem change (hr : r.Whole c) (step : Record.Change) : (r.change step).Whole c := by
  cases step with
  | set field v =>
    rw [Record.change]
    cases h : r.set? field v with
    | none => exact hr
    | some r' => exact (hr.set? h).1
  | fill field v => exact hr.fill field v
  | putExtra key v =>
    rw [Record.change]
    split
    · exact hr
    · next hdeclared =>
      refine hr.setExtra (Table.sorted_put hr.sortedExtra key v) fun name hname => ?_
      rw [Table.has_put, Bool.or_eq_true, decide_eq_true_eq] at hname
      rcases hname with rfl | hname
      · exact fun h => hdeclared ((hr.has_iff _).2 h)
      · exact hr.undeclared name hname
  | dropExtra key =>
    exact hr.setExtra (Table.sorted_erase hr.sortedExtra key) fun name hname =>
      hr.undeclared name (Table.has_of_has_erase hname)

theorem finish (hr : r.Whole c) (step : FinishStep) : (r.finish step).Whole c := by
  unfold Record.finish
  generalize step.changes r = steps
  induction steps generalizing r with
  | nil => exact hr
  | cons step steps ih => exact ih (hr.change step)

/-! What a hook can make of a record: the declared fields are set, all undeclared keys are removed,
and those of the new record are put in. -/

theorem foldl_set (id : SchemaId) (fields extra entries : List (String × Value))
    (h : ∀ e ∈ entries, Table.has fields e.1 = true) :
    (entries.map fun e => Record.Change.set e.1 e.2).foldl Record.change ⟨id, fields, extra⟩ =
      ⟨id, Table.putAll fields entries, extra⟩ := by
  induction entries generalizing fields with
  | nil => rfl
  | cons e entries ih =>
    have hset : Record.change ⟨id, fields, extra⟩ (.set e.1 e.2) =
        ⟨id, Table.put fields e.1 e.2, extra⟩ := by
      have hget : (Record.get? ⟨id, fields, extra⟩ e.1).isSome = true := h e List.mem_cons_self
      rw [Record.change, Record.set?, if_pos hget]
      rfl
    rw [List.map_cons, List.foldl_cons, hset, ih]
    · rfl
    · intro f hf
      rw [Table.has_put, h f (List.mem_cons_of_mem _ hf), Bool.or_true]

theorem foldl_dropExtra (id : SchemaId) (fields extra : List (String × Value)) :
    (extra.map fun e => Record.Change.dropExtra e.1).foldl Record.change ⟨id, fields, extra⟩ =
      ⟨id, fields, []⟩ := by
  induction extra with
  | nil => rfl
  | cons e extra ih =>
    have hdrop : Record.change ⟨id, fields, e :: extra⟩ (.dropExtra e.1) =
        ⟨id, fields, extra⟩ := by
      rw [Record.change, Table.erase, if_pos Std.ReflOrd.compare_self]
    rw [List.map_cons, List.foldl_cons, hdrop, ih]

theorem foldl_putExtra (id : SchemaId) (fields extra entries : List (String × Value))
    (h : ∀ e ∈ entries, Table.has fields e.1 = false) :
    (entries.map fun e => Record.Change.putExtra e.1 e.2).foldl Record.change ⟨id, fields, extra⟩ =
      ⟨id, fields, Table.putAll extra entries⟩ := by
  induction entries generalizing extra with
  | nil => rfl
  | cons e entries ih =>
    have hput : Record.change ⟨id, fields, extra⟩ (.putExtra e.1 e.2) =
        ⟨id, fields, Table.put extra e.1 e.2⟩ := by
      simp only [Record.change, h e List.mem_cons_self, Bool.false_eq_true, if_false]
    rw [List.map_cons, List.foldl_cons, hput, ih _ fun f hf => h f (List.mem_cons_of_mem _ hf)]
    rfl

/-- Changes lead from a whole record to every other one of its schema. -/
theorem exists_changes (hr : r.Whole c) {r' : Record} (hr' : r'.Whole c)
    (hschema : r'.schema = r.schema) :
    ∃ changes : List Record.Change, changes.foldl Record.change r = r' := by
  obtain ⟨id, fields, extra⟩ := r
  obtain ⟨id', fields', extra'⟩ := r'
  obtain rfl : id' = id := hschema
  have hfields : ∀ name, Table.has fields name = true ↔ Table.has fields' name = true :=
    fun name => (hr.has_iff name).trans (hr'.has_iff name).symm
  have hextra : ∀ e ∈ extra', Table.has fields' e.1 = false := fun e he =>
    Bool.eq_false_iff.2 fun hfield =>
      hr'.undeclared e.1 (Table.has_iff.2 ⟨e, he, rfl⟩) ((hr'.has_iff e.1).1 hfield)
  refine ⟨(fields'.map fun e => .set e.1 e.2) ++ (extra.map fun e => .dropExtra e.1) ++
    extra'.map fun e => .putExtra e.1 e.2, ?_⟩
  rw [List.foldl_append, List.foldl_append,
    foldl_set _ _ _ _ fun e he => (hfields e.1).2 (Table.has_iff.2 ⟨e, he, rfl⟩),
    Table.putAll_eq_of_has hr.sortedFields hr'.sortedFields fun name => (hfields name).1,
    foldl_dropExtra, foldl_putExtra _ _ _ _ hextra]
  exact congrArg (Record.mk id' fields') (Table.ofList_eq_self hr'.sortedExtra)

/-- Every function that takes whole records to whole ones of the same schema is a hook. -/
theorem exists_finish (f : Record → Record)
    (hf : ∀ r : Record, r.Whole c → (f r).Whole c ∧ (f r).schema = r.schema) :
    ∃ step : FinishStep, ∀ r : Record, r.Whole c → r.finish step = f r := by
  classical
  have hchanges : ∀ r : Record, ∃ changes : List Record.Change, r.Whole c →
      changes.foldl Record.change r = f r := fun r => by
    by_cases hr : r.Whole c
    · obtain ⟨changes, h⟩ := hr.exists_changes (hf r hr).1 (hf r hr).2
      exact ⟨changes, fun _ => h⟩
    · exact ⟨[], fun h => absurd h hr⟩
  choose changes h using hchanges
  exact ⟨⟨changes⟩, h⟩

theorem foldl_finish (hr : r.Whole c) (steps : List FinishStep) :
    (steps.foldl Record.finish r).Whole c ∧ (steps.foldl Record.finish r).schema = r.schema := by
  refine ⟨?_, r.schema_foldl_finish steps⟩
  induction steps generalizing r with
  | nil => exact hr
  | cons step steps ih => exact ih (hr.finish step)

theorem assemble {id : SchemaId} {fields : List (String × Value)} (hsorted : Table.Sorted fields)
    (hfields : ∀ name, Table.has fields name = true ↔ c.Declares id name) {es : Object}
    (hes : Table.Sorted es) :
    (c.assemble id fields es).Whole c ∧ (c.assemble id fields es).schema = id := by
  have hdefaults : c.withDefaults id fields = fields :=
    Catalog.withDefaults_eq_self fun f hf => (hfields _).2 (List.mem_map.2 ⟨f, hf, rfl⟩)
  have hraw : Record.Whole c ⟨id, fields, Catalog.extras fields es⟩ := by
    refine ⟨hsorted, Catalog.sorted_extras hes, hfields, fun name hname hdeclared => ?_⟩
    change Table.has (Catalog.extras fields es) name = true at hname
    rw [Table.has, Catalog.get?_extras, if_pos ((hfields name).2 hdeclared)] at hname
    cases hname
  unfold Catalog.assemble
  simp only
  rw [hdefaults]
  exact hraw.foldl_finish _

end Record.Whole

namespace Domain

variable {d : Domain}

/-- The record that conversion makes of a payload is put together from its entries, converted by the
converters of the schema that the record has. -/
theorem exists_assembled {id : SchemaId} {raw : Json} {r : Record} (h : d.record id raw = .ok r) :
    ∃ es fs typed, Payload.record raw = .ok (some es) ∧
      Builds d.catalog (.record r.schema) (.record r.schema fs) ∧
      d.fields fs es [] = .ok typed ∧ r = d.catalog.assemble r.schema typed es := by
  unfold record read at h
  cases hconv : d.catalog.converter (.record id) with
  | error e => rw [hconv] at h; cases h
  | ok conv =>
    rw [hconv] at h
    have hb := Catalog.converter_eq_ok.1 hconv
    obtain ⟨fs, rfl, -⟩ := hb.of_record
    cases happly : d.apply (.record id fs) raw with
    | error e => simp only [happly] at h; cases h
    | ok v =>
      simp only [happly] at h
      rcases of_apply_record happly with rfl | ⟨es, target, typed, hes, hfollow, htyped, rfl⟩
      · cases h
      · cases h
        refine ⟨es, target.fields, typed, hes, ?_⟩
        rw [Catalog.schema_assemble]
        exact ⟨(follow_builds hfollow hb).2, htyped, rfl⟩

theorem whole_of_record {id : SchemaId} {raw : Json}
    (hraw : ∀ es, Payload.record raw = .ok (some es) → Table.Sorted es) {r : Record}
    (h : d.record id raw = .ok r) : r.Whole d.catalog := by
  obtain ⟨es, fs, typed, hes, hb, htyped, hr⟩ := exists_assembled h
  obtain ⟨fs', heq, hnames, -⟩ := hb.of_record
  cases heq
  have hnodup : (fs.map (·.1)).Nodup := by
    rw [hnames]
    exact Catalog.nodup_allFields _ _
  rw [hr]
  refine (Record.Whole.assemble (sorted_fields htyped Table.sorted_nil) (fun name => ?_)
    (hraw es hes)).1
  rw [has_fields htyped hnodup, hnames, decide_eq_true_iff]
  rfl

end Domain

/-! ## Changing records -/

namespace Record

/-- What may be done to a record: overwrite a field, fill it if it is absent, or apply updates, with
the members registered by then. -/
inductive Edit where
  | set (name : String) (v : Value)
  | setDefault (name : String) (v : Value)
  | apply (registered : SchemaId → List SchemaId) (now : Instant) (updates : List (String × Json))

/-- A record after an edit, and whether it succeeded. -/
def edit (c : Catalog) (r : Record) : Edit → Step Error
  | .set name v =>
    match r.set name v with
    | .ok r' => (r', .ok ())
    | .error e => (r, .error e)
  | .setDefault name v => (r.fill name v, .ok ())
  | .apply registered now updates => r.apply ⟨c, registered⟩ now updates

/-- A record after edits, each of which may have failed. -/
def edited (c : Catalog) (r : Record) (edits : List Edit) : Record :=
  edits.foldl (fun r e => (r.edit c e).1) r

end Record

namespace Record.Whole

variable {d : Domain} {r : Record}

theorem updateField (hr : r.Whole d.catalog) {f : Field} (hf : d.catalog.Declares r.schema f.name)
    (v : Json) (append : Bool) : (r.updateField d f v append).1.Whole d.catalog := by
  unfold Record.updateField
  split
  · exact hr
  split
  · exact hr
  split
  · split <;> exact hr.put hf _
  · exact hr.put hf _

theorem has_updateBucket {bucket : List (String × Value)} {key k : String} {v : Json}
    {append : Bool} (h : Table.has (Record.updateBucket bucket key v append).1 k = true) :
    k = key ∨ Table.has bucket k = true := by
  have hput : ∀ {w}, Table.has (Table.put bucket key w) k = true →
      k = key ∨ Table.has bucket k = true := by
    intro w hw
    rwa [Table.has_put, Bool.or_eq_true, decide_eq_true_eq] at hw
  unfold Record.updateBucket at h
  split at h
  · split at h
    · exact hput h
    · exact .inr (Table.has_of_has_erase h)
  · split at h
    · exact .inr (Table.has_of_has_erase h)
    · exact hput h

theorem updateMetadata (hr : r.Whole d.catalog) (hbucket : d.catalog.BucketDeclared r.schema)
    {key : String} (hkey : ¬d.catalog.Declares r.schema key) (v : Json) (append : Bool) :
    (r.updateMetadata d.catalog key v append).1.Whole d.catalog := by
  unfold Record.updateMetadata
  split
  · refine hr.setExtra (sorted_updateBucket hr.sortedExtra key v append) fun name hname => ?_
    rcases has_updateBucket hname with rfl | hname
    · exact hkey
    · exact hr.undeclared name hname
  · next field hfield =>
    simp only
    split <;> exact hr.put (hbucket field hfield) _

theorem update (hr : r.Whole d.catalog) (hbucket : d.catalog.BucketDeclared r.schema)
    (now : Instant) (marked : String) (v : Json) :
    (r.update d now marked v).1.Whole d.catalog := by
  unfold Record.update
  simp only
  split
  · exact hr
  split
  · next f hfield => exact hr.updateField (Catalog.declares_of_field? hfield) _ _
  · next hfield => exact hr.updateMetadata hbucket (Catalog.field?_eq_none_iff.1 hfield) _ _

theorem apply (hr : r.Whole d.catalog) (hbucket : d.catalog.BucketDeclared r.schema)
    (now : Instant) (updates : List (String × Json)) :
    (r.apply d now updates).1.Whole d.catalog ∧ (r.apply d now updates).1.schema = r.schema := by
  refine apply_keeps d (P := fun r' => r'.Whole d.catalog ∧ r'.schema = r.schema) ?_ ⟨hr, rfl⟩
    updates
  rintro r' marked v ⟨hwhole, hschema⟩
  rw [← hschema] at hbucket
  exact ⟨hwhole.update hbucket now marked v, (r'.schema_update d now marked v).trans hschema⟩

theorem edit {c : Catalog} (hr : r.Whole c) (hbucket : c.BucketDeclared r.schema) (e : Record.Edit) :
    (r.edit c e).1.Whole c ∧ (r.edit c e).1.schema = r.schema := by
  cases e with
  | set name v =>
    simp only [Record.edit, Record.set]
    cases h : r.set? name v with
    | none => exact ⟨hr, rfl⟩
    | some r' => exact hr.set? h
  | setDefault name v => exact ⟨hr.fill name v, r.schema_fill name v⟩
  | apply registered now updates => exact hr.apply (d := ⟨c, registered⟩) hbucket now updates

theorem edited {c : Catalog} (hr : r.Whole c) (hbucket : c.BucketDeclared r.schema)
    (edits : List Record.Edit) :
    (r.edited c edits).Whole c ∧ (r.edited c edits).schema = r.schema := by
  induction edits generalizing r with
  | nil => exact ⟨hr, rfl⟩
  | cons e edits ih =>
    obtain ⟨hstep, hschema⟩ := hr.edit hbucket e
    rw [← hschema] at hbucket ⊢
    exact ih hstep hbucket

/-! ## On the wire -/

theorem get?_raw {c : Catalog} (hr : r.Whole c) {name : String} {v : Value}
    (h : r.get? name = some v) : Table.get? r.rawEntries name = some v.toRaw := by
  unfold Record.get? at h
  rw [Record.get?_rawEntries hr.sortedFields hr.sortedExtra, h]
  rfl

theorem keys_perm {c : Catalog} (hr : r.Whole c) :
    (Table.keys r.fields).Perm ((c.allFields r.schema).map (·.name)) :=
  Table.keys_perm hr.sortedFields (c.nodup_allFields r.schema) hr.has_iff

theorem nodup_keys {c : Catalog} (hr : r.Whole c) :
    ((r.fields ++ r.extra).map (·.1)).Nodup := by
  rw [List.map_append, List.nodup_append]
  refine ⟨Table.nodup_keys hr.sortedFields, Table.nodup_keys hr.sortedExtra, ?_⟩
  rintro k hk l hl rfl
  obtain ⟨e, he, rfl⟩ := List.mem_map.1 hk
  obtain ⟨f, hf, hfe⟩ := List.mem_map.1 hl
  exact hr.undeclared e.1 (Table.has_iff.2 ⟨f, hf, hfe⟩)
    ((hr.has_iff e.1).1 (Table.has_iff.2 ⟨e, he, rfl⟩))

theorem rawEntries_perm {c : Catalog} (hr : r.Whole c) :
    r.rawEntries.Perm ((r.fields ++ r.extra).map fun e => (e.1, e.2.toRaw)) := by
  have hleft : r.rawEntries.Nodup := List.Nodup.of_map _ (Table.nodup_keys r.sorted_rawEntries)
  have hright : ((r.fields ++ r.extra).map fun e => (e.1, e.2.toRaw)).Nodup := by
    refine List.Nodup.of_map Prod.fst ?_
    rw [List.map_map]
    exact hr.nodup_keys
  rw [List.perm_ext_iff_of_nodup hleft hright]
  rintro ⟨k, w⟩
  rw [Table.mem_iff_get? r.sorted_rawEntries,
    Record.get?_rawEntries hr.sortedFields hr.sortedExtra, Option.map_eq_some_iff, List.mem_map]
  constructor
  · rintro ⟨v, hv, rfl⟩
    refine ⟨(k, v), ?_, rfl⟩
    rw [← Table.get?_append] at hv
    exact Table.mem_of_get? hv
  · rintro ⟨⟨l, v⟩, he, heq⟩
    cases heq
    refine ⟨v, ?_, rfl⟩
    rcases List.mem_append.1 he with he | he
    · rw [Table.get?_of_mem hr.sortedFields he]
      rfl
    · have hnone : Table.get? r.fields l = none := by
        have hno := mt (hr.has_iff l).1 (hr.undeclared l (Table.has_iff.2 ⟨_, he, rfl⟩))
        simpa [Table.has] using hno
      rw [hnone, Option.none_or, Table.get?_of_mem hr.sortedExtra he]

end Record.Whole

/-! ## Every record -/

/-- A record of a schema with one entry for each declared field, with extra keys of other names, and
with one entry for each of both on the wire. -/
structure Record.Complete (c : Catalog) (id : SchemaId) (r : Record) : Prop where
  schema : r.schema = id
  fields : (Table.keys r.fields).Perm ((c.allFields id).map (·.name))
  extra : ∀ e ∈ r.extra, e.1 ∉ (c.allFields id).map (·.name)
  wire : ∃ es, r.toRaw = .obj es ∧ Table.Sorted es ∧
    es.Perm ((r.fields ++ r.extra).map fun e => (e.1, e.2.toRaw))

theorem Record.Whole.complete {c : Catalog} {r : Record} (hr : r.Whole c) :
    r.Complete c r.schema := by
  refine ⟨rfl, hr.keys_perm, fun e he => hr.undeclared e.1 (Table.has_iff.2 ⟨e, he, rfl⟩),
    r.rawEntries, ?_, r.sorted_rawEntries, hr.rawEntries_perm⟩
  have hraw := toRaw_record r
  rwa [Value.toRaw] at hraw

/-- A record is made: of nothing, of a payload, of single entries, or of a payload with entries put
over it. -/
inductive Domain.Makes (d : Domain) (id : SchemaId) (r : Record) : Prop
  | new (h : d.newRecord id = .ok r)
  | ofPayload {raw : Json} (hraw : raw.Sorted) (h : d.record id raw = .ok r)
  | ofEntries {entries : List (String × Json)} (h : d.recordWith id [] entries = .ok r)
  | ofParts {payload : Object} (hpayload : Table.Sorted payload) {entries : List (String × Json)}
      (h : d.recordWith id payload entries = .ok r)

namespace Domain

variable {d : Domain} {id : SchemaId} {r : Record}

theorem whole_of_recordWith {payload : Object} (hpayload : Table.Sorted payload)
    {entries : List (String × Json)} (h : d.recordWith id payload entries = .ok r) :
    r.Whole d.catalog := by
  refine whole_of_record (fun es hes => ?_) h
  obtain rfl : Table.putAll payload entries = es := by
    cases hes
    rfl
  exact Table.sorted_putAll hpayload entries

theorem Makes.whole (h : d.Makes id r) : r.Whole d.catalog := by
  cases h with
  | new h =>
    have h : d.recordWith id [] [] = .ok r := h
    exact whole_of_recordWith Table.sorted_nil h
  | ofPayload hraw h =>
    exact whole_of_record (fun _ hes => (Payload.sorted_of_record hraw hes).1) h
  | ofEntries h => exact whole_of_recordWith Table.sorted_nil h
  | ofParts hpayload h => exact whole_of_recordWith hpayload h

/-- A record that was made stays complete, and of its schema, through any edits. -/
theorem edited_of_made (hmade : d.Makes id r) (hbucket : d.catalog.BucketDeclared r.schema)
    (edits : List Record.Edit) : (r.edited d.catalog edits).Complete d.catalog r.schema := by
  obtain ⟨hwhole, hschema⟩ := hmade.whole.edited hbucket edits
  rw [← hschema]
  exact hwhole.complete

/-- A new point, given a field it does not have and a place that is no number, refused an update
after a colour was set, and left without its metadata. -/
theorem edited_of_made_origin :
    Farm.domain.Makes Farm.Id.point Farm.origin ∧
      Farm.domain.catalog.BucketDeclared Farm.origin.schema ∧
      (Farm.origin.edited Farm.domain.catalog
        [.set "colour" (.str "red"), .set "x" (.str "far"), .setDefault "name" (.str "hill"),
          .apply (fun _ => []) Record.epoch [("colour", .str "red"), ("+x", .int 1)],
          .set "meta" .null]).Complete Farm.domain.catalog Farm.Id.point := by
  have hmade : Farm.domain.Makes Farm.Id.point Farm.origin := by
    refine .new ?_
    unfold newRecord record
    rw [Farm.read_origin]
    rfl
  have hbucket : Farm.domain.catalog.BucketDeclared Farm.origin.schema := by
    intro bucket h
    obtain rfl : "meta" = bucket := Option.some.inj h
    exact (by decide : "meta" ∈ (Farm.schemas.allFields Farm.Id.point).map (·.name))
  exact ⟨hmade, hbucket, edited_of_made hmade hbucket _⟩

end Domain

end GardenMap
