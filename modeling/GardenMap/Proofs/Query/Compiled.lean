import GardenMap.Farm.Schemas
import GardenMap.Proofs.Query.Reading
import GardenMap.Proofs.Tables

/-!
# Compiled plans read their clauses

On the point store, a compiled plan gives the records that the reading of its clauses gives
(`run_compile`). No two clauses that are not negated may have one key, and none may be about the
metadata field or the tag field of the target; these must be two fields. Otherwise one entry of the
filter replaces another (`tag_replaces_metadata`).

Proof. `Draft.Reads` says what a draft has kept of the clauses so far: the entries they ask for, in
two filters, and the predicates of the others, in order. One clause keeps it (`Reads.add`), and from
it follow both that the filter finds the points with these entries (`meetsAll_filter`) and that the
predicates hold of the records of which the other clauses hold (`holdAll_predicates`).
-/

namespace GardenMap

theorem Table.mem_put_of_fresh {κ α : Type} [Ord κ] [Std.LawfulEqOrd κ] {t : Table κ α} {k : κ}
    (hk : ∀ e ∈ t, e.1 ≠ k) (v : α) (e : κ × α) : e ∈ Table.put t k v ↔ e = (k, v) ∨ e ∈ t := by
  induction t with
  | nil => simp [Table.put]
  | cons f t ih =>
    obtain ⟨l, w⟩ := f
    rw [Table.put]
    split
    · simp
    · next heq => exact absurd (Std.compare_eq_iff_eq.1 heq).symm (hk (l, w) (by simp))
    · rw [List.mem_cons, ih fun e he => hk e (by simp [he]), List.mem_cons]
      exact or_left_comm

theorem meetsAll_iff (wanted : List (String × Json)) (entries : Object) :
    meetsAll wanted entries = true ↔
      ∀ e ∈ wanted, meets e.2 ((Table.get? entries e.1).getD .null) = true := by
  induction wanted with
  | nil => simp [meetsAll]
  | cons e wanted ih =>
    obtain ⟨key, v⟩ := e
    rw [meetsAll, Bool.and_eq_true, ih, List.forall_mem_cons]

theorem meets_obj (wanted : Object) (v : Json) :
    meets (.obj wanted) v = v.entries?.any (meetsAll wanted) := by
  cases v <;> simp [meets, Json.entries?] <;> rfl

namespace Clause

variable {d : Domain} {target : SchemaId} {now : Instant}

/-! ## One clause -/

def Asks (now : Instant) (q : Clause) (key : String) (v : Json) : Prop :=
  q.target = (key, false) ∧ q.reading now = .exactly v

/-- Whether a key is looked for in the mapping of the metadata field. -/
def Nested (c : Catalog) (target : SchemaId) (key : String) : Prop :=
  c.field? target key = none ∧ (c.metadataField? target).isSome

/-- The test that the reading of a clause compiles to. -/
def test? (d : Domain) (target : SchemaId) (now : Instant) (q : Clause) : Option Test :=
  match q.reading now, q.target.2 with
  | .exactly _, false => none
  | .exactly v, true =>
    (q.typed d (d.catalog.field? target q.target.1) v).toOption.map .notEqual
  | .dated side t, negated =>
    some (.compare (if negated then side.comparison.negate else side.comparison) (.instant t))
  | .bounded side x, negated =>
    some (.compare (if negated then side.comparison.negate else side.comparison) (.number x))

/-- The predicate that a clause compiles to. -/
def predicate? (d : Domain) (target : SchemaId) (now : Instant) (q : Clause) : Option Predicate :=
  (q.test? d target now).map fun test => ⟨place d.catalog target q.target.1, test⟩

theorem reading_of_meaning {q : Clause} {m : Meaning} (h : q.meaning now = .ok m) :
    (∃ v, m = .literal v ∧ q.reading now = .exactly v) ∨
      (∃ side t, m = .comparison side.comparison (.instant t) ∧ q.reading now = .dated side t) ∨
      ∃ side x, m = .comparison side.comparison (.number x) ∧ q.reading now = .bounded side x := by
  unfold meaning at h
  unfold reading
  cases hv : q.value with
  | str text =>
    rw [hv] at h
    simp only [Reading.ofText] at h ⊢
    cases hd : Phrase.readDateExpr text.toList with
    | error e => rw [hd] at h; cases h
    | ok expr? =>
      rw [hd] at h
      cases expr? with
      | some expr =>
        simp only at h ⊢
        cases ht : expr.moment.resolve? now with
        | none => rw [ht] at h; cases h
        | some t =>
          rw [ht] at h
          cases hq : expr.qualifier with
          | none => rw [hq] at h; cases h; exact .inl ⟨_, rfl, rfl⟩
          | some side => rw [hq] at h; cases h; exact .inr (.inl ⟨side, t, rfl, rfl⟩)
      | none =>
        simp only at h ⊢
        cases hb : Phrase.readThreshold text.toList with
        | error e => rw [hb] at h; cases h
        | ok bound? =>
          rw [hb] at h
          cases bound? with
          | some bound => cases h; exact .inr (.inr ⟨bound.bound, bound.value, rfl, rfl⟩)
          | none => cases h; exact .inl ⟨_, rfl, rfl⟩
  | _ =>
    rw [hv] at h
    cases h
    exact .inl ⟨_, rfl, rfl⟩

theorem Asks.test?_eq_none {q : Clause} {key : String} {v : Json} (h : q.Asks now key v) :
    q.test? d target now = none := by
  rw [test?, h.1, h.2]

end Clause

namespace Draft

variable {d : Domain} {target : SchemaId} {now : Instant} {draft draft' : Draft} {q : Clause}

theorem add_eq (draft : Draft) (q : Clause) :
    draft.add d target now q =
      if q.target.1.isEmpty then q.refuse .emptyKey
      else
        match q.meaning now with
        | .error e => .error e
        | .ok (.comparison op operand) =>
          .ok (draft.test (Clause.place d.catalog target q.target.1)
            (.compare (if q.target.2 then op.negate else op) operand))
        | .ok (.literal v) =>
          match q.typed d (d.catalog.field? target q.target.1) v with
          | .error e => .error e
          | .ok typed =>
            if q.target.2 then
              .ok (draft.test (Clause.place d.catalog target q.target.1) (.notEqual typed))
            else if (d.catalog.field? target q.target.1).isSome
                || (d.catalog.metadataField? target).isNone then
              .ok { draft with filter := Table.put draft.filter q.target.1 v }
            else .ok { draft with metadata := Table.put draft.metadata q.target.1 v } := by
  unfold Draft.add
  obtain ⟨key, negated⟩ := q.target
  cases hk : key.isEmpty with
  | true => simp only [hk, if_true]; rfl
  | false =>
    simp only [hk, Bool.false_eq_true, if_false]
    rcases q.meaning now with _ | ⟨op, operand⟩ | v
    · rfl
    · rfl
    · simp only [bind, Except.bind, pure, Except.pure]
      cases q.typed d (d.catalog.field? target key) v <;> rfl

theorem nested_iff (c : Catalog) (target : SchemaId) (key : String) :
    Clause.Nested c target key ↔
      ((c.field? target key).isSome || (c.metadataField? target).isNone) = false := by
  simp [Clause.Nested]

theorem add_eq_ok (h : draft.add d target now q = .ok draft') :
    (∃ key v, q.Asks now key v ∧ ¬Clause.Nested d.catalog target key ∧
      draft' = { draft with filter := Table.put draft.filter key v }) ∨
    (∃ key v, q.Asks now key v ∧ Clause.Nested d.catalog target key ∧
      draft' = { draft with metadata := Table.put draft.metadata key v }) ∨
    ∃ p, q.predicate? d target now = some p ∧
      draft' = { draft with predicates := draft.predicates ++ [p] } := by
  rw [add_eq] at h
  split at h
  · cases h
  cases hm : q.meaning now with
  | error e => rw [hm] at h; cases h
  | ok m =>
    rw [hm] at h
    rcases Clause.reading_of_meaning hm with
      ⟨v, rfl, hr⟩ | ⟨side, t, rfl, hr⟩ | ⟨side, x, rfl, hr⟩
    · cases ht : q.typed d (d.catalog.field? target q.target.1) v with
      | error e => simp only [ht] at h; cases h
      | ok typed =>
        simp only [ht] at h
        cases hn : q.target.2 with
        | true =>
          rw [hn] at h
          cases h
          refine .inr (.inr ⟨_, ?_, rfl⟩)
          simp only [Clause.predicate?, Clause.test?, hr, hn, ht]
          rfl
        | false =>
          have hasks : q.Asks now q.target.1 v := ⟨Prod.ext rfl hn, hr⟩
          simp only [hn, Bool.false_eq_true, if_false] at h
          split at h
          · next hdirect =>
            cases h
            refine .inl ⟨_, v, hasks, ?_, rfl⟩
            rw [nested_iff, hdirect]
            decide
          · next hnested =>
            cases h
            have hn := (nested_iff _ _ _).2 (Bool.not_eq_true _ ▸ hnested)
            exact .inr (.inl ⟨_, v, hasks, hn, rfl⟩)
    · cases h
      refine .inr (.inr ⟨_, ?_, rfl⟩)
      rw [Clause.predicate?, Clause.test?, hr]
      rfl
    · cases h
      refine .inr (.inr ⟨_, ?_, rfl⟩)
      rw [Clause.predicate?, Clause.test?, hr]
      rfl

/-! ## All clauses -/

/-- The keys of the clauses that are not negated. -/
def plainKeys (qs : List Clause) : List String :=
  (qs.filter fun q => !q.target.2).map (·.target.1)

theorem mem_plainKeys {qs : List Clause} {key : String} {v : Json} (hq : q ∈ qs)
    (h : q.Asks now key v) : key ∈ plainKeys qs := by
  refine List.mem_map.2 ⟨q, List.mem_filter.2 ⟨hq, ?_⟩, ?_⟩ <;> rw [h.1]
  rfl

/-- A filter has the entries that clauses ask for, of some of the keys. -/
def Keeps (now : Instant) (P : String → Prop) (qs : List Clause) (filter : Object) : Prop :=
  ∀ e, e ∈ filter ↔ P e.1 ∧ ∃ q ∈ qs, q.Asks now e.1 e.2

theorem Keeps.put {P : String → Prop} {qs : List Clause} {filter : Object}
    (h : Keeps now P qs filter) {key : String} {v : Json} (hq : q.Asks now key v) (hP : P key)
    (hfresh : key ∉ plainKeys qs) : Keeps now P (qs ++ [q]) (Table.put filter key v) := by
  intro e
  have hnew : ∀ f ∈ filter, f.1 ≠ key := by
    intro f hf heq
    obtain ⟨_, p, hp, hasks⟩ := (h f).1 hf
    exact hfresh (heq ▸ mem_plainKeys hp hasks)
  rw [Table.mem_put_of_fresh hnew, h e]
  constructor
  · rintro (rfl | ⟨he, p, hp, hasks⟩)
    · exact ⟨hP, q, by simp, hq⟩
    · exact ⟨he, p, by simp [hp], hasks⟩
  · rintro ⟨he, p, hp, hasks⟩
    rcases List.mem_append.1 hp with hp | hp
    · exact .inr ⟨he, p, hp, hasks⟩
    · rw [List.mem_singleton.1 hp] at hasks
      have hkey := (Prod.mk.inj (hq.1.symm.trans hasks.1)).1
      have hv := Reading.exactly.inj (hq.2.symm.trans hasks.2)
      exact .inl (Prod.ext hkey.symm hv.symm)

theorem Keeps.skip {P : String → Prop} {qs : List Clause} {filter : Object}
    (h : Keeps now P qs filter) (hq : ∀ key v, q.Asks now key v → ¬P key) :
    Keeps now P (qs ++ [q]) filter := by
  intro e
  rw [h e]
  constructor
  · rintro ⟨he, p, hp, hasks⟩
    exact ⟨he, p, by simp [hp], hasks⟩
  · rintro ⟨he, p, hp, hasks⟩
    rcases List.mem_append.1 hp with hp | hp
    · exact ⟨he, p, hp, hasks⟩
    · rw [List.mem_singleton.1 hp] at hasks
      exact absurd he (hq _ _ hasks)

/-- What a draft has kept of some clauses. -/
structure Reads (d : Domain) (target : SchemaId) (now : Instant) (qs : List Clause)
    (draft : Draft) : Prop where
  filter : Keeps now (fun key => ¬Clause.Nested d.catalog target key) qs draft.filter
  metadata : Keeps now (Clause.Nested d.catalog target) qs draft.metadata
  predicates : draft.predicates = qs.filterMap (Clause.predicate? d target now)
  compiled : ∀ q ∈ qs, (∃ key v, q.Asks now key v) ∨ (q.predicate? d target now).isSome

theorem reads_empty (d : Domain) (target : SchemaId) (now : Instant) :
    Reads d target now [] empty := by
  refine ⟨fun e => ?_, fun e => ?_, rfl, fun q hq => by cases hq⟩ <;> simp [empty]

theorem eq_of_asks {key key' : String} {v v' : Json} (h : q.Asks now key v)
    (h' : q.Asks now key' v') : key = key' := (Prod.mk.inj (h.1.symm.trans h'.1)).1

/-- One more clause, with a key of its own unless it is negated. -/
theorem Reads.add {qs : List Clause} (hr : Reads d target now qs draft)
    (hkeys : (plainKeys (qs ++ [q])).Nodup) (h : draft.add d target now q = .ok draft') :
    Reads d target now (qs ++ [q]) draft' := by
  have hfresh : ∀ key v, q.Asks now key v → key ∉ plainKeys qs := by
    intro key v hq hmem
    have hnew : plainKeys (qs ++ [q]) = plainKeys qs ++ [key] := by simp [plainKeys, hq.1]
    rw [hnew, List.nodup_append] at hkeys
    exact hkeys.2.2 key hmem key (List.mem_singleton_self _) rfl
  have hcompiled : (∃ key v, q.Asks now key v) ∨ (q.predicate? d target now).isSome →
      ∀ p ∈ qs ++ [q], (∃ key v, p.Asks now key v) ∨ (p.predicate? d target now).isSome := by
    intro hq p hp
    rcases List.mem_append.1 hp with hp | hp
    · exact hr.compiled p hp
    · rw [List.mem_singleton.1 hp]
      exact hq
  have hpredicates : ∀ {key v}, q.Asks now key v →
      draft.predicates = (qs ++ [q]).filterMap (Clause.predicate? d target now) := by
    intro key v hq
    rw [hr.predicates, List.filterMap_append]
    simp [Clause.predicate?, hq.test?_eq_none]
  rcases add_eq_ok h with ⟨key, v, hq, hdirect, rfl⟩ | ⟨key, v, hq, hnested, rfl⟩ | ⟨p, hp, rfl⟩
  · refine ⟨hr.filter.put hq hdirect (hfresh key v hq), hr.metadata.skip fun key' v' hq' => ?_,
      hpredicates hq, hcompiled (.inl ⟨key, v, hq⟩)⟩
    rw [← eq_of_asks hq hq']
    exact hdirect
  · refine ⟨hr.filter.skip fun key' v' hq' => ?_, hr.metadata.put hq hnested (hfresh key v hq),
      hpredicates hq, hcompiled (.inl ⟨key, v, hq⟩)⟩
    rw [← eq_of_asks hq hq']
    exact not_not_intro hnested
  · have hno : ∀ key v, ¬q.Asks now key v := by
      intro key v hq
      rw [Clause.predicate?, hq.test?_eq_none] at hp
      cases hp
    refine ⟨hr.filter.skip fun key v hq => absurd hq (hno key v),
      hr.metadata.skip fun key v hq => absurd hq (hno key v), ?_, hcompiled (.inr (by rw [hp]; rfl))⟩
    show draft.predicates ++ [p] = _
    rw [hr.predicates, List.filterMap_append]
    simp [hp]

theorem foldlM_cons_eq_ok {qs : List Clause}
    (h : (q :: qs).foldlM (Draft.add d target now) draft = .ok draft') :
    ∃ next, draft.add d target now q = .ok next ∧
      qs.foldlM (Draft.add d target now) next = .ok draft' := by
  rw [List.foldlM_cons] at h
  cases hq : draft.add d target now q with
  | error e => rw [hq] at h; cases h
  | ok next =>
    rw [hq] at h
    exact ⟨next, rfl, h⟩

theorem Reads.foldlM {qs rest : List Clause} (hr : Reads d target now qs draft)
    (hkeys : (plainKeys (qs ++ rest)).Nodup)
    (h : rest.foldlM (Draft.add d target now) draft = .ok draft') :
    Reads d target now (qs ++ rest) draft' := by
  induction rest generalizing qs draft with
  | nil =>
    cases h
    rwa [List.append_nil]
  | cons q rest ih =>
    obtain ⟨next, hq, h⟩ := foldlM_cons_eq_ok h
    have hone : (plainKeys (qs ++ [q])).Nodup := by
      refine List.Nodup.sublist ?_ hkeys
      refine List.Sublist.map _ (List.Sublist.filter _ ?_)
      simp
    rw [List.append_cons] at hkeys ⊢
    exact ih (hr.add hone hq) hkeys h

end Draft

/-! ## The filter -/

theorem meetsAll_put {t : Object} {k : String} (hk : ∀ e ∈ t, e.1 ≠ k) (v : Json)
    (entries : Object) :
    meetsAll (Table.put t k v) entries = true ↔
      meets v ((Table.get? entries k).getD .null) = true ∧ meetsAll t entries = true := by
  rw [meetsAll_iff, meetsAll_iff]
  constructor
  · intro h
    exact ⟨h (k, v) ((Table.mem_put_of_fresh hk v _).2 (.inl rfl)),
      fun e he => h e ((Table.mem_put_of_fresh hk v e).2 (.inr he))⟩
  · rintro ⟨hv, h⟩ e he
    rcases (Table.mem_put_of_fresh hk v e).1 he with rfl | he
    · exact hv
    · exact h e he

theorem meets_str (tag : String) (v : Json) : meets (.str tag) v = true ↔ v.str? = some tag := by
  cases v with
  | str s =>
    show (s == tag) = true ↔ some s = some tag
    rw [beq_iff_eq, Option.some.injEq]
  | _ =>
    constructor <;> intro h <;> cases h

namespace Clause

variable {c : Catalog} {target : SchemaId} {now : Instant} {q : Clause} {key : String} {v : Json}

theorem Asks.finds (h : q.Asks now key v) (point : Object) :
    q.finds c target now point = (entryAt? c target key point).any (meets v) := by
  rw [Clause.finds, h.1, h.2]

theorem finds_of_not_asks (h : ∀ key v, ¬q.Asks now key v) (point : Object) :
    q.finds c target now point = true := by
  unfold Clause.finds
  split
  · next key v hq hr => exact absurd ⟨hq, hr⟩ (h key v)
  · rfl

theorem entryAt?_direct (h : ¬Nested c target key) (point : Object) :
    entryAt? c target key point = some ((Table.get? point key).getD .null) := by
  unfold entryAt?
  split
  · next field hf hm => exact absurd ⟨hf, by rw [hm]; rfl⟩ h
  · rfl

theorem entryAt?_nested (h : Nested c target key) {field : String}
    (hm : c.metadataField? target = some field) (point : Object) :
    entryAt? c target key point =
      ((Table.get? point field).bind Json.entries?).map fun held =>
        (Table.get? held key).getD .null := by
  rw [entryAt?, h.1, hm]

end Clause

namespace Draft

variable {d : Domain} {target : SchemaId} {now : Instant} {draft : Draft} {qs : List Clause}

theorem Reads.all_finds (hr : Reads d target now qs draft) (point : Object) :
    qs.all (Clause.finds d.catalog target now point) = true ↔
      meetsAll draft.filter point = true ∧
        ∀ e ∈ draft.metadata, (entryAt? d.catalog target e.1 point).any (meets e.2) = true := by
  rw [List.all_eq_true, meetsAll_iff]
  constructor
  · intro h
    refine ⟨fun e he => ?_, fun e he => ?_⟩
    · obtain ⟨hdirect, q, hq, hasks⟩ := (hr.filter e).1 he
      have hfinds := h q hq
      rw [hasks.finds, Clause.entryAt?_direct hdirect] at hfinds
      exact hfinds
    · obtain ⟨-, q, hq, hasks⟩ := (hr.metadata e).1 he
      rw [← hasks.finds]
      exact h q hq
  · rintro ⟨hfilter, hmetadata⟩ q hq
    by_cases hasks : ∃ key v, q.Asks now key v
    · obtain ⟨key, v, hasks⟩ := hasks
      rw [hasks.finds]
      by_cases hnested : Clause.Nested d.catalog target key
      · exact hmetadata (key, v) ((hr.metadata _).2 ⟨hnested, q, hq, hasks⟩)
      · rw [Clause.entryAt?_direct hnested]
        exact hfilter (key, v) ((hr.filter _).2 ⟨hnested, q, hq, hasks⟩)
    · exact Clause.finds_of_not_asks (fun key v h => hasks ⟨key, v, h⟩) point

theorem Reads.meetsAll_merged (hr : Reads d target now qs draft)
    (hfield : ∀ field, d.catalog.metadataField? target = some field →
      ∀ e ∈ draft.filter, e.1 ≠ field) (point : Object) :
    meetsAll (draft.merged (d.catalog.metadataField? target)) point = true ↔
      meetsAll draft.filter point = true ∧
        ∀ e ∈ draft.metadata, (entryAt? d.catalog target e.1 point).any (meets e.2) = true := by
  have hnested : ∀ e ∈ draft.metadata, Clause.Nested d.catalog target e.1 :=
    fun e he => ((hr.metadata e).1 he).1
  cases hm : d.catalog.metadataField? target with
  | none =>
    rw [merged]
    refine (and_iff_left fun e he => ?_).symm
    have hsome := (hnested e he).2
    rw [hm] at hsome
    cases hsome
  | some field =>
    have hfresh := hfield field hm
    rw [merged]
    cases he : draft.metadata with
    | nil => simp
    | cons first rest =>
      rw [← he, List.isEmpty_eq_false_iff.2 (by simp [he]), Table.get?_eq_none_iff.2 hfresh]
      show meetsAll (Table.put draft.filter field (.obj draft.metadata)) point = true ↔ _
      rw [meetsAll_put hfresh, and_comm, meets_obj]
      refine and_congr_right fun _ => ?_
      have hentry : ∀ e ∈ draft.metadata, entryAt? d.catalog target e.1 point =
          ((Table.get? point field).bind Json.entries?).map fun held =>
            (Table.get? held e.1).getD .null :=
        fun e he => Clause.entryAt?_nested (hnested e he) hm point
      have hheld : ((Table.get? point field).getD .null).entries? =
          (Table.get? point field).bind Json.entries? := by
        cases Table.get? point field <;> rfl
      rw [hheld]
      cases hb : (Table.get? point field).bind Json.entries? with
      | none =>
        constructor
        · intro h
          cases h
        · intro h
          have hfirst := h first (by simp [he])
          rw [hentry first (by simp [he]), hb] at hfirst
          cases hfirst
      | some held =>
        rw [Option.any_some, meetsAll_iff]
        refine forall₂_congr fun e he => ?_
        rw [hentry e he, hb]
        rfl

theorem mem_merged {metadataField : Option String} {e : String × Json}
    (h : e ∈ draft.merged metadataField) : e ∈ draft.filter ∨ metadataField = some e.1 := by
  have hput : ∀ {field v}, e ∈ Table.put draft.filter field v →
      e ∈ draft.filter ∨ some field = some e.1 := by
    intro field v he
    rcases Table.mem_of_mem_put he with rfl | he
    · exact .inr rfl
    · exact .inl he
  unfold merged at h
  split at h
  · exact .inl h
  split at h
  · exact .inl h
  split at h <;> exact hput h

theorem meetsAll_tagged {c : Catalog} {filter : Object}
    (htag : ∀ f, c.family? target = some f → ∀ e ∈ filter, e.1 ≠ f.discriminator) (point : Object) :
    meetsAll (tagged c target filter) point = (hasTag c target point && meetsAll filter point) := by
  unfold tagged hasTag
  cases hf : c.family? target with
  | none => rfl
  | some f =>
    rw [Bool.eq_iff_iff, Bool.and_eq_true, meetsAll_put (htag f hf), meets_str]
    refine and_congr_left fun _ => ?_
    rw [decide_eq_true_iff]
    cases Table.get? point f.discriminator <;> rfl

/-! ## The predicates -/

theorem isGE_iff (o : Ordering) : o.isGE = !(o == .lt) := by cases o <;> rfl

theorem isLE_iff (o : Ordering) : o.isLE = !(o == .gt) := by cases o <;> rfl

theorem holds_dated (side : Qualifier) (negated : Bool) (t u : Instant) :
    (if negated then side.comparison.negate else side.comparison).holds (compare u t) =
      if negated then !side.holds t u else side.holds t u := by
  cases side <;> cases negated <;>
    simp [Qualifier.comparison, Comparison.negate, Comparison.holds, Qualifier.holds, isGE_iff,
      isLE_iff] <;> cases compare u t <;> rfl

theorem holds_bounded (side : Bound) (negated : Bool) (x y : Float) :
    (if negated then side.comparison.negate else side.comparison).holdsFloat y x =
      side.holds negated x y := by
  cases side <;> cases negated <;> rfl

theorem holds_place (q : Clause) (test : Test) (r : Record) :
    Predicate.holds d.catalog ⟨Clause.place d.catalog target q.target.1, test⟩ r =
      match test, q.found? d.catalog target r with
      | .compare _ _, none => .ok false
      | .compare op (.instant t), some v =>
        match v.toInstant? with
        | some u => .ok (op.holds (compare u t))
        | none => .error (q.unfit d.catalog target r v "an instant")
      | .compare op (.number x), some v =>
        match v.toFloat? with
        | some y => .ok (op.holdsFloat y x)
        | none => .error (q.unfit d.catalog target r v "a number")
      | .notEqual literal, none => .ok !literal.isNull
      | .notEqual literal, some v =>
        if (d.catalog.field? target q.target.1).isSome then .ok !v.same literal
        else .ok !(v.toRaw == literal.toRaw) := by
  unfold Predicate.holds Clause.found?
  dsimp only
  generalize Option.filter _ (FieldRef.read? _ r _) = found
  rcases test with ⟨op, t | x⟩ | literal <;> cases found <;> try rfl
  unfold Clause.place
  cases (d.catalog.field? target q.target.1).isSome <;> rfl

theorem toOption_eq_some {ε α : Type} {x : Except ε α} {a : α} (h : x.toOption = some a) :
    x = .ok a := by
  cases x <;> cases h
  rfl

theorem holds_predicate {q : Clause} {p : Predicate} (h : q.predicate? d target now = some p)
    (r : Record) : p.holds d.catalog r = q.holdsOf d target now r := by
  obtain ⟨test, htest, rfl⟩ := Option.map_eq_some_iff.1 h
  rw [holds_place]
  unfold Clause.holdsOf
  unfold Clause.test? at htest
  generalize q.found? d.catalog target r = found
  cases hr : q.reading now with
  | exactly v =>
    cases hn : q.target.2 with
    | false =>
      rw [hr, hn] at htest
      cases htest
    | true =>
      rw [hr, hn] at htest
      obtain ⟨typed, ht, rfl⟩ := Option.map_eq_some_iff.1 htest
      have ht := toOption_eq_some ht
      unfold Clause.differs
      cases hf : d.catalog.field? target q.target.1 with
      | none =>
        rw [hf] at ht
        cases ht
        cases found <;> rfl
      | some f =>
        rw [hf] at ht
        simp only [ht]
        cases found <;> rfl
  | dated side t =>
    rw [hr] at htest
    cases htest
    cases found with
    | none => rfl
    | some v =>
      simp only
      cases v.toInstant? with
      | none => rfl
      | some u => exact congrArg Except.ok (holds_dated side q.target.2 t u)
  | bounded side x =>
    rw [hr] at htest
    cases htest
    cases found with
    | none => rfl
    | some v =>
      simp only
      cases v.toFloat? with
      | none => rfl
      | some y => exact congrArg Except.ok (holds_bounded side q.target.2 x y)

/-- The predicates of a draft hold of the records of which the clauses hold. -/
theorem holdAll_predicates
    (h : ∀ q ∈ qs, (∃ key v, q.Asks now key v) ∨ (q.predicate? d target now).isSome) (r : Record) :
    holdAll d.catalog r (qs.filterMap (Clause.predicate? d target now)) =
      Clause.allHoldOf d target now r qs := by
  induction qs with
  | nil => rfl
  | cons q qs ih =>
    have ih := ih fun p hp => h p (by simp [hp])
    rw [Clause.allHoldOf]
    rcases h q (by simp) with ⟨key, v, hq⟩ | hp
    · have hnone : q.predicate? d target now = none := by
        rw [Clause.predicate?, hq.test?_eq_none]
        rfl
      have hholds : q.holdsOf d target now r = .ok true := by
        rw [Clause.holdsOf, hq.1, hq.2]
        rfl
      rw [List.filterMap_cons_none hnone, ih, hholds]
      rfl
    · obtain ⟨p, hp⟩ := Option.isSome_iff_exists.1 hp
      rw [List.filterMap_cons_some hp, holdAll, holds_predicate hp, ih]

end Draft

/-! ## Plans -/

namespace Plan

open Draft

variable {d : Domain} {target : SchemaId} {now : Instant} {qs : List Clause}

theorem compile_eq_ok {plan : Plan} (h : compile d target now qs = .ok plan) :
    ∃ draft, qs.foldlM (Draft.add d target now) .empty = .ok draft ∧
      plan = ⟨target, tagged d.catalog target (draft.merged (d.catalog.metadataField? target)),
        draft.predicates⟩ := by
  unfold compile at h
  cases hdraft : qs.foldlM (Draft.add d target now) .empty with
  | error e => rw [hdraft] at h; cases h
  | ok draft => rw [hdraft] at h; cases h; exact ⟨draft, rfl, rfl⟩

theorem select_eq_readOff {plan : Plan} (htarget : plan.target = target)
    (hfilter : ∀ point, meetsAll plan.filter point =
      (hasTag d.catalog target point && qs.all (Clause.finds d.catalog target now point)))
    (hholds : ∀ r, plan.holds d.catalog r = Clause.allHoldOf d target now r qs)
    (points : List Object) :
    plan.select d ((points.filter (meetsAll plan.filter)).map .obj) =
      Clause.readOff d target now qs points := by
  induction points with
  | nil => rfl
  | cons point points ih =>
    rw [Clause.readOff, ← hfilter point, List.filter_cons]
    by_cases h : meetsAll plan.filter point = true
    · rw [if_pos h, if_pos h, List.map_cons, select, htarget]
      simp only [hholds, ih]
    · rw [if_neg h, if_neg h, ih]

/-- A compiled plan gives the records that the reading of its clauses gives. -/
theorem run_compile (d : Domain) (target : SchemaId) (now : Instant) (qs : List Clause)
    {plan : Plan} (h : compile d target now qs = .ok plan)
    (hkeys : ((qs.filter fun q => !q.target.2).map (·.target.1)).Nodup)
    (hmetadata : ∀ q ∈ qs, q.target.2 = false →
      d.catalog.metadataField? target ≠ some q.target.1)
    (htag : ∀ q ∈ qs, q.target.2 = false → ∀ f, d.catalog.family? target = some f →
      f.discriminator ≠ q.target.1)
    (hapart : ∀ f, d.catalog.family? target = some f →
      d.catalog.metadataField? target ≠ some f.discriminator)
    (later : Instant) (s : PointStore) :
    (plan.run d (PointStore.service later) s).1 = Clause.readOff d target now qs s.points := by
  obtain ⟨draft, hdraft, rfl⟩ : ∃ draft, qs.foldlM (Draft.add d target now) .empty = .ok draft ∧
      plan = ⟨target, tagged d.catalog target (draft.merged (d.catalog.metadataField? target)),
        draft.predicates⟩ := by
    unfold compile at h
    cases hdraft : qs.foldlM (Draft.add d target now) .empty with
    | error e => rw [hdraft] at h; cases h
    | ok draft => rw [hdraft] at h; cases h; exact ⟨draft, rfl, rfl⟩
  have hr : Reads d target now qs draft :=
    (reads_empty d target now).foldlM (by simpa [plainKeys] using hkeys) hdraft
  have hfield : ∀ field, d.catalog.metadataField? target = some field →
      ∀ e ∈ draft.filter, e.1 ≠ field := by
    intro field hm e he heq
    obtain ⟨-, q, hq, hasks⟩ := (hr.filter e).1 he
    refine hmetadata q hq (by rw [hasks.1]) ?_
    rw [hm, hasks.1, heq]
  show select d _ _ = _
  refine select_eq_readOff rfl (fun point => ?_) (fun r => ?_) s.points
  · show meetsAll (tagged _ _ _) point = _
    rw [meetsAll_tagged ?_ point]
    · congr 1
      rw [Bool.eq_iff_iff, hr.meetsAll_merged hfield, hr.all_finds]
    · intro f hf e he
      rcases mem_merged he with he | hm
      · obtain ⟨-, q, hq, hasks⟩ := (hr.filter e).1 he
        rintro heq
        refine htag q hq (by rw [hasks.1]) f hf ?_
        rw [hasks.1, heq]
      · rintro heq
        exact hapart f hf (heq ▸ hm)
  · show holdAll d.catalog r draft.predicates = _
    rw [hr.predicates, holdAll_predicates hr.compiled]

theorem run_compile_point :
    (Plan.run Farm.domain
      ⟨Farm.Id.point, [("meta", .obj [("colour", .bool true)]),
        (Farm.pointerType, .str Farm.genericPointer)],
        [⟨.metadata "shape", .notEqual (.raw (.bool true))⟩]⟩
      (PointStore.service ⟨0, 0, by decide⟩)
      ⟨[[("meta", .obj [("colour", .bool true)]), (Farm.pointerType, .str "GenericPointer")]],
        2, 0⟩).1 =
    Clause.readOff Farm.domain Farm.Id.point ⟨0, 0, by decide⟩
      [⟨"colour", .bool true⟩, ⟨"!shape", .bool true⟩]
      [[("meta", .obj [("colour", .bool true)]), (Farm.pointerType, .str "GenericPointer")]] :=
  run_compile Farm.domain Farm.Id.point ⟨0, 0, by decide⟩
    [⟨"colour", .bool true⟩, ⟨"!shape", .bool true⟩] rfl (by decide +kernel) (by decide +kernel)
    (by decide +kernel) (by decide +kernel) _ _

/-! ### One field for the tag and the metadata -/

/-- A kind of point whose metadata field holds the tag of points. -/
def tagKeeper : Schema where
  id := ⟨"TagKeeper", 0⟩
  bases := [Farm.Id.point]
  fields := [⟨Farm.pointerType, .map .str .any⟩]
  metadata := some Farm.pointerType

theorem select_ne_nil (d : Domain) {plan : Plan} (hp : plan.predicates = []) (hit : Json) :
    plan.select d [hit] ≠ .ok [] := by
  intro h
  rw [select, select] at h
  cases hr : d.record plan.target hit with
  | error e => rw [hr] at h; cases h
  | ok r =>
    have hholds : plan.holds d.catalog r = .ok true := by
      rw [Plan.holds, hp]
      rfl
    simp only [hr, hholds, bind, Except.bind] at h
    cases h

/-- Without a field of its own for the tag, the filter has lost the entry of the metadata field. -/
theorem tag_replaces_metadata :
    ¬∀ (d : Domain) (target : SchemaId) (now : Instant) (qs : List Clause) (plan : Plan),
      compile d target now qs = .ok plan →
      (∀ field, d.catalog.metadataField? target = some field →
        d.catalog.field? target field = some ⟨field, .map .str .any⟩) →
      ((qs.filter fun q => !q.target.2).map (·.target.1)).Nodup →
      (∀ q ∈ qs, q.target.2 = false → d.catalog.metadataField? target ≠ some q.target.1) →
      (∀ q ∈ qs, q.target.2 = false → ∀ f, d.catalog.family? target = some f →
        f.discriminator ≠ q.target.1) →
      ∀ (later : Instant) (s : PointStore),
        (plan.run d (PointStore.service later) s).1 = Clause.readOff d target now qs s.points := by
  intro h
  have hrun := h ⟨tagKeeper :: Farm.pointSchemas, fun _ => []⟩ tagKeeper.id ⟨0, 0, by decide⟩
    [⟨"colour", .bool true⟩] ⟨tagKeeper.id, [(Farm.pointerType, .str "TagKeeper")], []⟩ rfl
    (by decide +kernel) (by decide +kernel) (by decide +kernel) (by decide +kernel)
    ⟨0, 0, by decide⟩ ⟨[[(Farm.pointerType, .str "TagKeeper")]], 1, 0⟩
  exact select_ne_nil _ rfl (.obj [(Farm.pointerType, .str "TagKeeper")]) hrun

end Plan

end GardenMap
