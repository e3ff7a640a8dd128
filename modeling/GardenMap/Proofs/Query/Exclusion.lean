import GardenMap.Proofs.Query.Instants
import GardenMap.Proofs.Query.Runs
import GardenMap.Proofs.Query.Tagged
import GardenMap.Proofs.Record.FailedUpdate
import GardenMap.Proofs.Record.Sameness

/-!
# Literals and their negations

A clause that asks for a truth value, a whole number or a text and its negation never give the same
point (`literal_excludes_negation`), though the one is looked for in the points as they are and the
other is tested in records. An undeclared key divides the points that have the tag of the target and
a mapping for such keys: each is given by one of the two. The mapping must have a field of its own:
in the field of the tag it is not looked at (`tag_replaces_entry`).

Proof. The filter finds points whose entry is the value asked for, and the record of such a point
has the value that the negation was compiled with, which has its own content
(`asking_excludes_testing`). At an undeclared key the filter and the test look at one entry
(`ReadAs.holds_undeclared`), so they divide the points that have it.
-/

namespace GardenMap

/-! ## Values of literals -/

/-- A truth value, a whole number or a text. -/
def Json.IsLeaf : Json → Prop
  | .bool _ | .int _ | .str _ => True
  | _ => False

theorem Json.IsLeaf.isNull {w : Json} (h : w.IsLeaf) : w.isNull = false := by
  cases w <;> first | rfl | cases h

theorem Json.IsLeaf.meets_iff {w : Json} (h : w.IsLeaf) (v : Json) :
    meets w v = true ↔ v = w := by
  cases w with
  | bool b | int i | str s => cases v <;> simp [meets, BEq.beq, Json.same]
  | _ => cases h

namespace Clause

variable {d : Domain} {target : SchemaId} {now : Instant} {q : Clause} {v : Json} {x : Value}

/-- The clause asks for a value, which is this one under the shape of its field. -/
def AsksFor (d : Domain) (target : SchemaId) (now : Instant) (q : Clause) (x : Value) : Prop :=
  ∃ v, q.meaning now = .ok (.literal v) ∧ q.typed d (d.catalog.field? target q.key) v = .ok x

theorem isLeaf_of_meaning (hleaf : q.value.IsLeaf) (hm : q.meaning now = .ok (.literal v)) :
    v.IsLeaf := by
  unfold meaning at hm
  cases hv : q.value with
  | str text =>
    rw [hv] at hm
    simp only at hm
    split at hm
    · cases hm
    · split at hm <;> cases hm
      trivial
    · split at hm <;> cases hm
      trivial
  | _ =>
    rw [hv] at hm hleaf
    cases hm
    exact hleaf

theorem meaning_negated {m : Meaning} (h : q.meaning now = .ok m) : q.negated.meaning now = .ok m := by
  obtain ⟨key, value⟩ := q
  unfold negated meaning at *
  cases value with
  | str text =>
    simp only at h ⊢
    cases hread : Phrase.readDateExpr text.toList with
    | error e => simp only [hread] at h; cases h
    | ok expr? =>
      cases expr? with
      | some expr => simpa only [hread] using h
      | none =>
        cases hbound : Phrase.readThreshold text.toList with
        | error e => simp only [hread, hbound] at h; cases h
        | ok bound? =>
          simp only [hread, hbound] at h ⊢
          cases bound? <;> exact h
  | _ => exact h

theorem typed_negated {declared : Option Field} (h : q.typed d declared v = .ok x) :
    q.negated.typed d declared v = .ok x := by
  unfold typed at h ⊢
  cases declared with
  | none => exact h
  | some f =>
    simp only at h ⊢
    cases hconv : d.catalog.converter f.shape with
    | error e => rw [hconv] at h; cases h
    | ok conv =>
      simp only [hconv] at h ⊢
      cases happly : d.apply conv v with
      | error e => rw [happly] at h; cases h
      | ok y =>
        rw [happly] at h
        exact h

theorem meetsAll_entry (c : Catalog) (target : SchemaId) (key : String) (v : Json)
    (point : Object) :
    meetsAll [entry c target key v] point = (entryAt? c target key point).any (meets v) := by
  by_cases hnested : Nested c target key
  · obtain ⟨field, hm⟩ := Option.isSome_iff_exists.1 hnested.2
    rw [entry_nested hnested hm, entryAt?_nested hnested hm]
    simp only [meetsAll, meets_obj, Bool.and_true]
    cases Table.get? point field with
    | none => rfl
    | some w => cases w <;> simp [Json.entries?]
  · rw [entry_direct hnested, entryAt?_direct hnested]
    simp only [meetsAll, Bool.and_true, Option.any_some]

end Clause

/-! ## Values in records -/

namespace Predicate

variable {c : Catalog} {r : Record} {x y : Value}

theorem holds_notEqual_none {field : FieldRef} (h : field.present? c r = none) :
    holds c ⟨field, .notEqual x⟩ r = .ok !x.isNull := by
  unfold FieldRef.present? at h
  simp only [holds, h]

theorem holds_notEqual_field {name : String} (h : (FieldRef.field name).present? c r = some y) :
    holds c ⟨.field name, .notEqual x⟩ r = .ok !y.same x := by
  unfold FieldRef.present? at h
  simp only [holds, h]

theorem holds_notEqual_metadata {key : String} {w : Json}
    (h : (FieldRef.metadata key).present? c r = some (.raw w)) (v : Json) :
    holds c ⟨.metadata key, .notEqual (.raw v)⟩ r = .ok !(w == v) := by
  unfold FieldRef.present? at h
  simp only [holds, h]
  rfl

end Predicate

namespace Domain

variable {d : Domain} {target : SchemaId} {point : Object} {r : Record} {key : String} {v : Json}

/-- Of an undeclared key, the filter and the opposite test say the opposite. -/
theorem ReadAs.holds_undeclared (hr : d.ReadAs target point r) (h : d.Orderly target)
    (hpoint : (Json.obj point).Sorted) (hkey : d.catalog.field? target key = none)
    (hleaf : v.IsLeaf) {w : Json} (hw : entryAt? d.catalog target key point = some w) :
    Predicate.holds d.catalog ⟨.metadata key, .notEqual (.raw v)⟩ r = .ok !meets v w := by
  have hpresent := hr.present?_metadata h hpoint hkey hw
  cases hnull : w.isNull with
  | true =>
    rw [hnull] at hpresent
    obtain rfl : w = .null := by
      cases w <;> first | rfl | cases hnull
    rw [Predicate.holds_notEqual_none hpresent]
    have hmeets : meets v .null = false := by
      rw [Bool.eq_false_iff, Ne, hleaf.meets_iff]
      rintro rfl
      cases hleaf
    rw [hmeets]
    exact congrArg (fun b => Except.ok !b) hleaf.isNull
  | false =>
    rw [hnull] at hpresent
    rw [Predicate.holds_notEqual_metadata hpresent]
    cases v <;> first | rfl | cases hleaf

theorem ReadAs.refuses (hr : d.ReadAs target point r) (h : d.Orderly target)
    (hpoint : (Json.obj point).Sorted) (hleaf : v.IsLeaf) {q : Clause} {x : Value}
    (ht : q.typed d (d.catalog.field? target key) v = .ok x) (hnull : x.isNull = false)
    (hnumbers : AllNumbers x.floats) (hv : entryAt? d.catalog target key point = some v) :
    Predicate.holds d.catalog ⟨Clause.place d.catalog target key, .notEqual x⟩ r = .ok false := by
  cases hf : d.catalog.field? target key with
  | none =>
    rw [hf] at ht
    cases ht
    rw [Clause.place, hf]
    refine (hr.holds_undeclared h hpoint hf hleaf hv).trans ?_
    rw [(hleaf.meets_iff v).2 rfl]
    rfl
  | some f =>
    rw [hf, Clause.typed] at ht
    have hentry : (Table.get? point key).getD .null = v := by
      rw [Clause.entryAt?_direct (fun hnested => by rw [hnested.1] at hf; cases hf)] at hv
      exact Option.some.inj hv
    cases hconv : d.catalog.converter f.shape with
    | error e => simp only [hconv] at ht; cases ht
    | ok conv =>
      simp only [hconv] at ht
      cases happly : d.apply conv v with
      | error e => simp only [happly] at ht; cases ht
      | ok y =>
        simp only [happly] at ht
        cases ht
        have hpresent := hr.present?_field h.namesOnce hf (Catalog.converter_eq_ok.1 hconv)
          (hentry ▸ happly) hnull
        rw [Clause.place, hf]
        refine (Predicate.holds_notEqual_field hpresent).trans ?_
        rw [Value.same_self _ hnumbers]
        rfl

end Domain

/-! ## Both plans -/

namespace Plan

open Draft

variable {d : Domain} {target : SchemaId} {now : Instant} {point : Object} {key : String} {v : Json}

theorem compile_notEqual {q : Clause} (hq : q.target = (key, true)) (hkey : key ≠ "")
    (hm : q.meaning now = .ok (.literal v)) {x : Value}
    (ht : q.typed d (d.catalog.field? target key) v = .ok x) :
    compile d target now [q] =
      .ok (testing d.catalog target ⟨Clause.place d.catalog target key, .notEqual x⟩) := by
  have hempty : key.isEmpty = false := String.isEmpty_eq_false_iff.2 hkey
  simp only [compile, List.foldlM_cons, List.foldlM_nil, add_eq, hq, hm, ht, hempty,
    Bool.false_eq_true, if_false, if_true]
  cases d.catalog.metadataField? target <;> rfl

theorem meetsAll_testing (c : Catalog) (target : SchemaId) (p : Predicate) (point : Object) :
    meetsAll (testing c target p).filter point = hasTag c target point := by
  show meetsAll (tagged c target []) point = _
  rw [meetsAll_tagged (fun _ _ _ he => absurd he List.not_mem_nil), meetsAll, Bool.and_true]

theorem holds_testing (c : Catalog) (target : SchemaId) (p : Predicate) (r : Record) :
    (testing c target p).holds c r = p.holds c r := by
  show (do if ← p.holds c r then holdAll c r [] else return false) = _
  rcases p.holds c r with _ | _ | _ <;> rfl

/-- The plan of a clause that asks for an entry. -/
def asking (c : Catalog) (target : SchemaId) (key : String) (v : Json) : Plan :=
  ⟨target, tagged c target [Clause.entry c target key v], []⟩

/-- The tag and what is asked for at a key have entries of their own in the filter. -/
structure Apart (c : Catalog) (target : SchemaId) (key : String) : Prop where
  direct : ∀ f, c.family? target = some f → f.discriminator ≠ key
  nested : Clause.Nested c target key → ∀ f, c.family? target = some f →
    c.metadataField? target ≠ some f.discriminator

theorem meetsAll_asking {c : Catalog} (hapart : Apart c target key) (v : Json) (point : Object) :
    meetsAll (asking c target key v).filter point =
      (hasTag c target point && (entryAt? c target key point).any (meets v)) := by
  show meetsAll (tagged c target _) point = _
  rw [meetsAll_tagged ?_, Clause.meetsAll_entry]
  intro f hf e he heq
  obtain rfl := List.mem_singleton.1 he
  by_cases hnested : Clause.Nested c target key
  · obtain ⟨field, hm⟩ := Option.isSome_iff_exists.1 hnested.2
    rw [Clause.entry_nested hnested hm] at heq
    exact hapart.nested hnested f hf (heq ▸ hm)
  · rw [Clause.entry_direct hnested] at heq
    exact hapart.direct f hf heq.symm

theorem exists_entryAt? {c : Catalog} (hkey : c.field? target key = none)
    (hmapping : ∀ bucket, c.metadataField? target = some bucket →
      ∃ held, Table.get? point bucket = some (.obj held)) :
    ∃ w, entryAt? c target key point = some w := by
  unfold entryAt?
  rw [hkey]
  cases hm : c.metadataField? target with
  | none => exact ⟨_, rfl⟩
  | some bucket =>
    obtain ⟨held, hheld⟩ := hmapping bucket hm
    exact ⟨_, by simp only [hheld]; rfl⟩

section

variable (h : d.Orderly target) (hapart : Apart d.catalog target key)
  (hpoint : (Json.obj point).Sorted) (hleaf : v.IsLeaf)

include h hapart hpoint hleaf

/-- No point is taken by both plans. -/
theorem asking_excludes_testing {q : Clause} {x : Value}
    (ht : q.typed d (d.catalog.field? target key) v = .ok x) (hnull : x.isNull = false)
    (hnumbers : AllNumbers x.floats) :
    (asking d.catalog target key v).give? d point = none ∨
      (testing d.catalog target ⟨Clause.place d.catalog target key, .notEqual x⟩).give? d point =
        none := by
  rw [Classical.or_iff_not_imp_left]
  intro hsome
  obtain ⟨r, hr⟩ := Option.ne_none_iff_exists'.1 hsome
  obtain ⟨hfilter, hrecord, -⟩ := of_give? hr
  rw [meetsAll_asking hapart, Bool.and_eq_true, Option.any_eq_true] at hfilter
  obtain ⟨htag, w, hw, hmeets⟩ := hfilter
  obtain rfl := (hleaf.meets_iff w).1 hmeets
  have hrefuses := (h.readAs htag hrecord).refuses h hpoint hleaf ht hnull hnumbers hw
  rw [← holds_testing d.catalog target] at hrefuses
  exact give?_eq ((meetsAll_testing _ _ _ _).trans htag) hrecord hrefuses

theorem asking_or_testing (hkey : d.catalog.field? target key = none)
    (htag : hasTag d.catalog target point = true)
    (hmapping : ∀ bucket, d.catalog.metadataField? target = some bucket →
      ∃ held, Table.get? point bucket = some (.obj held))
    (hdecides : (testing d.catalog target ⟨.metadata key, .notEqual (.raw v)⟩).Decides d point) :
    ((asking d.catalog target key v).give? d point).isSome =
      !((testing d.catalog target ⟨.metadata key, .notEqual (.raw v)⟩).give? d point).isSome := by
  have htested := (meetsAll_testing d.catalog target ⟨.metadata key, .notEqual (.raw v)⟩ point).trans
    htag
  obtain ⟨w, hw⟩ := exists_entryAt? hkey hmapping
  obtain ⟨r, -, hrecord, -⟩ := hdecides htested
  have hholds := (h.readAs htag hrecord).holds_undeclared h hpoint hkey hleaf hw
  rw [← holds_testing d.catalog target] at hholds
  rw [give?_eq htested hrecord hholds]
  have hasked := meetsAll_asking hapart v point
  rw [htag, hw, Option.any_some, Bool.true_and] at hasked
  cases hmeets : meets v w with
  | true =>
    rw [hmeets] at hasked
    rw [give?_eq (b := true) hasked hrecord rfl]
    rfl
  | false =>
    rw [hmeets] at hasked
    rw [give?_eq_none_of_filter hasked]
    rfl

end

/-- A clause that asks for a truth value, a whole number or a text, not absent under the shape of
its field, compiles, and so does its negation. Where both run on a store, they give records of its
points, and of no point both do. Where the key is undeclared, one of them gives a record of every
point that has the tag of the target, and a mapping in the field for undeclared keys if there is
one. -/
theorem literal_excludes_negation (h : d.Orderly target) {q : Clause} (hkey : q.key ≠ "")
    (hmark : q.key.toList.head? ≠ some Clause.negationMark)
    (hapart : Apart d.catalog target q.key) (hleaf : q.value.IsLeaf) {x : Value}
    (hx : q.AsksFor d target now x) (hnull : x.isNull = false) (hnumbers : AllNumbers x.floats) :
    ∃ p n, compile d target now [q] = .ok p ∧ compile d target now [q.negated] = .ok n ∧
      ∀ (later : Instant) (s : PointStore) (found others : List Record),
        (∀ point ∈ s.points, (Json.obj point).Sorted) →
        (p.run d (PointStore.service later) s).1 = .ok found →
        (n.run d (PointStore.service later) s).1 = .ok others →
        found = s.points.filterMap (p.give? d) ∧ others = s.points.filterMap (n.give? d) ∧
        ∀ point ∈ s.points, (p.give? d point = none ∨ n.give? d point = none) ∧
          (d.catalog.field? target q.key = none → hasTag d.catalog target point = true →
            (∀ bucket, d.catalog.metadataField? target = some bucket →
              ∃ held, Table.get? point bucket = some (.obj held)) →
            (p.give? d point).isSome = !(n.give? d point).isSome) := by
  obtain ⟨v, hm, ht⟩ := hx
  have hvleaf := Clause.isLeaf_of_meaning hleaf hm
  have hp : compile d target now [q] = _ :=
    compile_literal (Clause.target_of_unmarked hmark) hkey hm
  have hn := compile_notEqual q.target_negated hkey (Clause.meaning_negated hm)
    (Clause.typed_negated ht)
  rw [ht] at hp
  refine ⟨_, _, hp, hn, fun later s found others hsorted hfound hothers => ?_⟩
  obtain ⟨-, hfound⟩ := run_eq_ok_iff.1 hfound
  obtain ⟨hdecides, hothers⟩ := run_eq_ok_iff.1 hothers
  refine ⟨hfound, hothers, fun point hpoint => ⟨?_, fun hundeclared htag hmapping => ?_⟩⟩
  · exact asking_excludes_testing h hapart (hsorted point hpoint) hvleaf ht hnull hnumbers
  · rw [hundeclared] at ht
    cases ht
    have hplace : Clause.place d.catalog target q.key = .metadata q.key := by
      rw [Clause.place, hundeclared]
      rfl
    rw [hplace] at hdecides ⊢
    exact asking_or_testing h hapart (hsorted point hpoint) hvleaf hundeclared htag hmapping
      (hdecides point hpoint)

/-! ### Colours of points -/

theorem exists_holds_notEqual (c : Catalog) (field : FieldRef) (x : Value) (r : Record) :
    ∃ b, Predicate.holds c ⟨field, .notEqual x⟩ r = .ok b := by
  unfold Predicate.holds
  generalize Option.filter _ (field.read? c r) = found
  cases found with
  | none => exact ⟨_, rfl⟩
  | some v => cases field <;> exact ⟨_, rfl⟩

theorem decides_asking {c : Catalog} {r : Record} (hr : d.record target (.obj point) = .ok r) :
    (asking c target key v).Decides d point := fun _ => ⟨r, true, hr, rfl⟩

theorem decides_testing {r : Record} (hr : d.record target (.obj point) = .ok r) (field : FieldRef)
    (x : Value) : (testing d.catalog target ⟨field, .notEqual x⟩).Decides d point := fun _ => by
  obtain ⟨b, hb⟩ := exists_holds_notEqual d.catalog field x r
  exact ⟨r, b, hr, (holds_testing _ _ _ _).trans hb⟩

def pointWith (held : Object) : Object :=
  [("meta", .obj held), (Farm.pointerType, .str Farm.genericPointer)]

theorem exists_fills_point {steps : List FinishStep} (hsteps : steps = Farm.point.finish)
    {step : FinishStep} (hstep : step ∈ steps) (r : Record) :
    ∃ fills, r.finish step = r.fillAll fills := by
  subst hsteps
  obtain ⟨e, -, hfill, -⟩ := Farm.filled_point Farm.domain r.schema hstep
  exact ⟨[e], hfill r rfl⟩

theorem orderly_point : Farm.domain.Orderly Farm.Id.point where
  grounded := by decide
  namesOnce := Farm.hasPoints_domain.namesOnce (by decide)
  bucket := fun field hm => by
    cases hm
    decide +kernel
  hooks := fun _ hstep r _ => exists_fills_point rfl hstep r
  members := fun f hf => by
    cases hf
    exact Domain.name_ne_baseTag (by decide)

theorem record_pointWith (held : Object) :
    ∃ r, Farm.domain.record Farm.Id.point (.obj (pointWith held)) = .ok r := by
  have hshapes : ∀ g ∈ Farm.domain.catalog.allFields Farm.Id.point,
      (g.name = "meta" → g.shape = .map .str .any) ∧
        (g.name = Farm.pointerType → g.shape = .str) := by decide
  refine orderly_point.exists_record (Farm.hasPoints_domain.wellFormed (by decide)) rfl
    fun g hg conv hconv => ?_
  obtain ⟨hmeta, htype⟩ := hshapes g hg
  rw [pointWith, Table.get?_cons, Table.get?_cons]
  by_cases hname : g.name = "meta"
  · rw [hmeta hname] at hconv
    obtain rfl := Farm.eq_bucket_of_builds hconv
    have hentries : ∃ t, Farm.domain.entries .str (.scalar .any) held [] = .ok t :=
      Domain.exists_entries (fun f _ => ⟨.str f.1, _, rfl, by rw [Domain.apply_scalar]; rfl⟩) []
    obtain ⟨t, ht⟩ := hentries
    rw [if_pos hname]
    exact ⟨_, Domain.apply_map_obj ht⟩
  · rw [if_neg hname]
    by_cases hname : g.name = Farm.pointerType
    · rw [htype hname] at hconv
      obtain rfl := Farm.HasPoints.eq_scalar_of_builds hconv (show Shape.str.scalar? = some .str from rfl)
      rw [if_pos hname, Domain.apply_scalar]
      exact ⟨_, rfl⟩
    · rw [if_neg hname]
      exact ⟨_, Domain.apply_null conv⟩

theorem sorted_pointWith {held : Object} (h : (Json.obj held).Sorted) :
    (Json.obj (pointWith held)).Sorted := by
  refine ⟨?_, h, trivial, trivial⟩
  simp [pointWith, Table.Sorted, Table.keys]
  decide

def colours : PointStore := ⟨[pointWith [("colour", .str "red")], pointWith []], 1, 0⟩

/-- The clause that asks for red gives the one point, and its negation the other. -/
theorem literal_excludes_negation_colours : ∃ p n red plain,
    compile Farm.domain Farm.Id.point Record.epoch [⟨"colour", .str "red"⟩] = .ok p ∧
    compile Farm.domain Farm.Id.point Record.epoch [⟨"!colour", .str "red"⟩] = .ok n ∧
    (p.run Farm.domain (PointStore.service Record.epoch) colours).1 = .ok [red] ∧
    (n.run Farm.domain (PointStore.service Record.epoch) colours).1 = .ok [plain] := by
  have hasks : Clause.AsksFor Farm.domain Farm.Id.point Record.epoch ⟨"colour", .str "red"⟩
      (.raw (.str "red")) := ⟨.str "red", by rfl, by rfl⟩
  have hapart : Apart Farm.domain.catalog Farm.Id.point "colour" :=
    ⟨by decide +kernel, fun _ => by decide +kernel⟩
  obtain ⟨p, n, hp, hn, hrun⟩ := literal_excludes_negation orderly_point
    (q := ⟨"colour", .str "red"⟩) (by decide) (by decide) hapart trivial hasks rfl
    (fun _ h => absurd h List.not_mem_nil)
  have hasking : p = asking Farm.domain.catalog Farm.Id.point "colour" (.str "red") :=
    (Except.ok.inj hp).symm
  have htesting : n = testing Farm.domain.catalog Farm.Id.point
      ⟨.metadata "colour", .notEqual (.raw (.str "red"))⟩ := (Except.ok.inj hn).symm
  obtain ⟨red, hred⟩ := record_pointWith [("colour", .str "red")]
  obtain ⟨plain, hplain⟩ := record_pointWith []
  have hgive : p.give? Farm.domain (pointWith [("colour", .str "red")]) = some red := by
    rw [hasking]
    exact give?_eq (b := true) (by decide +kernel) hred rfl
  have hnone : p.give? Farm.domain (pointWith []) = none := by
    rw [hasking]
    exact give?_eq_none_of_filter (by decide +kernel)
  have hp' : (p.run Farm.domain (PointStore.service Record.epoch) colours).1 =
      .ok (colours.points.filterMap (p.give? Farm.domain)) := by
    refine run_eq_ok_iff.2 ⟨?_, rfl⟩
    rw [hasking]
    exact List.forall_mem_cons.2 ⟨decides_asking hred,
      List.forall_mem_singleton.2 (decides_asking hplain)⟩
  have hn' : (n.run Farm.domain (PointStore.service Record.epoch) colours).1 =
      .ok (colours.points.filterMap (n.give? Farm.domain)) := by
    refine run_eq_ok_iff.2 ⟨?_, rfl⟩
    rw [htesting]
    exact List.forall_mem_cons.2 ⟨decides_testing hred _ _,
      List.forall_mem_singleton.2 (decides_testing hplain _ _)⟩
  have hsorted : ∀ point ∈ colours.points, (Json.obj point).Sorted :=
    List.forall_mem_cons.2 ⟨sorted_pointWith ⟨List.pairwise_singleton _ _, trivial, trivial⟩,
      List.forall_mem_singleton.2 (sorted_pointWith ⟨.nil, trivial⟩)⟩
  obtain ⟨-, -, hpoints⟩ := hrun Record.epoch colours _ _ hsorted hp' hn'
  obtain ⟨⟨hone, -⟩, hother⟩ := List.forall_mem_cons.1 hpoints
  obtain ⟨-, htwo⟩ := List.forall_mem_singleton.1 hother
  have hone := hone.resolve_left (by rw [hgive]; exact Option.some_ne_none red)
  have htwo := htwo (by decide +kernel) (by decide +kernel) fun bucket hm => ⟨[], by
    cases hm
    rfl⟩
  rw [hnone, Option.isSome_none, eq_comm, Bool.not_eq_false'] at htwo
  obtain ⟨r, hr⟩ := Option.isSome_iff_exists.1 htwo
  refine ⟨p, n, red, r, hp, hn, hp'.trans ?_, hn'.trans ?_⟩
  · rw [colours, List.filterMap_cons_some hgive, List.filterMap_cons_none hnone]
    rfl
  · rw [colours, List.filterMap_cons_none hone, List.filterMap_cons_some hr]
    rfl

/-! ### One field for the tag and the metadata -/

/-- A kind of point that keeps undeclared keys in the field of the tag, and whose name is the text
of an empty mapping. -/
def bag : Schema where
  id := ⟨"\x7b\x7d", 0⟩
  bases := [Farm.Id.point]
  fields := [⟨Farm.pointerType, .map .str .any⟩]
  metadata := some Farm.pointerType

def bags : Domain := ⟨bag :: Farm.pointSchemas, fun _ => []⟩

def bagPoint : Object := [(Farm.pointerType, .str bag.id.name)]

theorem orderly_bag : bags.Orderly bag.id where
  grounded := by decide
  namesOnce := by
    unfold Catalog.NamesOnce
    decide
  bucket := fun field hm => by
    cases hm
    decide +kernel
  hooks := fun _ hstep r _ => exists_fills_point rfl hstep r
  members := fun f hf => by
    cases hf
    exact Domain.name_ne_baseTag (by decide)

theorem apply_bagPoint : bags.apply (.map .str (.scalar .any))
    ((Table.get? bagPoint Farm.pointerType).getD .null) = .ok (.map []) := by
  rw [Domain.apply_map]
  simp only [show Payload.entries ((Table.get? bagPoint Farm.pointerType).getD .null) =
    .ok (some []) from rfl, Domain.entries_nil]
  rfl

theorem record_bagPoint : ∃ r, bags.record bag.id (.obj bagPoint) = .ok r := by
  have hshapes : ∀ g ∈ bags.catalog.allFields bag.id,
      g.shape ∈ Farm.pointShapes ∧ (g.name = Farm.pointerType → g.shape = .map .str .any) := by decide
  refine orderly_bag.exists_record (.record fun g hg =>
    Farm.wellFormed_of_mem_pointShapes (hshapes g hg).1) rfl fun g hg conv hconv => ?_
  by_cases hname : g.name = Farm.pointerType
  · rw [(hshapes g hg).2 hname] at hconv
    obtain rfl := Farm.eq_bucket_of_builds hconv
    rw [hname]
    exact ⟨_, apply_bagPoint⟩
  · rw [bagPoint, Table.get?_cons, if_neg hname]
    exact ⟨_, Domain.apply_null conv⟩

theorem present?_bagPoint {r : Record} (hr : bags.record bag.id (.obj bagPoint) = .ok r)
    (key : String) : (FieldRef.metadata key).present? bags.catalog r = none := by
  have hread := orderly_bag.readAs rfl hr
  obtain ⟨conv, x, hconv, hx, hget⟩ := hread.field ⟨Farm.pointerType, .map .str .any⟩ (by decide)
  obtain rfl := Farm.eq_bucket_of_builds hconv
  cases hx.symm.trans apply_bagPoint
  have hbucket : bags.catalog.metadataField? bag.id = some Farm.pointerType := rfl
  simp only [FieldRef.present?, FieldRef.read?, Record.metadata?, hread.schema, hbucket, hget rfl]
  rfl

/-- Without a field of its own for the tag, a clause on an undeclared key gives any point of the
target, as its negation does. -/
theorem tag_replaces_entry :
    ¬∀ (d : Domain) (target : SchemaId) (now : Instant) (q : Clause) (x : Value),
      d.Orderly target → q.key ≠ "" → q.key.toList.head? ≠ some Clause.negationMark →
      (∀ f, d.catalog.family? target = some f → f.discriminator ≠ q.key) → q.value.IsLeaf →
      q.AsksFor d target now x → x.isNull = false → AllNumbers x.floats →
      ∀ p n, compile d target now [q] = .ok p → compile d target now [q.negated] = .ok n →
      ∀ (later : Instant) (s : PointStore) (found others : List Record),
        (∀ point ∈ s.points, (Json.obj point).Sorted) →
        (p.run d (PointStore.service later) s).1 = .ok found →
        (n.run d (PointStore.service later) s).1 = .ok others →
        ∀ point ∈ s.points, p.give? d point = none ∨ n.give? d point = none := by
  intro h
  obtain ⟨r, hr⟩ := record_bagPoint
  have hasks : Clause.AsksFor bags bag.id Record.epoch ⟨"b", .int 2⟩ (.raw (.int 2)) :=
    ⟨.int 2, rfl, rfl⟩
  have hp : compile bags bag.id Record.epoch [⟨"b", .int 2⟩] =
      .ok (asking bags.catalog bag.id "b" (.int 2)) := by rfl
  have hn : compile bags bag.id Record.epoch [Clause.negated ⟨"b", .int 2⟩] =
      .ok (testing bags.catalog bag.id ⟨.metadata "b", .notEqual (.raw (.int 2))⟩) := by rfl
  have hgive : (asking bags.catalog bag.id "b" (.int 2)).give? bags bagPoint = some r :=
    give?_eq (b := true) (by decide +kernel) hr rfl
  have hholds := Predicate.holds_notEqual_none (x := .raw (.int 2)) (present?_bagPoint hr "b")
  rw [← holds_testing bags.catalog bag.id] at hholds
  have hgive' := give?_eq (by decide +kernel) hr hholds
  have hsorted : (Json.obj bagPoint).Sorted := ⟨List.pairwise_singleton _ _, trivial, trivial⟩
  have hnone := h bags bag.id Record.epoch ⟨"b", .int 2⟩ _ orderly_bag (by decide) (by decide)
    (by decide +kernel) trivial hasks rfl (fun _ h => absurd h List.not_mem_nil) _ _ hp hn
    Record.epoch ⟨[bagPoint], 1, 0⟩ _ _ (List.forall_mem_singleton.2 hsorted)
    (run_eq_ok_iff.2 ⟨List.forall_mem_singleton.2 (decides_asking hr), rfl⟩)
    (run_eq_ok_iff.2 ⟨List.forall_mem_singleton.2 (decides_testing hr _ _), rfl⟩)
    bagPoint (List.mem_singleton_self _)
  rw [hgive, hgive'] at hnone
  rcases hnone with hnone | hnone <;> cases hnone

end Plan

end GardenMap
