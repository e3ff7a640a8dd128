import GardenMap.Farm.Schemas
import GardenMap.Proofs.Decimal.FloatOrder
import GardenMap.Proofs.Phrase.Thresholds
import GardenMap.Proofs.Query.Compiled

/-!
# Negated comparisons

A clause on a qualified date or a threshold and its negation compile to one test each, and exactly
one of the two holds of a value that can be compared (`compile_complements`). An absent value fails
both, and both refuse a value that is no instant, or no number, with one error.

Proof. Negation turns the comparison of the clause round, and of two instants, or two numbers other
than NaN, a comparison holds or the one turned round.
-/

namespace GardenMap

/-! ## Comparisons turned round -/

namespace Comparison

theorem holds_negate (op : Comparison) (o : Ordering) : op.negate.holds o = !op.holds o := by
  cases op <;> cases o <;> rfl

theorem holdsFloat_negate (op : Comparison) {x y : Float} (hx : x.isNaN = false)
    (hy : y.isNaN = false) : op.negate.holdsFloat x y = !op.holdsFloat x y := by
  have hxy := Decimal.lt_iff_not_le hx hy
  have hyx := Decimal.lt_iff_not_le hy hx
  cases op <;> simp only [negate, holdsFloat, hxy, hyx, decide_not, Bool.not_not]

end Comparison

/-! ## Opposite tests -/

namespace FieldRef

variable {α : Type} {c : Catalog} {r : Record} {field : FieldRef}

/-- The value in a record, unless it is absent. -/
def present? (c : Catalog) (r : Record) (field : FieldRef) : Option Value :=
  (field.read? c r).filter fun v => !v.isNull

/-- What a test says that looks at a view of the value. -/
def look (c : Catalog) (r : Record) (field : FieldRef) (view? : Value → Option α) (what : String)
    (verdict : α → Bool) : Except Error Bool :=
  match field.present? c r with
  | none => .ok false
  | some v =>
    match view? v with
    | some x => .ok (verdict x)
    | none => .error (.rejected r.schema.name v.toRaw (.incomparable field.text what))

theorem holds_instant (op : Comparison) (t : Instant) :
    Predicate.holds c ⟨field, .compare op (.instant t)⟩ r =
      field.look c r Value.toInstant? "an instant" fun u => op.holds (compare u t) := by
  unfold Predicate.holds look present?
  generalize Option.filter _ (field.read? c r) = found
  cases found with
  | none => rfl
  | some v =>
    dsimp only
    cases v.toInstant? <;> rfl

theorem holds_number (op : Comparison) (x : Float) :
    Predicate.holds c ⟨field, .compare op (.number x)⟩ r =
      field.look c r Value.toFloat? "a number" fun y => op.holdsFloat y x := by
  unfold Predicate.holds look present?
  generalize Option.filter _ (field.read? c r) = found
  cases found with
  | none => rfl
  | some v =>
    dsimp only
    cases v.toFloat? <;> rfl

end FieldRef

/-- What two opposite tests of a field, which look at a view of its value, say of a record: both fail
when the value is absent, both refuse a value without the view, and one holds of any that can be
compared. -/
structure Opposite {α : Type} (c : Catalog) (field : FieldRef) (view? : Value → Option α)
    (Comparable : α → Prop) (p n : Predicate) (r : Record) : Prop where
  absent : field.present? c r = none → p.holds c r = .ok false ∧ n.holds c r = .ok false
  refused : ∀ v, field.present? c r = some v → view? v = none →
    ∃ why, p.holds c r = .error (.rejected r.schema.name v.toRaw why) ∧
      n.holds c r = .error (.rejected r.schema.name v.toRaw why)
  one : ∀ v x, field.present? c r = some v → view? v = some x → Comparable x →
    ∃ b, p.holds c r = .ok b ∧ n.holds c r = .ok !b

namespace Opposite

variable {c : Catalog} {field : FieldRef} {r : Record}

theorem of_look {α : Type} {view? : Value → Option α} {Comparable : α → Prop} {p n : Predicate}
    {what : String} {verdict verdict' : α → Bool}
    (hp : p.holds c r = field.look c r view? what verdict)
    (hn : n.holds c r = field.look c r view? what verdict')
    (hone : ∀ x, Comparable x → verdict' x = !verdict x) :
    Opposite c field view? Comparable p n r := by
  rw [FieldRef.look] at hp hn
  constructor
  · intro hfound
    rw [hp, hn, hfound]
    exact ⟨rfl, rfl⟩
  · intro v hfound hview
    simp only [hfound, hview] at hp hn
    exact ⟨_, hp, hn⟩
  · intro v x hfound hview hx
    simp only [hfound, hview] at hp hn
    exact ⟨verdict x, hp, by rw [hn, hone x hx]⟩

theorem instant (op : Comparison) (t : Instant) :
    Opposite c field Value.toInstant? (fun _ => True) ⟨field, .compare op (.instant t)⟩
      ⟨field, .compare op.negate (.instant t)⟩ r :=
  of_look (FieldRef.holds_instant op t) (FieldRef.holds_instant op.negate t) fun _ _ =>
    op.holds_negate _

theorem number (op : Comparison) {x : Float} (hx : x.isNaN = false) :
    Opposite c field Value.toFloat? (fun y => y.isNaN = false) ⟨field, .compare op (.number x)⟩
      ⟨field, .compare op.negate (.number x)⟩ r :=
  of_look (FieldRef.holds_number op x) (FieldRef.holds_number op.negate x) fun _ hy =>
    op.holdsFloat_negate hy hx

end Opposite

/-! ## Clauses and their negations -/

namespace Clause

variable {now : Instant} {q : Clause}

/-- The clause with the mark in front of its key. -/
def negated (q : Clause) : Clause := ⟨String.ofList (negationMark :: q.key.toList), q.value⟩

theorem target_of_unmarked (h : q.key.toList.head? ≠ some negationMark) :
    q.target = (q.key, false) := splitMark_of_head?_ne h

theorem target_negated (q : Clause) : q.negated.target = (q.key, true) := by
  unfold target splitMark negated
  simp only [String.toList_ofList, if_true, String.ofList_toList]

theorem meaning_dated {text : String} {side : Qualifier} {moment : Moment}
    (hq : q.value = .str text)
    (h : Phrase.readDateExpr text.toList = .ok (some ⟨some side, moment⟩)) :
    q.meaning now =
      match moment.resolve? now with
      | none => .error .outOfCalendar
      | some t => .ok (.comparison side.comparison (.instant t)) := by
  rw [meaning, hq]
  simp only [h]
  cases moment.resolve? now <;> rfl

theorem meaning_bounded {text : String} {bound : Threshold} (hq : q.value = .str text)
    (h : Phrase.readThreshold text.toList = .ok (some bound)) :
    q.meaning now = .ok (.comparison bound.bound.comparison (.number bound.value)) := by
  rw [meaning, hq]
  simp only [Phrase.readDateExpr_of_threshold h, h]

end Clause

namespace Plan

open Draft

variable {d : Domain} {target : SchemaId} {now : Instant}

/-- The plan of a clause that asks for no entry. -/
def testing (c : Catalog) (target : SchemaId) (p : Predicate) : Plan :=
  ⟨target, tagged c target [], [p]⟩

theorem compile_comparison {q : Clause} {key : String} {marked : Bool} {op : Comparison}
    {operand : Operand} (hq : q.target = (key, marked)) (hkey : key ≠ "")
    (hm : q.meaning now = .ok (.comparison op operand)) :
    compile d target now [q] = .ok (testing d.catalog target
      ⟨Clause.place d.catalog target key,
        .compare (if marked then op.negate else op) operand⟩) := by
  have hempty : key.isEmpty = false := String.isEmpty_eq_false_iff.2 hkey
  simp only [compile, List.foldlM_cons, List.foldlM_nil, add_eq, hq, hm, hempty,
    Bool.false_eq_true, if_false]
  cases d.catalog.metadataField? target <;> rfl

theorem compile_of_meaning_error {q : Clause} {key : String} {marked : Bool} {e : Error}
    (hq : q.target = (key, marked)) (hkey : key ≠ "") (hm : q.meaning now = .error e) :
    compile d target now [q] = .error e := by
  have hempty : key.isEmpty = false := String.isEmpty_eq_false_iff.2 hkey
  simp only [compile, List.foldlM_cons, List.foldlM_nil, add_eq, hq, hm, hempty,
    Bool.false_eq_true, if_false]
  rfl

/-- A clause on a qualified date or a threshold compiles to one test, and its negation to the
opposite test. A date beyond the calendar compiles in neither. -/
theorem compile_complements (d : Domain) (target : SchemaId) (now : Instant) (key text : String)
    (hkey : key ≠ "") (hmark : key.toList.head? ≠ some Clause.negationMark) :
    (∀ side moment, Phrase.readDateExpr text.toList = .ok (some ⟨some side, moment⟩) →
      (moment.resolve? now = none →
        compile d target now [⟨key, .str text⟩] = .error .outOfCalendar ∧
        compile d target now [Clause.negated ⟨key, .str text⟩] = .error .outOfCalendar) ∧
      ∀ t, moment.resolve? now = some t → ∃ p n,
        compile d target now [⟨key, .str text⟩] = .ok (testing d.catalog target p) ∧
        compile d target now [Clause.negated ⟨key, .str text⟩] =
          .ok (testing d.catalog target n) ∧
        p.test = .compare side.comparison (.instant t) ∧
        ∀ r, Opposite d.catalog (Clause.place d.catalog target key) Value.toInstant?
          (fun _ => True) p n r) ∧
    ∀ bound, Phrase.readThreshold text.toList = .ok (some bound) → ∃ p n,
      compile d target now [⟨key, .str text⟩] = .ok (testing d.catalog target p) ∧
      compile d target now [Clause.negated ⟨key, .str text⟩] = .ok (testing d.catalog target n) ∧
      p.test = .compare bound.bound.comparison (.number bound.value) ∧
      ∀ r, Opposite d.catalog (Clause.place d.catalog target key) Value.toFloat?
        (fun x => x.isNaN = false) p n r := by
  have hplain := Clause.target_of_unmarked (q := ⟨key, .str text⟩) hmark
  have hnegated := Clause.target_negated ⟨key, .str text⟩
  constructor
  · intro side moment hread
    constructor
    · intro hnone
      have hm : ∀ q : Clause, q.value = .str text → q.meaning now = .error .outOfCalendar := by
        intro q hq
        rw [Clause.meaning_dated hq hread, hnone]
      exact ⟨compile_of_meaning_error hplain hkey (hm _ rfl),
        compile_of_meaning_error hnegated hkey (hm _ rfl)⟩
    · intro t ht
      have hm : ∀ q : Clause, q.value = .str text →
          q.meaning now = .ok (.comparison side.comparison (.instant t)) := by
        intro q hq
        rw [Clause.meaning_dated hq hread, ht]
      exact ⟨_, _, compile_comparison hplain hkey (hm _ rfl),
        compile_comparison hnegated hkey (hm _ rfl), rfl, fun r => .instant side.comparison t⟩
  · intro bound hread
    have hfinite := Decimal.isNaN_of_isFinite (Phrase.of_readThreshold hread).2
    exact ⟨_, _, compile_comparison hplain hkey (Clause.meaning_bounded rfl hread),
      compile_comparison hnegated hkey (Clause.meaning_bounded rfl hread), rfl,
      fun r => .number bound.bound.comparison hfinite⟩

/-- The radius of points, from a bound on, and below it. -/
theorem compile_complements_radius : ∃ p n,
    compile Farm.domain Farm.Id.point ⟨0, 0, by decide⟩ [⟨"radius", .str "at least 1"⟩] =
      .ok ⟨Farm.Id.point, [(Farm.pointerType, .str Farm.genericPointer)], [p]⟩ ∧
    compile Farm.domain Farm.Id.point ⟨0, 0, by decide⟩ [⟨"!radius", .str "at least 1"⟩] =
      .ok ⟨Farm.Id.point, [(Farm.pointerType, .str Farm.genericPointer)], [n]⟩ ∧
    ∀ r, Opposite Farm.domain.catalog (.field "radius") Value.toFloat? (fun x => x.isNaN = false)
      p n r := by
  obtain ⟨-, hthreshold⟩ := compile_complements Farm.domain Farm.Id.point ⟨0, 0, by decide⟩
    "radius" "at least 1" (by decide) (by decide)
  obtain ⟨p, n, hp, hn, -, hopposite⟩ := hthreshold _ rfl
  exact ⟨p, n, hp, hn, hopposite⟩

end Plan

end GardenMap
