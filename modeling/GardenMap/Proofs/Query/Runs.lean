import GardenMap.Store.Memory

/-!
# Runs of plans over stores

A plan takes the points of a store one by one: a run succeeds when every point that the filter finds
is read and decided on, and then it gives the records of the points that the plan takes
(`Plan.run_eq_ok_iff`).
-/

namespace GardenMap.Plan

variable {d : Domain} {plan : Plan} {point : Object} {r : Record}

/-! ## Point by point -/

/-- The record that a plan gives of a point, if it takes the point. -/
def give? (d : Domain) (plan : Plan) (point : Object) : Option Record :=
  if meetsAll plan.filter point then
    match d.record plan.target (.obj point) with
    | .ok r =>
      match plan.holds d.catalog r with
      | .ok true => some r
      | _ => none
    | .error _ => none
  else none

/-- A point that the filter finds is read, and the predicates decide on it. -/
def Decides (d : Domain) (plan : Plan) (point : Object) : Prop :=
  meetsAll plan.filter point = true →
    ∃ r b, d.record plan.target (.obj point) = .ok r ∧ plan.holds d.catalog r = .ok b

theorem give?_eq_none_of_filter (h : meetsAll plan.filter point = false) :
    plan.give? d point = none := by
  rw [give?, h]
  rfl

theorem give?_eq (hfilter : meetsAll plan.filter point = true)
    (hr : d.record plan.target (.obj point) = .ok r) {b : Bool}
    (hb : plan.holds d.catalog r = .ok b) : plan.give? d point = if b then some r else none := by
  rw [give?, if_pos hfilter, hr]
  simp only [hb]
  cases b <;> rfl

theorem of_give? (h : plan.give? d point = some r) :
    meetsAll plan.filter point = true ∧ d.record plan.target (.obj point) = .ok r ∧
      plan.holds d.catalog r = .ok true := by
  unfold give? at h
  split at h
  · next hfilter =>
    split at h
    · next r' hr =>
      split at h
      · next hb =>
        cases h
        exact ⟨hfilter, hr, hb⟩
      · cases h
    · cases h
  · cases h

/-! ## All points -/

theorem select_cons_eq_ok {hit : Json} {hits : List Json} {found : List Record} :
    plan.select d (hit :: hits) = .ok found ↔
      ∃ r b rest, d.record plan.target hit = .ok r ∧ plan.holds d.catalog r = .ok b ∧
        plan.select d hits = .ok rest ∧ found = if b then r :: rest else rest := by
  rw [select]
  cases d.record plan.target hit with
  | error e => simp [bind, Except.bind]
  | ok r =>
    cases hb : plan.holds d.catalog r with
    | error e => simp [bind, Except.bind, hb]
    | ok b =>
      cases plan.select d hits with
      | error e => simp [bind, Except.bind, hb]
      | ok rest => cases b <;> simp [bind, Except.bind, pure, Except.pure, hb, eq_comm]

theorem select_eq_ok_iff {points : List Object} {found : List Record} :
    plan.select d ((points.filter (meetsAll plan.filter)).map .obj) = .ok found ↔
      (∀ point ∈ points, plan.Decides d point) ∧ found = points.filterMap (plan.give? d) := by
  induction points generalizing found with
  | nil => simp [select, eq_comm]
  | cons point points ih =>
    rw [List.forall_mem_cons, List.filter_cons]
    cases hfilter : meetsAll plan.filter point with
    | false =>
      have hdecides : plan.Decides d point := fun h => by
        rw [hfilter] at h
        cases h
      rw [if_neg Bool.false_ne_true, ih, List.filterMap_cons_none (give?_eq_none_of_filter hfilter)]
      simp only [hdecides, true_and]
    | true =>
      rw [if_pos rfl, List.map_cons, select_cons_eq_ok]
      constructor
      · rintro ⟨r, b, rest, hr, hb, hrest, rfl⟩
        obtain ⟨hall, rfl⟩ := ih.1 hrest
        refine ⟨⟨fun _ => ⟨r, b, hr, hb⟩, hall⟩, ?_⟩
        rw [List.filterMap_cons, give?_eq hfilter hr hb]
        cases b <;> rfl
      · rintro ⟨⟨hdecides, hall⟩, rfl⟩
        obtain ⟨r, b, hr, hb⟩ := hdecides hfilter
        refine ⟨r, b, _, hr, hb, ih.2 ⟨hall, rfl⟩, ?_⟩
        rw [List.filterMap_cons, give?_eq hfilter hr hb]
        cases b <;> rfl

/-- A run over a store succeeds when the plan decides on every point, and then it gives the records
of the points that it takes. -/
theorem run_eq_ok_iff {later : Instant} {s : PointStore} {found : List Record} :
    (plan.run d (PointStore.service later) s).1 = .ok found ↔
      (∀ point ∈ s.points, plan.Decides d point) ∧ found = s.points.filterMap (plan.give? d) :=
  select_eq_ok_iff

end GardenMap.Plan
