import GardenMap.Proofs.Conversion.Caches
import Mathlib.Logic.Relation

/-!
# Which shapes resolve

`Shape.WellFormed` says by the forms of shapes alone which of them have a converter. Whatever a
registry keeps from earlier calls, it resolves these shapes and no others, and the error for any
other shape names a part of it and says what is wrong with that part
(`Desk.resolve_iff_wellFormed`).

A shape that is well formed has no infinite descent into its parts, which is what the stack of
shapes in progress watches for. The stack is also why resolution ends on every shape: a shape that
is on it is not followed into its parts again, and a catalog has only so many record shapes to
follow (`Registry.wellFounded_asks`).
-/

namespace GardenMap

namespace Shape

/-- The shapes that have a converter. -/
inductive WellFormed (c : Catalog) : Shape → Prop
  /-- The shapes of single values, `any` among them. -/
  | single {s : Shape} {kind : Scalar} (h : s.scalar? = some kind) : WellFormed c s
  | optional {inner : Shape} (h : WellFormed c inner) : WellFormed c (.optional inner)
  | list {item : Shape} (h : WellFormed c item) : WellFormed c (.list item)
  | map {key value : Shape} (hkey : key.isKey = true) (h : WellFormed c value) :
      WellFormed c (.map key value)
  /-- At most one member is not null, counted with repetition. -/
  | union {members : List Shape} (hone : members.countP (· ≠ .null) ≤ 1)
      (h : ∀ m ∈ members, m ≠ .null → WellFormed c m) : WellFormed c (.union members)
  | record {schema : SchemaId} (h : ∀ f ∈ c.allFields schema, WellFormed c f.shape) :
      WellFormed c (.record schema)

end Shape

/-- The fault is there, in the shape that the error names. -/
def ShapeError.IsFault (c : Catalog) (e : ShapeError) : Prop :=
  match e.fault with
  | .bareNull => e.shape = .null
  | .manyMembers => ∃ members, e.shape = .union members ∧ 1 < members.countP (· ≠ .null)
  | .badKey key => ∃ value, e.shape = .map key value ∧ key.isKey = false
  | .selfContaining => Relation.TransGen (Shape.Part c) e.shape e.shape

/-! ## What is built is well formed -/

namespace Shape

variable {c : Catalog}

theorem recipe_of_scalar? {s : Shape} {kind : Scalar} (h : s.scalar? = some kind) :
    ∃ made, s.recipe c = .ok made ∧ made.parts = [] := by
  cases s <;> cases h
  all_goals exact ⟨_, rfl, rfl⟩

/-- To show something of every well-formed shape, show it of a shape whose recipe has parts that it
holds of. -/
theorem WellFormed.recipe_induction {motive : Shape → Prop}
    (step : ∀ {s made}, s.recipe c = .ok made → (∀ p ∈ made.parts, motive p) → motive s)
    {s : Shape} (h : WellFormed c s) : motive s := by
  have single : ∀ {s kind}, s.scalar? = some kind → motive s := by
    intro s kind hs
    obtain ⟨made, hr, hparts⟩ := recipe_of_scalar? (c := c) hs
    exact step hr (by simp [hparts])
  induction h with
  | single h => exact single h
  | optional _ ih => exact step rfl (List.forall_mem_singleton.2 ih)
  | list _ ih => exact step rfl (List.forall_mem_singleton.2 ih)
  | @map key value hkey _ ih =>
    obtain ⟨kind, hkind⟩ := Option.isSome_iff_exists.1 hkey
    have hr : (Shape.map key value).recipe c =
        .ok ⟨[key, value], fun convs => .map kind (convs.getLastD .absent)⟩ := by
      simp only [Shape.recipe, hkind]
    refine step hr fun p hp => ?_
    simp only [List.mem_cons, List.not_mem_nil, or_false] at hp
    rcases hp with rfl | rfl
    · exact single (Option.filter_eq_some_iff.1 hkind).1
    · exact ih
  | @union members hone _ ih =>
    rw [List.countP_eq_length_filter, show members.filter _ = concrete members from rfl] at hone
    rcases hm : concrete members with _ | ⟨only, _ | ⟨second, rest⟩⟩
    · have hr : (Shape.union members).recipe c = .ok ⟨[], fun _ => .absent⟩ := by
        simp only [Shape.recipe, hm]
      exact step hr (by simp)
    · have hr : (Shape.union members).recipe c =
          .ok (.around only (if hasNull members then .nullable else id)) := by
        simp only [Shape.recipe, hm]
      have hmem : only ∈ concrete members := by simp [hm]
      obtain ⟨hmem, hne⟩ := List.mem_filter.1 hmem
      exact step hr (List.forall_mem_singleton.2 (ih only hmem (of_decide_eq_true hne)))
    · rw [hm] at hone
      simp at hone
  | record _ ih =>
    refine step rfl fun p hp => ?_
    obtain ⟨f, hf, rfl⟩ := List.mem_map.1 hp
    exact ih f hf

theorem wellFormed_of_recipe {s : Shape} {made : Recipe} (hr : s.recipe c = .ok made)
    (h : ∀ p ∈ made.parts, WellFormed c p) : WellFormed c s := by
  cases s with
  | any | bool | int | float | str | date | datetime => exact .single rfl
  | null => cases hr
  | optional inner =>
    cases hr
    exact .optional (h inner (by simp [Recipe.around]))
  | list item =>
    cases hr
    exact .list (h item (by simp [Recipe.around]))
  | map key value =>
    simp only [Shape.recipe] at hr
    split at hr
    · cases hr
    · next kind hkind =>
      cases hr
      exact .map (Option.isSome_iff_exists.2 ⟨kind, hkind⟩) (h value (by simp))
  | union members =>
    have hmem : ∀ m ∈ members, m ≠ .null → m ∈ concrete members := fun m hm hne =>
      List.mem_filter.2 ⟨hm, decide_eq_true hne⟩
    have hcount : members.countP (· ≠ .null) = (concrete members).length :=
      List.countP_eq_length_filter
    simp only [Shape.recipe] at hr
    split at hr
    · next hm =>
      refine .union (by rw [hcount, hm]; simp) fun m hmm hne => ?_
      have := hmem m hmm hne
      simp [hm] at this
    · next only hm =>
      cases hr
      refine .union (by rw [hcount, hm]; simp) fun m hmm hne => ?_
      have := hmem m hmm hne
      rw [hm] at this
      exact h m this
    · cases hr
  | record schema =>
    cases hr
    exact .record fun f hf => h f.shape (List.mem_map.2 ⟨f, hf, rfl⟩)

theorem exists_converters {parts : List Shape} (h : ∀ p ∈ parts, ∃ conv, Builds c p conv) :
    ∃ convs : List Converter, convs.length = parts.length ∧
      ∀ x ∈ parts.zip convs, Builds c x.1 x.2 := by
  induction parts with
  | nil => exact ⟨[], rfl, by simp⟩
  | cons p parts ih =>
    obtain ⟨⟨conv, hconv⟩, hparts⟩ := List.forall_mem_cons.1 h
    obtain ⟨convs, hlen, hzip⟩ := ih hparts
    refine ⟨conv :: convs, by simp [hlen], ?_⟩
    rw [List.zip_cons_cons]
    exact List.forall_mem_cons.2 ⟨hconv, hzip⟩

end Shape

theorem exists_builds_iff {c : Catalog} {s : Shape} : (∃ conv, Builds c s conv) ↔ s.WellFormed c := by
  constructor
  · rintro ⟨conv, hb⟩
    induction hb with
    | intro hr hlen _ ih =>
      refine Shape.wellFormed_of_recipe hr fun p hp => ?_
      obtain ⟨conv, hx⟩ := exists_zip hlen hp
      exact ih _ hx
  · refine fun h => h.recipe_induction (motive := fun s => ∃ conv, Builds c s conv) ?_
    intro s made hr hparts
    obtain ⟨convs, hlen, hzip⟩ := Shape.exists_converters hparts
    exact ⟨_, .intro hr hlen hzip⟩

namespace Registry

open Shape

/-! ## What is refused -/

theorem isFault_of_recipe {c : Catalog} {s : Shape} {fault : ShapeFault}
    (hr : s.recipe c = .error fault) : ShapeError.IsFault c ⟨s, fault⟩ := by
  cases s with
  | any | bool | int | float | str | date | datetime | optional | list | record => cases hr
  | null =>
    cases hr
    rfl
  | map key value =>
    simp only [Shape.recipe] at hr
    split at hr
    · next hkey =>
      cases hr
      exact ⟨value, rfl, by rw [isKey, hkey]; rfl⟩
    · cases hr
  | union members =>
    simp only [Shape.recipe] at hr
    split at hr
    · cases hr
    · cases hr
    · next hnone hone =>
      cases hr
      refine ⟨members, rfl, ?_⟩
      rw [List.countP_eq_length_filter, show members.filter _ = concrete members from rfl]
      rcases hm : concrete members with _ | ⟨only, _ | ⟨second, rest⟩⟩
      · exact absurd hm hnone
      · exact absurd hm (hone only)
      · simp

theorem resolveAll_error {c : Catalog} {stack : List Shape} {parts : List Shape} {e : ShapeError}
    {r : Registry} (h : (resolveAll c stack parts r).1 = .error e) :
    ∃ p ∈ parts, ∃ r, (resolve c stack p r).1 = .error e := by
  induction parts generalizing r with
  | nil => cases h
  | cons p parts ih =>
    simp only [resolveAll] at h
    rcases hp : resolve c stack p r with ⟨_ | conv, r₁⟩
    · rw [hp] at h
      cases h
      exact ⟨p, by simp, r, by rw [hp]⟩
    · rw [hp] at h
      simp only at h
      rcases hps : resolveAll c stack parts r₁ with ⟨_ | convs, r₂⟩
      · rw [hps] at h
        cases h
        obtain ⟨q, hq, hfail⟩ := ih (by rw [hps])
        exact ⟨q, by simp [hq], hfail⟩
      · rw [hps] at h
        cases h

/-- An error names a shape among the parts of the one that was to be resolved, and a fault that is
there. -/
theorem isFault_of_resolve {c : Catalog} (stack : List Shape) (s : Shape) :
    ∀ r e, Above c stack s → (resolve c stack s r).1 = .error e →
      e.IsFault c ∧ Relation.ReflTransGen (Part c) e.shape s := by
  induction stack, s using resolve_induction (c := c) with
  | step stack s ih =>
    intro r e habove h
    rw [resolve_eq] at h
    cases hf : r.find? s with
    | some found =>
      rw [hf] at h
      cases h
    | none =>
      rw [hf] at h
      simp only at h
      by_cases hs : s ∈ stack
      · rw [if_pos hs] at h
        cases h
        exact ⟨habove s hs, .refl⟩
      rw [if_neg hs] at h
      cases hm : s.recipe c with
      | error fault =>
        rw [hm] at h
        cases h
        exact ⟨isFault_of_recipe hm, .refl⟩
      | ok made =>
        rw [hm] at h
        simp only at h
        rcases hall : resolveAll c (s :: stack) made.parts r with ⟨_ | convs, r₁⟩
        · rw [hall] at h
          cases h
          obtain ⟨p, hp, r', hfail⟩ := resolveAll_error (by rw [hall])
          have hpart : Part c p s := ⟨made, hm, hp⟩
          obtain ⟨hfault, hreach⟩ := ih hs made hm p hp r' _ (habove.part hpart) hfail
          exact ⟨hfault, hreach.tail hpart⟩
        · rw [hall] at h
          cases h

/-! ## Resolution ends -/

/-- What is asked while a shape is resolved: each of its parts, on the stack with the shape. Nothing
is asked for a shape that is on the stack. -/
def Asks (c : Catalog) (q p : List Shape × Shape) : Prop :=
  p.2 ∉ p.1 ∧ q.1 = p.2 :: p.1 ∧ Part c q.2 p.2

/-- However shapes contain one another, no resolution asks on for ever. -/
theorem wellFounded_asks (c : Catalog) : WellFounded (Asks c) := by
  have hlex : WellFounded (Prod.Lex (· < · : Nat → Nat → Prop) (· < · : Nat → Nat → Prop)) :=
    (Prod.lex Nat.lt_wfRel Nat.lt_wfRel).wf
  refine Subrelation.wf ?_ (InvImage.wf (fun p => (unvisited c p.1, sizeOf p.2)) hlex)
  rintro ⟨stack', p⟩ ⟨stack, s⟩ ⟨hs, hstack, made, hr, hp⟩
  cases hstack
  exact part_lt hs hr hp

end Registry

/-- After any calls, a registry resolves the well-formed shapes and no others. Resolution always
ends. For any other shape it ends with an error that names a part of the shape and what is wrong
there, and so does every conversion to the shape. -/
theorem Desk.resolve_iff_wellFormed (c : Catalog) (calls : List Call) (s : Shape) :
    WellFounded (Registry.Asks c) ∧
    ((∃ conv, ((after c calls).answer c (.resolve s)).1 = .converter (.ok conv)) ↔
      s.WellFormed c) ∧
    (¬s.WellFormed c → ∃ e, e.IsFault c ∧ Relation.ReflTransGen (Shape.Part c) e.shape s ∧
      ((after c calls).answer c (.resolve s)).1 = .converter (.error e) ∧
      ∀ v, ((after c calls).answer c (.deserialize s v)).1 = .value (.error (.unresolved e))) := by
  have hanswer : ∀ call, ((after c calls).answer c call).1 =
      (Ledger.after calls).answer c call := fun call => ((valid_after c calls).answer call).1
  have hresolves : (∃ conv, c.converter s = .ok conv) ↔ s.WellFormed c := by
    rw [← exists_builds_iff]
    exact exists_congr fun conv => Catalog.converter_eq_ok
  simp only [hanswer, Ledger.answer]
  refine ⟨Registry.wellFounded_asks c, ?_, fun hs => ?_⟩
  · rw [← hresolves]
    simp only [Answer.converter.injEq]
  · cases hconv : c.converter s with
    | ok conv => exact absurd (hresolves.1 ⟨conv, hconv⟩) hs
    | error e =>
      have habove : Registry.Above c [] s := fun t ht => by cases ht
      obtain ⟨hfault, hreach⟩ := Registry.isFault_of_resolve [] s .empty e habove hconv
      refine ⟨e, hfault, hreach, rfl, fun v => ?_⟩
      unfold Domain.read
      rw [show (Ledger.domain c (Ledger.after calls)).catalog = c from rfl, hconv]

end GardenMap
