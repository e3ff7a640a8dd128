import GardenMap.Literal.Weight
import GardenMap.Proofs.Tables

/-!
# What literals spell

A property of wire values holds of every value that a text spells when the keywords, the numbers and
the texts have it, lists have it when their elements do, and the tables of entries when the values
of the entries do (`of_read`). So every mapping that a text spells is a table (`sorted_of_read`).
-/

namespace GardenMap

namespace Json

mutual

/-- Every mapping in the value is a table. -/
def Sorted : Json → Prop
  | .arr items => SortedItems items
  | .obj entries => Table.Sorted entries ∧ SortedEntries entries
  | _ => True

/-- Every mapping in the elements is a table. -/
def SortedItems : List Json → Prop
  | [] => True
  | v :: vs => v.Sorted ∧ SortedItems vs

/-- Every mapping in the values of the entries is a table. -/
def SortedEntries : List (String × Json) → Prop
  | [] => True
  | (_, v) :: es => v.Sorted ∧ SortedEntries es

end

theorem sortedItems_iff {vs : List Json} : SortedItems vs ↔ ∀ v ∈ vs, v.Sorted := by
  induction vs with
  | nil => simp [SortedItems]
  | cons v vs ih => rw [SortedItems, ih, List.forall_mem_cons]

theorem sortedEntries_iff {es : Object} : SortedEntries es ↔ ∀ e ∈ es, e.2.Sorted := by
  induction es with
  | nil => simp [SortedEntries]
  | cons e es ih =>
    obtain ⟨k, v⟩ := e
    rw [SortedEntries, ih, List.forall_mem_cons]

end Json

namespace Literal

/-! ## Elements -/

section Elements

variable {α : Type} {item : List Char → Outcome α} {P : α → Prop}

theorem of_moreElements (hitem : ∀ s v rest, item s = .found v rest → P v) {s rest : List Char}
    {vs : List α} (h : moreElements item s = .found vs rest) : ∀ v ∈ vs, P v := by
  fun_induction moreElements item s generalizing vs rest with
  | case1 => cases h; simp
  | case2 s t ht v r hv hlt ih =>
    obtain ⟨us, hus, rfl⟩ := Outcome.map_eq_found h
    rw [List.forall_mem_cons]
    exact ⟨hitem _ _ _ hv, ih hus⟩
  | case3 => cases h; simp
  | case4 => cases h; simp
  | case5 => cases h

theorem of_enclosed (hitem : ∀ s v rest, item s = .found v rest → P v) {bracket : Char}
    {s rest : List Char} {vs : List α} {trailing : Bool}
    (h : enclosed item bracket s = .found (vs, trailing) rest) : ∀ v ∈ vs, P v := by
  obtain ⟨us, r, hus, h⟩ := Outcome.andThen_eq_found h
  obtain ⟨b, hb, he⟩ := Outcome.map_eq_found h
  cases he
  unfold elements at hus
  split at hus
  · next v r hv =>
    obtain ⟨us, hmore, rfl⟩ := Outcome.map_eq_found hus
    rw [List.forall_mem_cons]
    exact ⟨hitem _ _ _ hv, of_moreElements hitem hmore⟩
  · cases hus
    simp
  · cases hus

end Elements

/-! ## Literals -/

/-- A property that values have when their parts do. -/
structure Inherits (P : Json → Prop) : Prop where
  keyword : ∀ e ∈ keywords, P e.2
  number : ∀ token n v, numberOf? token n = some v → P v
  str : ∀ s, P (.str s)
  arr : ∀ vs, (∀ v ∈ vs, P v) → P (.arr vs)
  obj : ∀ es, (∀ e ∈ es, P e.2) → P (.obj (Table.ofList es))

variable {P : Json → Prop} {item : List Char → Outcome Json}

theorem of_entry (hitem : ∀ s v rest, item s = .found v rest → P v) (s : List Char)
    (e : String × Json) (rest : List Char) (h : entry item s = .found e rest) : P e.2 := by
  obtain ⟨key, r, hkey, h⟩ := Outcome.andThen_eq_found h
  split at h
  · cases h
  · split at h
    · obtain ⟨v, hv, rfl⟩ := Outcome.map_eq_found h
      exact hitem _ _ _ hv
    · cases h

theorem of_core (hP : Inherits P) (hitem : ∀ s v rest, item s = .found v rest → P v)
    (s : List Char) (v : Json) (rest : List Char) (h : core item s = .found v rest) : P v := by
  unfold core at h
  split at h
  · obtain ⟨⟨vs, b⟩, hvs, rfl⟩ := Outcome.map_eq_found (missedAt_eq_found h)
    exact hP.arr vs (of_enclosed hitem hvs)
  · obtain ⟨⟨vs, b⟩, hvs, rfl⟩ := Outcome.map_eq_found (missedAt_eq_found h)
    have hall := of_enclosed hitem hvs
    simp only
    split
    · exact hall _ (by simp)
    · exact hP.arr vs hall
  · obtain ⟨⟨es, b⟩, hes, rfl⟩ := Outcome.map_eq_found h
    exact hP.obj es (of_enclosed (of_entry hitem) hes)
  · obtain ⟨x, -, rfl⟩ := Outcome.map_eq_found h
    exact hP.str x
  · obtain ⟨x, -, rfl⟩ := Outcome.map_eq_found h
    exact hP.str x
  · split at h
    · next w r hw =>
      cases h
      unfold keyword? at hw
      obtain ⟨e, he, hw⟩ := List.exists_of_findSome?_eq_some hw
      obtain ⟨t, -, heq⟩ := Option.map_eq_some_iff.1 hw
      cases heq
      exact hP.keyword e he
    · unfold Literal.number at h
      split at h
      · cases h
      · split at h
        · next hn =>
          cases h
          exact hP.number _ _ _ hn
        · cases h

theorem of_literal (hP : Inherits P) (depth : Nat) (s : List Char) (v : Json) (rest : List Char)
    (h : literal depth s = .found v rest) : P v := by
  induction depth generalizing s v rest with
  | zero => cases h
  | succ depth ih =>
    obtain ⟨u, r, hu, h⟩ := Outcome.andThen_eq_found h
    cases h
    exact of_core hP ih _ _ _ hu

/-- An inherited property holds of every value that a text spells. -/
theorem of_read (hP : Inherits P) {text : String} {v : Json} (h : read text = .ok v) : P v := by
  unfold read readChars at h
  split at h
  · cases h
  · split at h
    · next hv =>
      cases h
      exact of_literal hP _ _ _ _ hv
    · cases h
    · cases h
    · cases h

theorem inherits_sorted : Inherits Json.Sorted where
  keyword := by
    intro e he
    unfold keywords at he
    simp only [List.mem_cons, List.not_mem_nil, or_false] at he
    rcases he with rfl | rfl | rfl | rfl | rfl | rfl <;> trivial
  number token n v h := by
    unfold numberOf? at h
    split at h
    · simp only at h
      split at h <;> cases h
      trivial
    · simp only at h
      split at h <;> split at h <;> cases h <;> trivial
  str s := trivial
  arr vs h := Json.sortedItems_iff.2 h
  obj es h := ⟨Table.sorted_ofList es,
    Json.sortedEntries_iff.2 fun e he => h e (Table.mem_of_mem_ofList he)⟩

/-- Every mapping that a text spells is a table. -/
theorem sorted_of_read {text : String} {v : Json} (h : read text = .ok v) : v.Sorted :=
  of_read inherits_sorted h

end Literal

end GardenMap
