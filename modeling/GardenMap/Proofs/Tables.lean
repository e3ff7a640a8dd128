import GardenMap.Table

/-!
# Sorted tables are finite maps

`put` and `erase` keep the order of a table, and two sorted tables with the same look-ups are the
same list (`eq_of_get?`). So a sorted table is known by what it answers: a table built from a list
has the last entry at each key, and putting back what is there changes nothing.
-/

universe u v

namespace GardenMap.Table

variable {κ : Type u} {α : Type v} [Ord κ]

/-! ## Order -/

@[simp] theorem get?_nil (k : κ) : get? ([] : Table κ α) k = none := rfl

@[simp] theorem sorted_nil : Sorted ([] : Table κ α) := List.Pairwise.nil

theorem sorted_cons {e : κ × α} {t : Table κ α} :
    Sorted (e :: t) ↔ (∀ f ∈ t, compare e.1 f.1 = .lt) ∧ Sorted t := by
  simp [Sorted, keys, List.pairwise_cons]

theorem mem_of_mem_put {t : Table κ α} {k : κ} {v : α} {e : κ × α} (h : e ∈ put t k v) :
    e = (k, v) ∨ e ∈ t := by
  induction t with
  | nil => simpa [put] using h
  | cons f t ih =>
    obtain ⟨l, w⟩ := f
    rw [put] at h
    split at h
    · exact List.mem_cons.1 h
    · exact (List.mem_cons.1 h).imp id (List.mem_cons_of_mem _)
    · rcases List.mem_cons.1 h with rfl | h
      · exact .inr List.mem_cons_self
      · exact (ih h).imp id (List.mem_cons_of_mem _)

theorem put_put [Std.ReflOrd κ] (t : Table κ α) (k : κ) (v w : α) :
    put (put t k v) k w = put t k w := by
  induction t with
  | nil => simp [put]
  | cons e t ih =>
    obtain ⟨l, x⟩ := e
    cases h : compare k l <;> simp [put, h, ih]

theorem mem_of_mem_putAll {t : Table κ α} {es : List (κ × α)} {e : κ × α} (h : e ∈ putAll t es) :
    e ∈ t ∨ e ∈ es := by
  induction es generalizing t with
  | nil => exact .inl h
  | cons f es ih =>
    rcases ih h with h | h
    · rcases mem_of_mem_put h with rfl | h
      · exact .inr (by simp)
      · exact .inl h
    · exact .inr (by simp [h])

theorem mem_put_of_ne [Std.LawfulEqOrd κ] {t : Table κ α} {e : κ × α} (h : e ∈ t) {k : κ}
    (hk : k ≠ e.1) (v : α) : e ∈ put t k v := by
  induction t with
  | nil => cases h
  | cons f t ih =>
    obtain ⟨l, w⟩ := f
    rw [put]
    split
    · exact List.mem_cons_of_mem _ h
    · next heq =>
      rcases List.mem_cons.1 h with rfl | h
      · exact absurd (Std.compare_eq_iff_eq.1 heq) hk
      · exact List.mem_cons_of_mem _ h
    · rcases List.mem_cons.1 h with rfl | h
      · exact List.mem_cons_self
      · exact List.mem_cons_of_mem _ (ih h)

theorem mem_put_self (t : Table κ α) (k : κ) (v : α) : (k, v) ∈ put t k v := by
  induction t with
  | nil => exact List.mem_cons_self
  | cons f t ih =>
    obtain ⟨l, w⟩ := f
    rw [put]
    split
    · exact List.mem_cons_self
    · exact List.mem_cons_self
    · exact List.mem_cons_of_mem _ ih

theorem mem_putAll [Std.LawfulEqOrd κ] [DecidableEq κ] {t : Table κ α} {es : List (κ × α)}
    {e : κ × α} (h : e ∈ t ∨ e ∈ es) (hes : ∀ f ∈ es, f.1 = e.1 → f = e) : e ∈ putAll t es := by
  induction es generalizing t with
  | nil => exact h.resolve_right List.not_mem_nil
  | cons f es ih =>
    refine ih ?_ fun g hg => hes g (List.mem_cons_of_mem _ hg)
    by_cases hf : f.1 = e.1
    · rw [hes f List.mem_cons_self hf]
      exact .inl (mem_put_self t e.1 e.2)
    · refine (h.imp (mem_put_of_ne · hf f.2) fun h => ?_)
      exact (List.mem_cons.1 h).resolve_left fun heq => hf (congrArg Prod.fst heq).symm

theorem mem_of_mem_ofList {es : List (κ × α)} {e : κ × α} (h : e ∈ ofList es) : e ∈ es := by
  rcases mem_of_mem_putAll h with h | h
  · cases h
  · exact h

theorem mem_of_mem_erase {t : Table κ α} {k : κ} {e : κ × α} (h : e ∈ erase t k) : e ∈ t := by
  induction t with
  | nil => exact h
  | cons f t ih =>
    obtain ⟨l, w⟩ := f
    rw [erase] at h
    split at h
    · exact List.mem_cons_of_mem _ h
    · rcases List.mem_cons.1 h with rfl | h
      · exact List.mem_cons_self
      · exact List.mem_cons_of_mem _ (ih h)

theorem sorted_filter {t : Table κ α} (ht : Sorted t) (p : κ × α → Bool) :
    Sorted (t.filter p) :=
  List.Pairwise.sublist (List.filter_sublist.map _) ht

theorem sorted_map {β : Type v} {t : Table κ α} (ht : Sorted t) (f : α → β) :
    Sorted (t.map fun e => (e.1, f e.2)) := by
  simpa [Sorted, keys, List.map_map, Function.comp_def] using ht

theorem sorted_erase {t : Table κ α} (ht : Sorted t) (k : κ) : Sorted (erase t k) := by
  induction t with
  | nil => exact ht
  | cons e t ih =>
    obtain ⟨l, w⟩ := e
    obtain ⟨hlt, ht⟩ := sorted_cons.1 ht
    rw [erase]
    split
    · exact ht
    · exact sorted_cons.2 ⟨fun f hf => hlt f (mem_of_mem_erase hf), ih ht⟩

theorem ne_of_sorted_cons [Std.ReflOrd κ] {e f : κ × α} {t : Table κ α} (h : Sorted (e :: t))
    (hf : f ∈ t) : f.1 ≠ e.1 := by
  intro he
  have hlt := (sorted_cons.1 h).1 f hf
  rw [he, Std.ReflOrd.compare_self] at hlt
  cases hlt

section Trans

variable [Std.LawfulEqOrd κ] [Std.TransOrd κ]

theorem sorted_put {t : Table κ α} (ht : Sorted t) (k : κ) (v : α) : Sorted (put t k v) := by
  induction t with
  | nil => exact sorted_cons.2 ⟨fun _ h => absurd h List.not_mem_nil, sorted_nil⟩
  | cons e t ih =>
    obtain ⟨l, w⟩ := e
    obtain ⟨hlt, hrest⟩ := sorted_cons.1 ht
    rw [put]
    split
    · next h =>
      refine sorted_cons.2 ⟨fun f hf => ?_, ht⟩
      rcases List.mem_cons.1 hf with rfl | hf
      · exact h
      · exact Std.TransCmp.lt_trans h (hlt f hf)
    · next h =>
      have hk : k = l := Std.compare_eq_iff_eq.1 h
      subst hk
      exact sorted_cons.2 ⟨hlt, hrest⟩
    · next h =>
      refine sorted_cons.2 ⟨fun f hf => ?_, ih hrest⟩
      rcases mem_of_mem_put hf with hf | hf
      · exact hf ▸ Std.OrientedCmp.gt_iff_lt.1 h
      · exact hlt f hf

theorem sorted_putAll {t : Table κ α} (ht : Sorted t) (es : List (κ × α)) :
    Sorted (putAll t es) := by
  induction es generalizing t with
  | nil => exact ht
  | cons e es ih => exact ih (sorted_put ht e.1 e.2)

theorem sorted_ofList (es : List (κ × α)) : Sorted (ofList es) := sorted_putAll sorted_nil es

end Trans

section LookUps

variable [Std.LawfulEqOrd κ] [DecidableEq κ]

/-! ## Look-ups -/

theorem mem_of_get? {t : Table κ α} {k : κ} {v : α} (h : get? t k = some v) : (k, v) ∈ t := by
  induction t with
  | nil => cases h
  | cons e t ih =>
    obtain ⟨l, w⟩ := e
    rw [get?_cons] at h
    split at h
    · next hk =>
      cases h
      subst hk
      exact List.mem_cons_self
    · exact List.mem_cons_of_mem _ (ih h)

theorem get?_eq_none_iff {t : Table κ α} {k : κ} : get? t k = none ↔ ∀ e ∈ t, e.1 ≠ k := by
  induction t with
  | nil => simp
  | cons e t ih =>
    obtain ⟨l, w⟩ := e
    rw [get?_cons]
    by_cases h : k = l
    · simp [h]
    · simp [h, ih, Ne.symm h]

theorem get?_append (t u : Table κ α) (k : κ) : get? (t ++ u) k = (get? t k).or (get? u k) := by
  induction t with
  | nil => simp
  | cons e t ih =>
    obtain ⟨l, w⟩ := e
    rw [List.cons_append, get?_cons, get?_cons]
    by_cases h : k = l <;> simp [h, ih]

theorem get?_map {β : Type v} (f : α → β) (t : Table κ α) (k : κ) :
    get? (t.map fun e => (e.1, f e.2)) k = (get? t k).map f := by
  induction t with
  | nil => rfl
  | cons e t ih =>
    obtain ⟨l, w⟩ := e
    rw [List.map_cons, get?_cons, get?_cons]
    by_cases h : k = l <;> simp [h, ih]

theorem get?_putAll (t : Table κ α) (es : List (κ × α)) (k : κ) :
    get? (putAll t es) k = (get? es.reverse k).or (get? t k) := by
  induction es generalizing t with
  | nil => simp [putAll]
  | cons e es ih =>
    obtain ⟨l, w⟩ := e
    have hstep : putAll t ((l, w) :: es) = putAll (put t l w) es := rfl
    rw [hstep, ih, List.reverse_cons, get?_append, get?_cons, get?_nil, get?_put]
    by_cases h : k = l <;> cases get? es.reverse k <;> simp [h]

theorem get?_ofList (es : List (κ × α)) (k : κ) : get? (ofList es) k = get? es.reverse k := by
  simp [ofList, get?_putAll]

theorem get?_filter_key (p : κ → Bool) (t : Table κ α) (k : κ) :
    get? (t.filter fun e => p e.1) k = if p k then get? t k else none := by
  induction t with
  | nil => simp
  | cons e t ih =>
    obtain ⟨l, w⟩ := e
    rw [List.filter_cons]
    by_cases hl : p l = true
    · rw [if_pos hl, get?_cons, get?_cons, ih]
      by_cases h : k = l <;> simp [h, hl]
    · rw [if_neg hl, ih, get?_cons]
      by_cases h : k = l
      · simp [h, hl]
      · simp [h]

theorem has_iff {t : Table κ α} {k : κ} : has t k = true ↔ ∃ e ∈ t, e.1 = k := by
  unfold has
  rw [Option.isSome_iff_ne_none, Ne, get?_eq_none_iff]
  simp

theorem has_of_has_erase {t : Table κ α} {k l : κ} (h : has (erase t k) l = true) :
    has t l = true := by
  obtain ⟨e, he, hl⟩ := has_iff.1 h
  exact has_iff.2 ⟨e, mem_of_mem_erase he, hl⟩

theorem get?_of_unique {t : Table κ α} {e : κ × α} (h : e ∈ t)
    (hunique : ∀ f ∈ t, f.1 = e.1 → f = e) : get? t e.1 = some e.2 := by
  cases hget : get? t e.1 with
  | none => exact absurd rfl (get?_eq_none_iff.1 hget e h)
  | some v => rw [← hunique (e.1, v) (mem_of_get? hget) rfl]

/-! ## Look-ups in sorted tables -/

omit [DecidableEq κ] in
theorem nodup_keys {t : Table κ α} (ht : Sorted t) : (keys t).Nodup := by
  refine List.Pairwise.imp (fun {a b} hlt => ?_) ht
  rintro rfl
  rw [Std.ReflOrd.compare_self] at hlt
  cases hlt

theorem keys_perm {t : Table κ α} (ht : Sorted t) {ks : List κ} (hks : ks.Nodup)
    (h : ∀ k, has t k = true ↔ k ∈ ks) : (keys t).Perm ks := by
  rw [List.perm_ext_iff_of_nodup (nodup_keys ht) hks]
  intro k
  rw [← h k, has_iff, keys, List.mem_map]

theorem get?_of_mem {t : Table κ α} (ht : Sorted t) {k : κ} {v : α} (h : (k, v) ∈ t) :
    get? t k = some v := by
  induction t with
  | nil => cases h
  | cons e t ih =>
    obtain ⟨l, w⟩ := e
    rw [get?_cons]
    rcases List.mem_cons.1 h with h | h
    · cases h
      exact if_pos rfl
    · rw [if_neg (ne_of_sorted_cons ht h)]
      exact ih (sorted_cons.1 ht).2 h

theorem get?_erase {t : Table κ α} (ht : Sorted t) (k l : κ) :
    get? (erase t k) l = if l = k then none else get? t l := by
  induction t with
  | nil => simp [erase]
  | cons e t ih =>
    obtain ⟨m, v⟩ := e
    rw [erase, get?_cons]
    by_cases hm : k = m
    · subst hm
      rw [if_pos Std.ReflOrd.compare_self]
      by_cases hl : l = k
      · rw [if_pos hl, hl]
        exact get?_eq_none_iff.2 fun f hf => ne_of_sorted_cons ht hf
      · rw [if_neg hl, if_neg hl]
    · rw [if_neg fun h => hm (Std.compare_eq_iff_eq.1 h), get?_cons, ih (sorted_cons.1 ht).2]
      by_cases hl : l = m
      · rw [if_pos hl, if_neg fun h => hm (h.symm.trans hl), if_pos hl]
      · rw [if_neg hl, if_neg hl]

theorem mem_iff_get? {t : Table κ α} (ht : Sorted t) {k : κ} {v : α} :
    (k, v) ∈ t ↔ get? t k = some v :=
  ⟨get?_of_mem ht, mem_of_get?⟩

end LookUps

/-! ## Extensionality -/

section Extensionality

variable [Std.LawfulEqOrd κ] [Std.TransOrd κ] [DecidableEq κ]

/-- Sorted tables with the same look-ups are the same list. -/
theorem eq_of_get? {t u : Table κ α} (ht : Sorted t) (hu : Sorted u)
    (h : ∀ k, get? t k = get? u k) : t = u := by
  have hmem : ∀ e, e ∈ t ↔ e ∈ u := fun ⟨k, v⟩ => by
    rw [mem_iff_get? ht, mem_iff_get? hu, h k]
  induction t generalizing u with
  | nil =>
    cases u with
    | nil => rfl
    | cons f u => exact absurd ((hmem f).2 List.mem_cons_self) List.not_mem_nil
  | cons e t ih =>
    cases u with
    | nil => exact absurd ((hmem e).1 List.mem_cons_self) List.not_mem_nil
    | cons f u =>
      -- neither head comes after the other, so they are the same entry
      have hef : e = f := by
        rcases List.mem_cons.1 ((hmem e).1 List.mem_cons_self) with he | he
        · exact he
        rcases List.mem_cons.1 ((hmem f).2 List.mem_cons_self) with hf | hf
        · exact hf.symm
        have h1 := (sorted_cons.1 hu).1 e he
        have h2 := (sorted_cons.1 ht).1 f hf
        rw [Std.OrientedCmp.gt_of_lt h1] at h2
        cases h2
      subst hef
      have htail : ∀ g, g ∈ t ↔ g ∈ u := fun g => by
        constructor
        · intro hg
          rcases List.mem_cons.1 ((hmem g).1 (List.mem_cons_of_mem _ hg)) with rfl | hg'
          · exact absurd rfl (ne_of_sorted_cons ht hg)
          · exact hg'
        · intro hg
          rcases List.mem_cons.1 ((hmem g).2 (List.mem_cons_of_mem _ hg)) with rfl | hg'
          · exact absurd rfl (ne_of_sorted_cons hu hg)
          · exact hg'
      have ht' := (sorted_cons.1 ht).2
      have hu' := (sorted_cons.1 hu).2
      rw [ih ht' hu' (fun k => ?_) htail]
      refine Option.ext fun v => ?_
      rw [← mem_iff_get? ht', ← mem_iff_get? hu', htail]

theorem put_eq_self {t : Table κ α} (ht : Sorted t) {k : κ} {v : α} (h : get? t k = some v) :
    put t k v = t := by
  refine eq_of_get? (sorted_put ht k v) ht fun l => ?_
  rw [get?_put]
  split
  · next hl => rw [hl, h]
  · rfl

theorem eq_of_mem_iff {t u : Table κ α} (ht : Sorted t) (hu : Sorted u)
    (h : ∀ e, e ∈ t ↔ e ∈ u) : t = u := by
  refine eq_of_get? ht hu fun k => Option.ext fun v => ?_
  rw [← mem_iff_get? ht, ← mem_iff_get? hu, h]

theorem ofList_of_mem_iff {l : List (κ × α)} {t : Table κ α} (ht : Sorted t)
    (h : ∀ e, e ∈ l ↔ e ∈ t) : ofList l = t := by
  refine eq_of_get? (sorted_ofList l) ht fun k => ?_
  rw [get?_ofList]
  refine Option.ext fun v => ?_
  constructor
  · exact fun hv => get?_of_mem ht ((h _).1 (List.mem_reverse.1 (mem_of_get? hv)))
  · intro hv
    have hmem := List.mem_reverse.2 ((h _).2 (mem_of_get? hv))
    cases hr : get? l.reverse k with
    | none => exact absurd rfl (get?_eq_none_iff.1 hr _ hmem)
    | some w =>
      have hw := get?_of_mem ht ((h _).1 (List.mem_reverse.1 (mem_of_get? hr)))
      rw [hv] at hw
      rw [hw]

omit [Std.TransOrd κ] in
theorem exists_mem_ofList {l : List (κ × α)} {e : κ × α} (h : e ∈ l) :
    ∃ v, (e.1, v) ∈ ofList l := by
  cases hget : get? (ofList l) e.1 with
  | some v => exact ⟨v, mem_of_get? hget⟩
  | none =>
    rw [get?_ofList] at hget
    exact absurd rfl (get?_eq_none_iff.1 hget e (List.mem_reverse.2 h))

theorem ofList_eq_self {t : Table κ α} (ht : Sorted t) : ofList t = t :=
  ofList_of_mem_iff ht fun _ => Iff.rfl

/-- A table is gone once another one with all of its keys has been put over it. -/
theorem putAll_eq_of_has {t u : Table κ α} (ht : Sorted t) (hu : Sorted u)
    (h : ∀ k, has t k = true → has u k = true) : putAll t u = u := by
  refine eq_of_get? (sorted_putAll ht u) hu fun k => ?_
  rw [get?_putAll, ← get?_ofList, ofList_eq_self hu]
  cases hk : get? u k with
  | some v => rfl
  | none =>
    have hno : has t k ≠ true := fun hhas => by
      have huk := h k hhas
      rw [has, hk] at huk
      cases huk
    rw [Option.none_or]
    exact Option.not_isSome_iff_eq_none.1 hno

end Extensionality

end GardenMap.Table
