/-!
# Tables

A table is an association list in strictly increasing key order, one entry a key. Writers keep
the order, so two tables with the same entries are the same list.
-/

universe u v

namespace GardenMap

/-- Entries in strictly increasing key order. -/
abbrev Table (κ : Type u) (α : Type v) : Type (max u v) := List (κ × α)

namespace Table

variable {κ : Type u} {α : Type v} [Ord κ]

def get? : Table κ α → κ → Option α
  | [], _ => none
  | (l, v) :: t, k => if compare k l = .eq then some v else get? t k

def has (t : Table κ α) (k : κ) : Bool := (get? t k).isSome

/-- Put a value at a key, replacing the one that was there. -/
def put : Table κ α → κ → α → Table κ α
  | [], k, v => [(k, v)]
  | (l, w) :: t, k, v =>
    match compare k l with
    | .lt => (k, v) :: (l, w) :: t
    | .eq => (k, v) :: t
    | .gt => (l, w) :: put t k v

def erase : Table κ α → κ → Table κ α
  | [], _ => []
  | (l, w) :: t, k => if compare k l = .eq then t else (l, w) :: erase t k

/-- Put every entry of a list, in order: the last one at a key stays. -/
def putAll (t : Table κ α) (entries : List (κ × α)) : Table κ α :=
  entries.foldl (fun t e => put t e.1 e.2) t

/-- The table of a list of entries. The last one at a key stays. -/
def ofList (entries : List (κ × α)) : Table κ α := putAll [] entries

def keys (t : Table κ α) : List κ := t.map (·.1)

section Lawful

variable [Std.LawfulEqOrd κ] [DecidableEq κ]

theorem get?_cons (k l : κ) (v : α) (t : Table κ α) :
    get? ((k, v) :: t) l = if l = k then some v else get? t l := by
  simp only [get?, Std.compare_eq_iff_eq]

theorem get?_put (t : Table κ α) (k l : κ) (v : α) :
    get? (put t k v) l = if l = k then some v else get? t l := by
  induction t with
  | nil => simp only [put, get?_cons]
  | cons e t ih =>
    obtain ⟨m, w⟩ := e
    simp only [put]
    split
    · simp only [get?_cons]
    · next h =>
      have hk : k = m := Std.compare_eq_iff_eq.1 h
      subst hk
      by_cases hl : l = k <;> simp only [get?_cons, hl, if_true, if_false]
    · next h =>
      have hk : k ≠ m := fun hk => by
        rw [Std.compare_eq_iff_eq.2 hk] at h
        cases h
      simp only [get?_cons, ih]
      by_cases hl : l = m
      · subst hl
        simp only [if_true, hk.symm, if_false]
      · simp only [hl, if_false]

theorem has_put (t : Table κ α) (k l : κ) (v : α) :
    has (put t k v) l = (decide (l = k) || has t l) := by
  by_cases h : l = k <;> simp [has, get?_put, h]

end Lawful

/-- The order every table keeps. -/
def Sorted (t : Table κ α) : Prop := (keys t).Pairwise (fun a b => compare a b = .lt)

end Table

end GardenMap
