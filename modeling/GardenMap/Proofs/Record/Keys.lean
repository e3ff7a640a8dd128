import GardenMap.Record.Value

/-!
# The order of keys

Dates, instants and keys of mappings are in linear orders whose equality is equality of terms, so
tables over them have the laws of tables.
-/

namespace GardenMap

instance : Std.TransOrd Date := inferInstanceAs (Std.TransCmp (compareOn Date.day))

instance : Std.LawfulEqOrd Date where
  compare_self {a} := Std.ReflOrd.compare_self (a := a.day)
  eq_of_compare {a b} h := by
    obtain ⟨day, ha⟩ := a
    obtain ⟨day', hb⟩ := b
    obtain rfl : day = day' := Std.compare_eq_iff_eq.1 h
    rfl

instance : Std.TransOrd Instant :=
  inferInstanceAs (Std.TransCmp (compareLex (compareOn Instant.second) (compareOn Instant.nano)))

instance : Std.LawfulEqOrd Instant where
  compare_self {a} := by
    show (compare a.second a.second).then (compare a.nano a.nano) = .eq
    rw [Std.ReflOrd.compare_self, Std.ReflOrd.compare_self]
    rfl
  eq_of_compare {a b} h := by
    obtain ⟨second, nano, ha⟩ := a
    obtain ⟨second', nano', hb⟩ := b
    change (compare second second').then (compare nano nano') = .eq at h
    rw [Ordering.then_eq_eq, Std.compare_eq_iff_eq, Std.compare_eq_iff_eq] at h
    obtain ⟨rfl, rfl⟩ := h
    rfl

namespace MapKey

theorem compare_of_rank_ne {a b : MapKey} (h : a.rank ≠ b.rank) :
    compare a b = compare a.rank b.rank := by
  cases a <;> cases b <;> first | rfl | exact absurd rfl h

theorem eq_swap (a b : MapKey) : compare a b = (compare b a).swap := by
  cases a with
  | bool a =>
    cases b with
    | bool b => exact Std.OrientedOrd.eq_swap (α := Bool)
    | _ => rfl
  | int a =>
    cases b with
    | int b => exact Std.OrientedOrd.eq_swap (α := Int)
    | _ => rfl
  | str a =>
    cases b with
    | str b => exact Std.OrientedOrd.eq_swap (α := String)
    | _ => rfl
  | date a =>
    cases b with
    | date b => exact Std.OrientedOrd.eq_swap (α := Date)
    | _ => rfl
  | datetime a =>
    cases b with
    | datetime b => exact Std.OrientedOrd.eq_swap (α := Instant)
    | _ => rfl

theorem rank_le_of_isLE {a b : MapKey} (h : (compare a b).isLE) : a.rank ≤ b.rank := by
  by_cases hr : a.rank = b.rank
  · exact Nat.le_of_eq hr
  · rw [compare_of_rank_ne hr] at h
    exact Nat.isLE_compare.1 h

theorem isLE_trans {a b c : MapKey} (hab : (compare a b).isLE) (hbc : (compare b c).isLE) :
    (compare a c).isLE := by
  have hab' := rank_le_of_isLE hab
  have hbc' := rank_le_of_isLE hbc
  by_cases hac : a.rank = c.rank
  · -- the ranks are between each other, so all three keys are of one kind
    have hb : b.rank = a.rank := by omega
    cases a with
    | bool a =>
      cases b with
      | bool b =>
        cases c with
        | bool c => exact Std.TransOrd.isLE_trans (α := Bool) hab hbc
        | _ => cases hac
      | _ => cases hb
    | int a =>
      cases b with
      | int b =>
        cases c with
        | int c => exact Std.TransOrd.isLE_trans (α := Int) hab hbc
        | _ => cases hac
      | _ => cases hb
    | str a =>
      cases b with
      | str b =>
        cases c with
        | str c => exact Std.TransOrd.isLE_trans (α := String) hab hbc
        | _ => cases hac
      | _ => cases hb
    | date a =>
      cases b with
      | date b =>
        cases c with
        | date c => exact Std.TransOrd.isLE_trans (α := Date) hab hbc
        | _ => cases hac
      | _ => cases hb
    | datetime a =>
      cases b with
      | datetime b =>
        cases c with
        | datetime c => exact Std.TransOrd.isLE_trans (α := Instant) hab hbc
        | _ => cases hac
      | _ => cases hb
  · rw [compare_of_rank_ne hac]
    exact Nat.isLE_compare.2 (by omega)

theorem compare_self (a : MapKey) : compare a a = .eq := by
  cases a with
  | bool a => exact Std.ReflOrd.compare_self (α := Bool)
  | int a => exact Std.ReflOrd.compare_self (α := Int)
  | str a => exact Std.ReflOrd.compare_self (α := String)
  | date a => exact Std.ReflOrd.compare_self (α := Date)
  | datetime a => exact Std.ReflOrd.compare_self (α := Instant)

theorem eq_of_compare {a b : MapKey} (h : compare a b = .eq) : a = b := by
  cases a with
  | bool a =>
    cases b with
    | bool b => exact congrArg bool (Std.LawfulEqOrd.eq_of_compare (α := Bool) h)
    | _ => cases h
  | int a =>
    cases b with
    | int b => exact congrArg int (Std.LawfulEqOrd.eq_of_compare (α := Int) h)
    | _ => cases h
  | str a =>
    cases b with
    | str b => exact congrArg str (Std.LawfulEqOrd.eq_of_compare (α := String) h)
    | _ => cases h
  | date a =>
    cases b with
    | date b => exact congrArg date (Std.LawfulEqOrd.eq_of_compare (α := Date) h)
    | _ => cases h
  | datetime a =>
    cases b with
    | datetime b => exact congrArg datetime (Std.LawfulEqOrd.eq_of_compare (α := Instant) h)
    | _ => cases h

instance : Std.TransOrd MapKey where
  eq_swap {a b} := eq_swap a b
  isLE_trans := isLE_trans

instance : Std.LawfulEqOrd MapKey where
  compare_self {a} := compare_self a
  eq_of_compare := eq_of_compare

end MapKey

end GardenMap
