import GardenMap.Decimal.Binary

/-!
# The order of floating point numbers

Of two numbers, neither of them NaN, one is less than the other or the other is at most the one
(`lt_iff_not_le`). A finite number is not NaN (`isNaN_of_isFinite`).

Proof. Both comparisons read off one three-way comparison, which turns round when the numbers change
places. `split` and the unpacking of the bits look at the same eleven bits of exponent.
-/

namespace GardenMap.Decimal

open Float.Model

/-! ## The three-way comparison -/

theorem compare_swap (a b : UnpackedFloat) : b.compare a = (a.compare b).map Ordering.swap := by
  have hparts : ∀ (e f : Int) (m n : Nat), (compare f e).then (compare n m) =
      ((compare e f).then (compare m n)).swap := by
    intro e f m n
    rw [Ordering.swap_then, ← Std.OrientedCmp.eq_swap, ← Std.OrientedCmp.eq_swap]
  rcases a with ⟨_ | _⟩ | _ | ⟨_ | _⟩ | ⟨_ | _, m, e, hm⟩ <;>
    rcases b with ⟨_ | _⟩ | _ | ⟨_ | _⟩ | ⟨_ | _, n, f, hn⟩ <;>
      first
        | rfl
        | exact congrArg some (hparts e f m n)
        | exact congrArg some (congrArg Ordering.swap (hparts e f m n))

theorem ne_notANumber {a : UnpackedFloat} (h : a.isNaN = false) : a ≠ .notANumber := by
  rintro rfl
  cases h

theorem isSome_compare {a b : UnpackedFloat} (ha : a.isNaN = false) (hb : b.isNaN = false) :
    ∃ o, a.compare b = some o := by
  rcases a with ⟨_ | _⟩ | _ | ⟨_ | _⟩ | ⟨_ | _, m, e, hm⟩ <;>
    rcases b with ⟨_ | _⟩ | _ | ⟨_ | _⟩ | ⟨_ | _, n, f, hn⟩ <;>
      first
        | exact ⟨_, rfl⟩
        | exact absurd rfl (ne_notANumber ha)
        | exact absurd rfl (ne_notANumber hb)

/-- Numbers other than NaN are in a total order. -/
theorem lt_iff_not_le {x y : Float} (hx : x.isNaN = false) (hy : y.isNaN = false) :
    x < y ↔ ¬y ≤ x := by
  obtain ⟨o, ho⟩ := isSome_compare (a := x.toModel.unpack) (b := y.toModel.unpack) hx hy
  have hlt : x < y ↔ o = .lt := by
    show decide ((x.toModel.unpack.compare y.toModel.unpack == some .lt) = true) = true ↔ _
    rw [ho, decide_eq_true_iff]
    cases o <;> decide
  have hle : y ≤ x ↔ o ≠ .lt := by
    show decide (((y.toModel.unpack.compare x.toModel.unpack).any (·.isLE)) = true) = true ↔ _
    rw [compare_swap, ho, decide_eq_true_iff]
    cases o <;> decide
  rw [hlt, hle, ne_eq, Decidable.not_not]

/-! ## Finite numbers -/

theorem exponent_of_isNaN {x : Float} (h : x.isNaN = true) :
    x.toBits.toNat / Nat.pow 2 52 % Nat.pow 2 11 = 2047 := by
  have hunpack : (UnpackedFloat.unpack Format.binary64 x.toBits.toBitVec).isNaN = true := h
  by_cases hexponent : @UnpackedFloat.unpackExponent Format.binary64 x.toBits.toBitVec = -1#_
  · have hnat : x.toBits.toNat >>> 52 % 2 ^ 11 = 2047 := congrArg BitVec.toNat hexponent
    rwa [Nat.shiftRight_eq_div_pow] at hnat
  · -- Any other exponent makes a zero or a finite number.
    unfold UnpackedFloat.unpack at hunpack
    dsimp only at hunpack
    rw [if_neg hexponent] at hunpack
    by_cases hzero : @UnpackedFloat.unpackExponent Format.binary64 x.toBits.toBitVec = 0#_
    · rw [if_pos hzero] at hunpack
      by_cases hmantissa :
          @UnpackedFloat.unpackMantissa Format.binary64 x.toBits.toBitVec = 0#_
      · rw [dif_pos hmantissa] at hunpack
        cases hunpack
      · rw [dif_neg hmantissa] at hunpack
        cases hunpack
    · rw [if_neg hzero] at hunpack
      cases hunpack

theorem isNaN_of_isFinite {x : Float} (h : isFinite x = true) : x.isNaN = false := by
  refine Bool.eq_false_iff.2 fun hnan => ?_
  unfold isFinite split at h
  simp only [exponent_of_isNaN hnan, if_true] at h
  split at h
  · next hparts => split at hparts <;> cases hparts
  · cases h

end GardenMap.Decimal
