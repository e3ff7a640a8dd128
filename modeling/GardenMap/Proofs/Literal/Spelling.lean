import GardenMap.Literal.Reader
import GardenMap.Proofs.Time.Text

/-!
# Texts that literals spell

The text of a whole number is a literal of that number, and the texts of the truth values are
literals of them (`read_intText`, `read_boolText`).
-/

namespace GardenMap

namespace Decimal

open Calendar

theorem spanDigits_of_allDigits {ds : List Char} (hds : AllDigits ds) :
    spanDigits ds = (ds, []) := by
  have htake := Time.takeWhile_digits hds (show Time.Ends [] from fun _ h => by cases h)
  rw [List.append_nil] at htake
  have hdrop := List.takeWhile_append_dropWhile (p := Char.isDigit) (l := ds)
  rw [htake] at hdrop
  unfold spanDigits
  rw [htake, List.append_right_eq_self.1 hdrop]

def intChars (i : Int) : List Char :=
  if i < 0 then '-' :: digitsOf i.natAbs else digitsOf i.natAbs

theorem toList_intText (i : Int) : (intText i).toList = intChars i := by
  unfold intText intChars
  rw [String.toList_ofList]

theorem spanUnsigned?_digits (negative : Bool) {ds : List Char} (hds : AllDigits ds)
    (hne : ds ≠ []) : spanUnsigned? negative ds = some (⟨negative, value ds, 0⟩, []) := by
  unfold spanUnsigned?
  rw [spanDigits_of_allDigits hds]
  simp only [List.append_nil, List.isEmpty_nil, Bool.and_true, List.length_nil]
  rw [if_neg (by simp [hne])]
  rfl

theorem spanSign_digits {ds : List Char} (hds : AllDigits ds) : spanSign ds = (false, ds) := by
  unfold spanSign
  split
  · exact absurd (hds '-' (by simp)) (by decide)
  · exact absurd (hds '+' (by simp)) (by decide)
  · rfl

theorem spanNumeral?_intChars (i : Int) :
    spanNumeral? (intChars i) = some (⟨decide (i < 0), i.natAbs, 0⟩, []) := by
  have hds : AllDigits (digitsOf i.natAbs) := allDigits_toDigits _
  have hne : digitsOf i.natAbs ≠ [] := Nat.toDigits_ne_nil
  have hvalue : value (digitsOf i.natAbs) = i.natAbs := Nat.ofDigitChars_ten_toDigits
  unfold spanNumeral? intChars
  by_cases hneg : i < 0
  · rw [if_pos hneg]
    rw [show spanSign ('-' :: digitsOf i.natAbs) = (true, digitsOf i.natAbs) from rfl]
    simp only
    rw [spanUnsigned?_digits true hds hne, hvalue, decide_eq_true hneg]
  · rw [if_neg hneg, spanSign_digits hds]
    simp only
    rw [spanUnsigned?_digits false hds hne, hvalue, decide_eq_false hneg]

theorem intChars_eq_cons (i : Int) :
    ∃ c s, intChars i = c :: s ∧ (c = '-' ∨ c.isDigit = true) ∧ AllDigits s := by
  have hds : AllDigits (digitsOf i.natAbs) := allDigits_toDigits _
  unfold intChars
  split
  · exact ⟨'-', _, rfl, .inl rfl, hds⟩
  · obtain ⟨c, s, hcs⟩ := List.exists_cons_of_ne_nil (Nat.toDigits_ne_nil (n := i.natAbs) (b := 10))
    unfold digitsOf at hds ⊢
    rw [hcs] at hds ⊢
    exact ⟨c, s, rfl, .inr (hds c (by simp)), fun d hd => hds d (by simp [hd])⟩

end Decimal

namespace Literal

open Decimal Calendar

theorem ne_of_isDigit {c d : Char} (hc : c.isDigit = true) (hd : d.isDigit = false) : c ≠ d := by
  rintro rfl
  rw [hc] at hd
  cases hd

/-- The first character of a whole number. -/
def StartsNumber (c : Char) : Prop := c = '-' ∨ c.isDigit = true

theorem StartsNumber.ne {c d : Char} (h : StartsNumber c) (hminus : d ≠ '-')
    (hd : d.isDigit = false) : c ≠ d := by
  rcases h with rfl | h
  · exact fun heq => hminus heq.symm
  · exact ne_of_isDigit h hd

theorem keyword?_eq_none {c : Char} (h : StartsNumber c) (s : List Char) :
    keyword? (c :: s) = none := by
  have hword : ∀ w ∈ keywords, word? w.1.toList (c :: s) = none := by
    intro w hw
    have hfirst : ∃ d t, w.1.toList = d :: t ∧ d ≠ '-' ∧ d.isDigit = false := by
      simp only [keywords, List.mem_cons, List.not_mem_nil, or_false] at hw
      rcases hw with rfl | rfl | rfl | rfl | rfl | rfl
      all_goals exact ⟨_, _, rfl, by decide, by decide⟩
    obtain ⟨d, t, hdt, hminus, hd⟩ := hfirst
    have hne : (d == c) = false := beq_eq_false_iff_ne.2 fun heq => h.ne hminus hd heq.symm
    unfold word?
    rw [hdt, List.isPrefixOf, hne]
    rfl
  unfold keyword?
  rw [List.findSome?_eq_none_iff]
  intro w hw
  show (word? w.1.toList (c :: s)).map _ = none
  rw [hword w hw]
  rfl

theorem skipGap_of_startsNumber {c : Char} (h : StartsNumber c) (s : List Char) :
    skipGap (c :: s) = c :: s := by
  have hgap : isGap c = false := by
    unfold isGap
    simp only [Bool.or_eq_false_iff, decide_eq_false_iff_not]
    refine ⟨⟨⟨?_, ?_⟩, ?_⟩, ?_⟩ <;> exact h.ne (by decide) (by decide)
  rw [skipGap, List.dropWhile_cons_of_neg (by simp [hgap])]

theorem core_of_startsNumber (item : List Char → Outcome Json) {c : Char} (h : StartsNumber c)
    (s : List Char) : core item (c :: s) = number (c :: s) := by
  have hne : ∀ d, d ≠ '-' → d.isDigit = false → c ≠ d := fun d => h.ne
  unfold core
  split
  · next heq => exact absurd (List.cons.inj heq).1 (hne _ (by decide) (by decide))
  · next heq => exact absurd (List.cons.inj heq).1 (hne _ (by decide) (by decide))
  · next heq => exact absurd (List.cons.inj heq).1 (hne _ (by decide) (by decide))
  · next heq => exact absurd (List.cons.inj heq).1 (hne _ (by decide) (by decide))
  · next heq => exact absurd (List.cons.inj heq).1 (hne _ (by decide) (by decide))
  · rw [keyword?_eq_none h]

theorem number_intChars {i : Int} (hi : fitsWord i = true) :
    number (intChars i) = .found (.int i) [] := by
  obtain ⟨c, s, hcs, hc, hs⟩ := intChars_eq_cons i
  have hplain : (intChars i).any (fun c => c = '.' || c = 'e' || c = 'E') = false := by
    rw [List.any_eq_false]
    intro d hd
    have hd : StartsNumber d := by
      rw [hcs] at hd
      rcases List.mem_cons.1 hd with rfl | hd
      · exact hc
      · exact .inr (hs d hd)
    simp only [Bool.or_eq_true, decide_eq_true_eq, not_or]
    refine ⟨⟨?_, ?_⟩, ?_⟩ <;> exact hd.ne (by decide) (by decide)
  have habs : (if decide (i < 0) = true then -(i.natAbs : Int) else i.natAbs) = i := by
    split <;> simp only [decide_eq_true_eq] at * <;> omega
  unfold number
  rw [spanNumeral?_intChars]
  simp only [List.length_nil, Nat.sub_zero, List.take_length]
  unfold numberOf?
  rw [hplain]
  simp only [Bool.false_eq_true, if_false, habs, hi, if_true]

/-- The text of a whole number of 64 bits is a literal of it. -/
theorem read_intText {i : Int} (hi : fitsWord i = true) : read (intText i) = .ok (.int i) := by
  obtain ⟨c, s, hcs, hc, -⟩ := intChars_eq_cons i
  have hblank : Text.isBlank c = false := by
    rcases hc with rfl | hc
    · decide
    · exact Text.isBlank_of_isDigit hc
  unfold read readChars
  rw [toList_intText]
  have hall : (intChars i).all Text.isBlank = false := by
    rw [hcs, List.all_cons, hblank]
    rfl
  have hliteral : literal ((intChars i).length + 1) (intChars i) = .found (.int i) [] := by
    rw [literal, hcs, skipGap_of_startsNumber hc, core_of_startsNumber _ hc, ← hcs,
      number_intChars hi]
    rfl
  rw [hall, hliteral]
  rfl

theorem read_boolText (b : Bool) : read (Json.boolText b) = .ok (.bool b) := by
  cases b <;> rfl

end Literal

end GardenMap
