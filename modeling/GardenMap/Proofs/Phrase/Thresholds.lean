import GardenMap.Phrase.DateExpr
import GardenMap.Phrase.Threshold
import GardenMap.Proofs.Text.Words

/-!
# Thresholds are no date expressions

A threshold starts with the word `at`, which is neither a qualifier nor the start of an offset, so a
text that is a threshold is no date expression (`readDateExpr_of_threshold`). Its number is finite.
-/

namespace GardenMap.Phrase

open Text Decimal

theorem of_readThreshold {s : List Char} {bound : Threshold}
    (h : readThreshold s = .ok (some bound)) :
    (∃ a b n, words s = [a, b, n] ∧ spells "at" a = true) ∧ isFinite bound.value = true := by
  unfold readThreshold at h
  split at h
  · next a b n hwords =>
    split at h
    · next hform =>
      simp only [Bool.and_eq_true] at hform
      split at h
      · next x hx =>
        cases h
        exact ⟨⟨a, b, n, hwords, hform.1.1⟩, (Option.filter_eq_some_iff.1 hx).2⟩
      · cases h
    · cases h
  · cases h

theorem spells_eq_false {keyword other : String} {w : List Char} (h : spells keyword w = true)
    (hne : other.toList ≠ keyword.toList) : spells other w = false := by
  refine Bool.eq_false_iff.2 fun hother => hne ?_
  rw [← spells_iff.1 hother, spells_iff.1 h]

theorem isCount_at {w : List Char} (h : spells "at" w = true) : isCount w = false := by
  refine Bool.eq_false_iff.2 fun hcount => ?_
  cases w with
  | nil => cases hcount
  | cons c w =>
    simp only [isCount, List.isEmpty_cons, Bool.not_false, Bool.true_and, List.all_cons,
      Bool.and_eq_true] at hcount
    rw [spells_digit hcount.1] at h
    · cases h
    · rintro ha
      cases ha
      exact absurd hcount.1 (by decide)

theorem readDateExpr_of_threshold {s : List Char} {bound : Threshold}
    (h : readThreshold s = .ok (some bound)) : readDateExpr s = .ok none := by
  obtain ⟨⟨a, b, n, hwords, hat⟩, -⟩ := of_readThreshold h
  have htrim : words (trim s) = [a, b, n] := (words_trim s).trans hwords
  have hqualifier : qualifier? a = none := by
    rw [qualifier?, spells_eq_false hat (by decide), spells_eq_false hat (by decide)]
    rfl
  have hsplit : splitQualifier (trim s) = (none, trim s) := by
    unfold splitQualifier
    simp only [htrim, hqualifier]
  have hform : MomentForm.ofWords? [a, b, n] = none := by
    rw [MomentForm.ofWords?, spells_eq_false hat (by decide), isCount_at hat]
    rfl
  unfold readDateExpr
  simp only [hsplit, htrim, hform]

end GardenMap.Phrase
