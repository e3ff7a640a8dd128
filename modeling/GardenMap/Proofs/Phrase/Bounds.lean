import GardenMap.Proofs.Phrase.Thresholds
import GardenMap.Proofs.Text.Folding

/-!
# The side of a threshold

The keyword of a threshold is recognised with case folding, and it is `least` or `most` but for
case. Its side is read off in ASCII lower case: a keyword is at least only when it is `least`
without a long s in it (`bound_eq_atLeast_iff`). With a long s it is read as at most, though it
is recognised as `least` (`bound_of_long_s`).
-/

namespace GardenMap.Phrase

open Text Decimal

theorem words_of_readThreshold {s : List Char} {bound : Threshold}
    (h : readThreshold s = .ok (some bound)) :
    ∃ a b n, words s = [a, b, n] ∧ spells "at" a = true ∧
      (spells "least" b = true ∨ spells "most" b = true) ∧ readFloat n = some bound.value ∧
      bound.bound = if lower b == "least".toList then .atLeast else .atMost := by
  unfold readThreshold at h
  split at h
  · next a b n hwords =>
    split at h
    · next hform =>
      simp only [Bool.and_eq_true, Bool.or_eq_true] at hform
      split at h
      · next x hx =>
        cases h
        exact ⟨a, b, n, hwords, hform.1.1, hform.1.2, (Option.filter_eq_some_iff.1 hx).1, rfl⟩
      · cases h
    · cases h
  · cases h

theorem disguised_least_iff {w : List Char} (h : spells "least" w = true) :
    (∀ c ∈ w, c ∉ disguised) ↔ '\u017F' ∉ w := by
  constructor
  · intro hall hs
    exact hall _ hs (by decide)
  · intro hs c hc hdisguised
    simp only [disguised, List.mem_cons, List.not_mem_nil, or_false] at hdisguised
    obtain rfl | rfl := hdisguised
    · exact hs hc
    · -- the kelvin sign folds to a letter that the keyword does not have
      have hk : 'k' ∈ "least".toList := by
        rw [← spells_iff.1 h]
        exact List.mem_map.2 ⟨_, hc, by decide⟩
      exact absurd hk (by decide)

/-- A threshold has one keyword after `at`, the same as `least` or as `most` but for case and not
as both. It is at least exactly when the keyword is `least` but for case and has no long s. -/
theorem bound_eq_atLeast_iff {s : List Char} {bound : Threshold}
    (h : readThreshold s = .ok (some bound)) :
    ∃ a b n, words s = [a, b, n] ∧ sameFolded a "at".toList = true ∧
      readFloat n = some bound.value ∧
      (sameFolded b "least".toList = true ∧ sameFolded b "most".toList = false ∨
        sameFolded b "most".toList = true ∧ sameFolded b "least".toList = false) ∧
      (bound.bound = .atLeast ↔ sameFolded b "least".toList = true ∧ '\u017F' ∉ b) := by
  obtain ⟨a, b, n, hwords, ha, hb, hn, hbound⟩ := words_of_readThreshold h
  have hat : sameFolded a "at".toList = spells "at" a := sameFolded_keyword (by decide) a
  have hleast : sameFolded b "least".toList = spells "least" b := sameFolded_keyword (by decide) b
  have hmost : sameFolded b "most".toList = spells "most" b := sameFolded_keyword (by decide) b
  rw [hbound]
  refine ⟨a, b, n, hwords, hat.trans ha, hn, ?_, ?_⟩
  · rw [hleast, hmost]
    rcases hb with hb | hb
    · exact .inl ⟨hb, spells_eq_false hb (by decide)⟩
    · exact .inr ⟨hb, spells_eq_false hb (by decide)⟩
  · have hlower : lower b = "least".toList ↔ _ := lower_eq_iff (by decide) b
    rw [hleast, ← and_congr_right disguised_least_iff, ← hlower]
    by_cases hb : lower b = "least".toList <;> simp [hb]

/-- A keyword in capitals. -/
theorem bound_eq_atLeast_iff_capitals : ∃ bound,
    readThreshold "AT LEAST 5".toList = .ok (some bound) ∧
    ∃ a b n, words "AT LEAST 5".toList = [a, b, n] ∧ sameFolded a "at".toList = true ∧
      readFloat n = some bound.value ∧
      (sameFolded b "least".toList = true ∧ sameFolded b "most".toList = false ∨
        sameFolded b "most".toList = true ∧ sameFolded b "least".toList = false) ∧
      (bound.bound = .atLeast ↔ sameFolded b "least".toList = true ∧ '\u017F' ∉ b) := by
  have h : readThreshold "AT LEAST 5".toList =
      .ok (some ⟨.atLeast, Decimal.ofScaled false 5 0⟩) := by rfl
  exact ⟨_, h, bound_eq_atLeast_iff h⟩

/-- A keyword with a long s is recognised as `least` and read as at most. -/
theorem bound_of_long_s : ¬∀ (s : List Char) (bound : Threshold) (a b n : List Char),
    readThreshold s = .ok (some bound) → words s = [a, b, n] →
      (bound.bound = .atLeast ↔ sameFolded b "least".toList = true) := by
  intro hall
  have h : readThreshold "at leaſt 5".toList =
      .ok (some ⟨.atMost, Decimal.ofScaled false 5 0⟩) := by rfl
  have hiff := hall _ _ "at".toList "leaſt".toList "5".toList h (by decide)
  exact absurd (hiff.2 (by decide)) (by decide)

end GardenMap.Phrase
