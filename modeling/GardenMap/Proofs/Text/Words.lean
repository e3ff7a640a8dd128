import GardenMap.Proofs.Time.Text
import GardenMap.Text.Letters

/-!
# Words of a text

Blanks at the ends of a text make no words, so a text and the trimmed text have the same ones
(`words_trim`). A digit folds to itself, so no keyword starts with one (`spells_digit`).
-/

namespace GardenMap.Text

/-! ## Blanks at the ends -/

theorem words_cons (c : Char) (s : List Char) :
    words (c :: s) =
      if isBlank c then words s
      else
        match s, words s with
        | d :: _, w :: ws => if isBlank d then [c] :: w :: ws else (c :: w) :: ws
        | _, ws => [c] :: ws := words.eq_def (c :: s)

theorem words_blank {c : Char} (hc : isBlank c = true) (s : List Char) :
    words (c :: s) = words s := by
  rw [words_cons, if_pos hc]

theorem words_trimStart (s : List Char) : words (trimStart s) = words s := by
  unfold trimStart
  induction s with
  | nil => rfl
  | cons c s ih =>
    cases hc : isBlank c with
    | true => rw [List.dropWhile_cons_of_pos hc, ih, words_blank hc]
    | false => rw [List.dropWhile_cons_of_neg (by simp [hc])]

theorem words_of_blanks {b : List Char} (hb : ∀ c ∈ b, isBlank c = true) : words b = [] := by
  induction b with
  | nil => rfl
  | cons c b ih => rw [words_blank (hb c (by simp)), ih fun d hd => hb d (by simp [hd])]

theorem words_append_blanks (s : List Char) {b : List Char} (hb : ∀ c ∈ b, isBlank c = true) :
    words (s ++ b) = words s := by
  induction s with
  | nil => exact words_of_blanks hb
  | cons c s ih =>
    cases hc : isBlank c with
    | true => rw [List.cons_append, words_blank hc, words_blank hc, ih]
    | false =>
      rw [List.cons_append, words_cons, words_cons, ih, hc]
      cases s with
      | nil => cases b <;> rfl
      | cons d s =>
        rw [List.cons_append]
        cases words (d :: s) <;> rfl

/-- A text and the trimmed text have the same words. -/
theorem words_trim (s : List Char) : words (trim s) = words s := by
  have hsplit : trimStart s = trim s ++ ((trimStart s).reverse.takeWhile isBlank).reverse := by
    have h : (trimStart s).reverse.takeWhile isBlank ++ (trimStart s).reverse.dropWhile isBlank =
        (trimStart s).reverse := List.takeWhile_append_dropWhile
    have hreverse := congrArg List.reverse h
    rw [List.reverse_append, List.reverse_reverse] at hreverse
    exact hreverse.symm
  rw [← words_trimStart s, hsplit, words_append_blanks]
  intro c hc
  exact List.all_eq_true.1 List.all_takeWhile c (List.mem_reverse.1 hc)

theorem foldLetter_digit {c : Char} (hc : c.isDigit = true) : foldLetter c = c := by
  obtain ⟨h0, h9⟩ := (isDigit_iff c).1 hc
  have hs : c ≠ '\u017F' := by rintro rfl; exact absurd h9 (by decide)
  have hk : c ≠ '\u212A' := by rintro rfl; exact absurd h9 (by decide)
  have hlow : ¬(c.val ≥ 'A'.val ∧ c.val ≤ 'Z'.val) := by
    rintro ⟨hA, -⟩
    exact absurd (Nat.le_trans (UInt32.le_iff_toNat_le.1 hA) h9) (by decide)
  rw [foldLetter, if_neg hs, if_neg hk]
  exact dif_neg hlow

/-- A word that starts with a digit spells only keywords that start with it. -/
theorem spells_digit {c : Char} (hc : c.isDigit = true) (s : List Char) {keyword : String}
    (hk : keyword.toList.head? ≠ some c) : spells keyword (c :: s) = false := by
  rw [spells, List.map_cons, foldLetter_digit hc, beq_eq_false_iff_ne]
  intro h
  rw [← h] at hk
  exact hk rfl

theorem spells_iff {keyword : String} {s : List Char} :
    spells keyword s = true ↔ s.map foldLetter = keyword.toList := by
  rw [spells, beq_iff_eq]

end GardenMap.Text
