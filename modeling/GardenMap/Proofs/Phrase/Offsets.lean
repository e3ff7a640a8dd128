import GardenMap.Proofs.Phrase.Thresholds
import GardenMap.Proofs.Text.Folding

/-!
# Offsets among date expressions

Offsets have a reader of their own, which lowers words in ASCII, and are read as date expressions,
with case folding. A text is an offset exactly when it is an unqualified date expression for that
offset, or `now` for no time at all (`readOffset_eq_some_iff`), and an error of the one reader is
the error of the other (`readDateExpr_of_error`).

Proof. What the first reader takes for count, unit and direction, the second recognises as an
offset without a qualifier, and hands over to the first. The word `now` has no letter with a
disguise, so both know it in the same spellings.
-/

namespace GardenMap.Phrase

open Text

/-! ## Words in lower case -/

theorem isCount_lower (w : List Char) : isCount (lower w) = isCount w := by
  have hdigits : (lower w).all Char.isDigit = w.all Char.isDigit := by
    simp only [lower, List.all_map, Function.comp_def, isDigit_toLower]
  rw [isCount, isCount, hdigits]
  cases w <;> rfl

theorem isFoldedName_of_lower {w : List Char} (h : isName (lower w) = true) :
    isFoldedName w = true := by
  simp only [isName, isFoldedName, lower, List.isEmpty_map, List.all_map, Bool.and_eq_true,
    List.all_eq_true, Function.comp_apply] at h ⊢
  exact ⟨h.1, fun c hc => isLetter_of_toLower (h.2 c hc)⟩

theorem qualifier?_count {w : List Char} (h : isCount w = true) : qualifier? w = none := by
  cases w with
  | nil => rfl
  | cons c w =>
    simp only [isCount, List.isEmpty_cons, Bool.not_false, Bool.true_and, List.all_cons,
      Bool.and_eq_true] at h
    have hne : ∀ letter : Char, letter.isDigit = false → some letter ≠ some c := by
      rintro letter hletter he
      rw [Option.some.inj he, h.1] at hletter
      cases hletter
    have hbefore : spells "before" (c :: w) = false := spells_digit h.1 w (hne 'b' (by decide))
    have hafter : spells "after" (c :: w) = false := spells_digit h.1 w (hne 'a' (by decide))
    rw [qualifier?, hbefore, hafter]
    rfl

theorem relative_of_lower {ws : List (List Char)} {r : Relative}
    (h : Relative.ofWords? (ws.map lower) = some r) :
    MomentForm.ofWords? ws = some .relative ∧ ∃ a b c, ws = [a, b, c] ∧ qualifier? a = none := by
  rcases ws with _ | ⟨a, _ | ⟨b, _ | ⟨c, _ | ⟨e, ws⟩⟩⟩⟩
  · cases h
  · cases h
  · cases h
  · simp only [List.map_cons, List.map_nil, Relative.ofWords?, isCount_lower] at h
    split at h
    · next hin =>
      simp only [Bool.and_eq_true, beq_iff_eq] at hin
      obtain ⟨⟨ha, hb⟩, hc⟩ := hin
      have hspells : spells "in" a = true := spells_of_lower (by decide) ha
      refine ⟨?_, a, b, c, rfl, ?_⟩
      · rw [MomentForm.ofWords?, hspells, hb, isFoldedName_of_lower hc]
        rfl
      · rw [qualifier?, spells_eq_false hspells (by decide), spells_eq_false hspells (by decide)]
        rfl
    · split at h
      · next hago =>
        simp only [Bool.and_eq_true, beq_iff_eq] at hago
        obtain ⟨⟨ha, hb⟩, hc⟩ := hago
        have hspells : spells "ago" c = true := spells_of_lower (by decide) hc
        refine ⟨?_, a, b, c, rfl, qualifier?_count ha⟩
        rw [MomentForm.ofWords?, ha, isFoldedName_of_lower hb, hspells]
        simp
      · cases h
  · cases h

/-! ## Unqualified date expressions -/

theorem readOffset_trim (s : List Char) : readOffset (trim s) = readOffset s := by
  rw [readOffset, readOffset, normalWords, normalWords, words_trim]

/-- The date expression without a qualifier that a text is, if it is one. -/
def readPlain (s : List Char) : Except PhraseError (Option DateExpr) :=
  match MomentForm.ofWords? (words s) with
  | none => .ok none
  | some form => (readMoment form (trim s)).map fun m => some ⟨none, m⟩

theorem readDateExpr_plain {s : List Char} (h : (splitQualifier (trim s)).1 = none) :
    readDateExpr s = readPlain s := by
  have hsplit : splitQualifier (trim s) = (none, trim s) := by
    unfold splitQualifier at h ⊢
    split
    · next hwords =>
      simp only [hwords] at h
      split
      · next hq =>
        simp only [hq] at h
        cases h
      · rfl
    · rfl
  unfold readDateExpr readPlain
  rw [hsplit]
  cases hform : MomentForm.ofWords? (words s) <;> simp only [words_trim, hform]

theorem splitQualifier_of_words {s a : List Char} {ws : List (List Char)}
    (hwords : words s = a :: ws) (h : ws = [] ∨ qualifier? a = none) :
    (splitQualifier (trim s)).1 = none := by
  unfold splitQualifier
  rw [words_trim, hwords]
  rcases h with rfl | h
  · rfl
  · cases ws with
    | nil => rfl
    | cons b ws => simp only [h]

theorem readDateExpr_now {s : List Char} (h : normalWords s = ["now".toList]) :
    readDateExpr s = .ok (some ⟨none, .now⟩) := by
  obtain ⟨w, hwords, hw⟩ := List.map_eq_singleton_iff.1 h
  have hspells : spells "now" w = true := spells_of_lower (by decide) hw
  rw [readDateExpr_plain (splitQualifier_of_words hwords (.inl rfl)), readPlain, hwords]
  simp only [MomentForm.ofWords?, hspells, if_true]
  rfl

theorem readDateExpr_relative {s : List Char} {r : Relative}
    (h : Relative.ofWords? (normalWords s) = some r) :
    readDateExpr s = (readOffset s).map fun o => o.map fun span => ⟨none, .offset span⟩ := by
  obtain ⟨hform, a, b, c, hwords, hqualifier⟩ := relative_of_lower h
  have hnow : (normalWords s == ["now".toList]) = false := by
    rw [normalWords, hwords, beq_eq_false_iff_ne]
    simp
  have hread : readOffset s = (r.span (phraseText (normalWords s))).map some := by
    unfold readOffset
    simp only [hnow, h, Bool.false_eq_true, if_false]
  rw [readDateExpr_plain (splitQualifier_of_words hwords (.inr hqualifier)), readPlain, hform]
  simp only [readMoment, readOffset_trim, hread]
  cases r.span (phraseText (normalWords s)) <;> rfl

/-! ## The two readers -/

theorem readOffset_cases (s : List Char) :
    (normalWords s = ["now".toList] ∧ readOffset s = .ok (some .zero)) ∨
    (∃ r, Relative.ofWords? (normalWords s) = some r) ∨ readOffset s = .ok none := by
  unfold readOffset
  simp only
  split
  · next hnow => exact .inl ⟨beq_iff_eq.1 hnow, rfl⟩
  · split
    · exact .inr (.inr rfl)
    · next r hr => exact .inr (.inl ⟨r, hr⟩)

theorem of_readDateExpr_plain {s : List Char} {m : Moment}
    (h : readDateExpr s = .ok (some ⟨none, m⟩)) :
    ∃ form, MomentForm.ofWords? (words s) = some form ∧ readMoment form (trim s) = .ok m := by
  have hsplit : (splitQualifier (trim s)).1 = none := by
    unfold readDateExpr at h
    simp only at h
    split at h
    · cases h
    · next form _ =>
      cases hm : readMoment form (splitQualifier (trim s)).2 with
      | error e =>
        rw [hm] at h
        cases h
      | ok m' =>
        rw [hm] at h
        exact congrArg DateExpr.qualifier (Option.some.inj (Except.ok.inj h))
  rw [readDateExpr_plain hsplit, readPlain] at h
  split at h
  · cases h
  · next form hform =>
    refine ⟨form, hform, ?_⟩
    cases hm : readMoment form (trim s) with
    | error e =>
      rw [hm] at h
      cases h
    | ok m' =>
      rw [hm] at h
      cases h
      rfl

theorem readOffset_now {s : List Char} (h : MomentForm.ofWords? (words s) = some .now) :
    readOffset s = .ok (some .zero) := by
  have hwords : normalWords s = ["now".toList] := by
    unfold MomentForm.ofWords? at h
    split at h
    · next w hw =>
      split at h
      · next hnow =>
        rw [normalWords, hw, List.map_singleton, lower_of_spells (by decide) (by decide) hnow]
      · split at h <;> cases h
    · split at h <;> cases h
    · cases h
  unfold readOffset
  rw [hwords]
  rfl

theorem of_readMoment_relative {s : List Char} {m : Moment}
    (h : readMoment .relative (trim s) = .ok m) :
    ∃ span, readOffset s = .ok (some span) ∧ m = .offset span := by
  simp only [readMoment, readOffset_trim] at h
  cases hread : readOffset s with
  | error e =>
    rw [hread] at h
    cases h
  | ok o =>
    rw [hread] at h
    cases o with
    | none => cases h
    | some span =>
      cases h
      exact ⟨span, rfl, rfl⟩

theorem of_readMoment_absolute {s : List Char} {m : Moment}
    (h : readMoment .absolute s = .ok m) : ∃ t, m = .absolute t := by
  simp only [readMoment] at h
  cases hread : Instant.parse (String.ofList (upper s)) with
  | error e =>
    rw [hread] at h
    cases h
  | ok t =>
    rw [hread] at h
    cases h
    exact ⟨t, rfl⟩

/-- A text is an offset exactly when it is an unqualified date expression for that offset, or for
now and the offset is none. -/
theorem readOffset_eq_some_iff (s : List Char) (span : Span) :
    readOffset s = .ok (some span) ↔ ∃ m, readDateExpr s = .ok (some ⟨none, m⟩) ∧
      (m = .offset span ∨ m = .now ∧ span = .zero) := by
  constructor
  · intro h
    rcases readOffset_cases s with ⟨hwords, hzero⟩ | ⟨r, hr⟩ | hnone
    · rw [h] at hzero
      cases hzero
      exact ⟨.now, readDateExpr_now hwords, .inr ⟨rfl, rfl⟩⟩
    · refine ⟨.offset span, ?_, .inl rfl⟩
      rw [readDateExpr_relative hr, h]
      rfl
    · rw [h] at hnone
      cases hnone
  · rintro ⟨m, hread, hm⟩
    obtain ⟨form, hform, hmoment⟩ := of_readDateExpr_plain hread
    cases form with
    | now =>
      cases hmoment
      obtain hm | ⟨-, rfl⟩ := hm
      · cases hm
      · exact readOffset_now hform
    | relative =>
      obtain ⟨span', hspan, rfl⟩ := of_readMoment_relative hmoment
      obtain hm | ⟨hm, -⟩ := hm
      · cases hm
        exact hspan
      · cases hm
    | absolute =>
      obtain ⟨t, rfl⟩ := of_readMoment_absolute hmoment
      obtain hm | ⟨hm, -⟩ := hm <;> cases hm

/-- An error of the offset reader is the error of the date reader. -/
theorem readDateExpr_of_error {s : List Char} {e : PhraseError}
    (h : readOffset s = .error e) : readDateExpr s = .error e := by
  rcases readOffset_cases s with ⟨-, hzero⟩ | ⟨r, hr⟩ | hnone
  · rw [h] at hzero
    cases hzero
  · rw [readDateExpr_relative hr, h]
    rfl
  · rw [h] at hnone
    cases hnone

end GardenMap.Phrase
