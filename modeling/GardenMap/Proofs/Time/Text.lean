import GardenMap.Phrase.Error
import GardenMap.Proofs.Time.Calendar

/-!
# Canonical texts read back

A date is read back from its text, and an instant from its text up to milliseconds
(`Date.parse_text`, `Instant.parse_text`). Only a leap second within a minute is read as another
instant, since its text is that of the second after it (`Instant.asRead`).

Proof. Each reader takes the text of its value off the front, whatever comes after. Numbers are
padded to the greatest width that their reader takes, or end before a character that is no digit.
The fields that are read name the instant because day, hour, minute and second are quotients and
remainders of one count.
-/

namespace GardenMap

/-! ## Digits -/

theorem isDigit_iff (c : Char) : c.isDigit = true ↔ 48 ≤ c.toNat ∧ c.toNat ≤ 57 := by
  unfold Char.isDigit Char.toNat
  simp only [Bool.and_eq_true, decide_eq_true_eq, UInt32.le_iff_toNat_le]
  exact Iff.rfl

namespace Text

theorem isBlank_of_isDigit {c : Char} (h : c.isDigit = true) : isBlank c = false := by
  obtain ⟨h0, h9⟩ := (isDigit_iff c).1 h
  unfold isBlank
  simp only [Bool.or_eq_false_iff, Bool.and_eq_false_iff, decide_eq_false_iff_not,
    beq_eq_false_iff_ne]
  omega

theorem trimStart_of_not_blank {c : Char} (h : isBlank c = false) (s : List Char) :
    trimStart (c :: s) = c :: s := by
  rw [trimStart, List.dropWhile_cons_of_neg (by simp [h])]

theorem trim_of_no_blank {s : List Char} (h : ∀ c ∈ s, isBlank c = false) : trim s = s := by
  have hstart : ∀ t : List Char, (∀ c ∈ t, isBlank c = false) → trimStart t = t := by
    intro t ht
    cases t with
    | nil => rfl
    | cons c t => exact trimStart_of_not_blank (ht c (by simp)) t
  rw [trim, hstart s h, hstart s.reverse fun c hc => h c (List.mem_reverse.1 hc),
    List.reverse_reverse]

end Text

namespace Calendar

/-- Every character is a digit. -/
def AllDigits (s : List Char) : Prop := ∀ c ∈ s, c.isDigit = true

theorem allDigits_toDigits (n : Nat) : AllDigits (Nat.toDigits 10 n) :=
  fun _ hc => Nat.isDigit_of_mem_toDigits (by decide) (by decide) hc

theorem allDigits_padded (width n : Nat) : AllDigits (padded width n) := by
  intro c hc
  unfold padded at hc
  rcases List.mem_append.1 hc with hc | hc
  · rw [List.eq_of_mem_replicate hc]
    rfl
  · exact allDigits_toDigits n c hc

theorem ofDigitChars_padded (width n : Nat) : Nat.ofDigitChars 10 (padded width n) 0 = n := by
  unfold padded
  rw [Nat.ofDigitChars_append, Nat.ofDigitChars_replicate_zero, Nat.mul_zero,
    Nat.ofDigitChars_ten_toDigits]

theorem length_padded {width n : Nat} (hw : 0 < width) (hn : n < Nat.pow 10 width) :
    (padded width n).length = width := by
  have hlen := (Nat.length_toDigits_le_iff (by decide) hw).2 hn
  unfold padded
  rw [List.length_append, List.length_replicate]
  omega

theorem padded_ne_nil (width n : Nat) : padded width n ≠ [] := by
  unfold padded
  exact List.append_ne_nil_of_right_ne_nil _ Nat.toDigits_ne_nil

theorem yearText_of_range {year : Int} (h0 : 0 ≤ year) (h9999 : year ≤ 9999) :
    yearText year = padded 4 year.toNat := by
  unfold yearText
  rw [if_pos]
  simp only [Bool.and_eq_true, decide_eq_true_eq]
  exact ⟨h0, h9999⟩

end Calendar

namespace Time

open Calendar

/-! ## Readers -/

theorem bind_eq {α β : Type} {x : Reader α} {f : α → Reader β} {s t : List Char} {a : α}
    (h : x s = some (a, t)) : (x >>= f) s = f a t := by
  show (x s).bind (fun p => f p.1 p.2) = f a t
  rw [h]
  rfl

theorem literal_cons (c : Char) (s : List Char) : literal c (c :: s) = some ((), s) := by
  simp [literal]

/-- The text goes on with no digit. -/
def Ends (s : List Char) : Prop := ∀ c, s.head? = some c → c.isDigit = false

theorem takeWhile_digits {ds s : List Char} (hds : AllDigits ds) (hs : Ends s) :
    (ds ++ s).takeWhile Char.isDigit = ds := by
  rw [List.takeWhile_append_of_pos hds]
  cases s with
  | nil => simp
  | cons c s => rw [List.takeWhile_cons_of_neg (by simp [hs c rfl]), List.append_nil]

theorem digits_append {least most : Nat} {ds s : List Char} (hds : AllDigits ds)
    (hleast : least ≤ ds.length) (hmost : ds.length ≤ most) (hend : ds.length = most ∨ Ends s) :
    digits least most (ds ++ s) = some (ds, s) := by
  have hrest : Ends (s.take (most - ds.length)) := by
    rcases hend with hlen | hend
    · rw [hlen, Nat.sub_self]
      intro c hc
      cases hc
    · intro c hc
      cases s with
      | nil => simp at hc
      | cons d s =>
        rcases Nat.eq_zero_or_pos (most - ds.length) with h0 | hpos
        · rw [h0] at hc
          cases hc
        · obtain ⟨k, hk⟩ := Nat.exists_eq_succ_of_ne_zero (Nat.ne_of_gt hpos)
          rw [hk] at hc
          exact hend c hc
  unfold digits
  simp only
  rw [List.take_append, List.take_of_length_le hmost, takeWhile_digits hds hrest,
    if_neg (by omega), List.drop_left]

theorem number_append {least most : Nat} {ds s : List Char} (hds : AllDigits ds)
    (hleast : least ≤ ds.length) (hmost : ds.length ≤ most) (hend : ds.length = most ∨ Ends s) :
    number least most (ds ++ s) = some (Nat.ofDigitChars 10 ds 0, s) :=
  bind_eq (digits_append hds hleast hmost hend)

theorem blanks_digits {ds : List Char} (hds : AllDigits ds) (hne : ds ≠ []) (s : List Char) :
    blanks (ds ++ s) = some ((), ds ++ s) := by
  obtain ⟨c, ds, rfl⟩ := List.exists_cons_of_ne_nil hne
  unfold blanks
  rw [List.cons_append, Text.trimStart_of_not_blank (Text.isBlank_of_isDigit (hds c (by simp)))]

theorem lax_padded {n : Nat} (hn : n < 100) (s : List Char) :
    lax (padded 2 n ++ s) = some (n, s) := by
  have hlen : (padded 2 n).length = 2 := length_padded (by decide) hn
  have hds := allDigits_padded 2 n
  unfold lax
  rw [bind_eq (blanks_digits hds (padded_ne_nil 2 n) s),
    number_append hds (by omega) (by omega) (.inl hlen), ofDigitChars_padded]

theorem allDigits_append {ds s : List Char} (hds : AllDigits ds) (hne : ds ≠ []) (hs : Ends s) :
    Time.allDigits (ds ++ s) = some (Nat.ofDigitChars 10 ds 0, s) := by
  have hpos := List.length_pos_iff.2 hne
  unfold Time.allDigits
  exact number_append hds (by omega) (by simp) (.inr hs)

theorem isDigit_of_append_eq {ds s t : List Char} {c : Char} (hds : AllDigits ds) (hne : ds ≠ [])
    (h : ds ++ s = c :: t) : c.isDigit = true := by
  obtain ⟨d, ds, rfl⟩ := List.exists_cons_of_ne_nil hne
  rw [List.cons_append, List.cons.injEq] at h
  exact h.1 ▸ hds d (by simp)

theorem blanks_cons {c : Char} (hc : Text.isBlank c = false) (s : List Char) :
    blanks (c :: s) = some ((), c :: s) := by
  unfold blanks
  rw [Text.trimStart_of_not_blank hc]

theorem laxYear_yearText (year : Int) {s : List Char} (hs : Ends s) :
    laxYear (yearText year ++ s) = some (year, s) := by
  have hds := allDigits_padded 4
  have hne := padded_ne_nil 4
  unfold laxYear yearText
  split
  · next h =>
    simp only [Bool.and_eq_true, decide_eq_true_eq] at h
    have hyear : year.toNat < 10000 := by omega
    have hlen : (padded 4 year.toNat).length = 4 := length_padded (by decide) hyear
    rw [bind_eq (blanks_digits (hds _) (hne _) s)]
    split
    · next heq => exact absurd (isDigit_of_append_eq (hds _) (hne _) heq) (by decide)
    · next heq => exact absurd (isDigit_of_append_eq (hds _) (hne _) heq) (by decide)
    · rw [number_append (hds _) (by omega) (by omega) (.inl hlen), ofDigitChars_padded]
      show some ((year.toNat : Int), s) = _
      rw [Int.toNat_of_nonneg h.1]
  · next h =>
    simp only [Bool.and_eq_true, decide_eq_true_eq, not_and] at h
    rw [List.cons_append]
    by_cases hneg : year < 0
    · rw [if_pos hneg, bind_eq (blanks_cons (by decide) _)]
      simp only
      rw [allDigits_append (hds _) (hne _) hs, ofDigitChars_padded]
      show some (-(year.natAbs : Int), s) = _
      rw [show -(year.natAbs : Int) = year by omega]
    · rw [if_neg hneg, bind_eq (blanks_cons (by decide) _)]
      simp only
      rw [allDigits_append (hds _) (hne _) hs, ofDigitChars_padded]
      show some ((year.natAbs : Int), s) = _
      rw [show (year.natAbs : Int) = year by omega]

theorem ends_cons {c : Char} (hc : c.isDigit = false) (s : List Char) : Ends (c :: s) := by
  intro d hd
  cases hd
  exact hc

/-! ## Dates -/

theorem civil_bounds (d : Date) : d.civil.month < 100 ∧ d.civil.day < 100 := by
  have h := isValid_civilOf d.day
  unfold isValid at h
  simp only [Bool.and_eq_true, decide_eq_true_eq] at h
  have hlength : monthLength (civilOf d.day).year (civilOf d.day).month ≤ 31 := by
    unfold monthLength
    split
    · split <;> decide
    · split <;> decide
  unfold Date.civil
  omega

theorem laxCivil_chars (d : Date) (s : List Char) :
    laxCivil (d.chars ++ s) = some (d.civil, s) := by
  obtain ⟨hmonth, hday⟩ := civil_bounds d
  unfold laxCivil Date.chars
  simp only [List.append_assoc, List.cons_append]
  rw [bind_eq (laxYear_yearText _ (ends_cons (by decide) _)), bind_eq (literal_cons _ _),
    bind_eq (lax_padded hmonth _), bind_eq (literal_cons _ _), bind_eq (lax_padded hday s)]
  rfl

theorem not_blank_of_allDigits {ds : List Char} (hds : AllDigits ds) :
    ∀ c ∈ ds, Text.isBlank c = false := fun c hc => Text.isBlank_of_isDigit (hds c hc)

theorem not_blank_date (d : Date) : ∀ c ∈ d.chars, Text.isBlank c = false := by
  have hyear : ∀ y, ∀ c ∈ yearText y, Text.isBlank c = false := by
    intro y c hc
    unfold yearText at hc
    split at hc
    · exact not_blank_of_allDigits (allDigits_padded _ _) c hc
    · rcases List.mem_cons.1 hc with rfl | hc
      · split <;> decide
      · exact not_blank_of_allDigits (allDigits_padded _ _) c hc
  intro c hc
  unfold Date.chars at hc
  simp only [List.append_assoc, List.cons_append, List.mem_append, List.mem_cons] at hc
  rcases hc with hc | rfl | hc | rfl | hc
  · exact hyear _ c hc
  · decide
  · exact not_blank_of_allDigits (allDigits_padded _ _) c hc
  · decide
  · exact not_blank_of_allDigits (allDigits_padded _ _) c hc

/-! ## Instants -/

theorem clock_bounds (t : Instant) :
    t.secondOfDay / 3600 < 24 ∧ t.secondOfDay / 60 % 60 < 60 ∧
      t.secondOfDay % 60 + (if t.isLeap then 1 else 0) < 100 ∧ t.subsecond / 1000000 < 1000 := by
  have hday := Int.emod_lt_of_pos t.second (show (0 : Int) < daySeconds by decide)
  have hpos := Int.emod_nonneg t.second (show daySeconds ≠ 0 by decide)
  have hsub := Nat.mod_lt t.nano (show 0 < secondNanos by decide)
  unfold daySeconds at hday hpos
  unfold secondNanos at hsub
  unfold Instant.secondOfDay Instant.subsecond daySeconds secondNanos
  refine ⟨by omega, by omega, ?_, by omega⟩
  split <;> omega

theorem fraction_millis {n : Nat} (hn : n < 1000) {s : List Char} (hs : Ends s) :
    fraction ('.' :: (padded 3 n ++ s)) = some (n * 1000000, s) := by
  have hlen : (padded 3 n).length = 3 := length_padded (by decide) hn
  unfold fraction
  simp only
  rw [digits_append (allDigits_padded 3 n) (by omega) (by omega) (.inr hs)]
  show some (Nat.ofDigitChars 10 (padded 3 n) 0 * Nat.pow 10 (9 - (padded 3 n).length),
    s.dropWhile Char.isDigit) = _
  have hdrop : s.dropWhile Char.isDigit = s := by
    cases s with
    | nil => rfl
    | cons c s => exact List.dropWhile_cons_of_neg (by simp [hs c rfl])
  rw [ofDigitChars_padded, hlen, hdrop]

/-- The fields that the text of an instant shows. -/
def shown (t : Instant) : Fields :=
  ⟨t.date.civil, t.secondOfDay / 3600, t.secondOfDay / 60 % 60,
    t.secondOfDay % 60 + (if t.isLeap then 1 else 0), t.subsecond / 1000000 * 1000000⟩

theorem laxFields_chars (t : Instant) {s : List Char} (hs : Ends s) :
    laxFields (t.date.chars ++ 'T' :: (t.clockChars ++ s)) = some (shown t, s) := by
  obtain ⟨hhour, hminute, hsecond, hmilli⟩ := clock_bounds t
  unfold laxFields Instant.clockChars
  simp only [List.append_assoc, List.cons_append]
  rw [bind_eq (laxCivil_chars t.date _), bind_eq (literal_cons _ _),
    bind_eq (lax_padded (by omega) _), bind_eq (literal_cons _ _),
    bind_eq (lax_padded (by omega) _), bind_eq (literal_cons _ _),
    bind_eq (lax_padded hsecond _), bind_eq (fraction_millis hmilli hs)]
  rfl

theorem not_blank_instant (t : Instant) : ∀ c ∈ t.chars, Text.isBlank c = false := by
  intro c hc
  unfold Instant.chars Instant.clockChars at hc
  simp only [List.mem_append, List.mem_cons, List.append_assoc, List.cons_append, List.not_mem_nil,
    or_false] at hc
  rcases hc with hc | rfl | hc | rfl | hc | rfl | hc | rfl | hc | rfl
  · exact not_blank_date t.date c hc
  · decide
  · exact not_blank_of_allDigits (allDigits_padded _ _) c hc
  · decide
  · exact not_blank_of_allDigits (allDigits_padded _ _) c hc
  · decide
  · exact not_blank_of_allDigits (allDigits_padded _ _) c hc
  · decide
  · exact not_blank_of_allDigits (allDigits_padded _ _) c hc
  · decide

theorem leap_bounds (t : Instant) :
    if t.isLeap then 1000000000 ≤ t.nano ∧ t.nano < 2000000000 else t.nano < 1000000000 := by
  have h := t.inCalendar
  unfold holdsInstant secondNanos at h
  simp only [Bool.and_eq_true, decide_eq_true_eq] at h
  unfold Instant.isLeap secondNanos
  split
  · next hleap =>
    rw [decide_eq_true_eq] at hleap
    omega
  · next hleap =>
    rw [decide_eq_true_eq] at hleap
    omega

theorem secondOfDay_eq (t : Instant) :
    t.date.day * 86400 + (t.secondOfDay : Int) = t.second ∧ t.second % 60 = t.secondOfDay % 60 := by
  have hpos := Int.emod_nonneg t.second (show (86400 : Int) ≠ 0 by decide)
  unfold Instant.date Instant.secondOfDay daySeconds
  simp only
  omega

end Time

/-! ## What a text denotes -/

open Calendar

namespace Instant

theorem ofParts?_eq_some_iff {second : Int} {nano : Nat} {t : Instant} :
    ofParts? second nano = some t ↔ t.second = second ∧ t.nano = nano := by
  constructor
  · intro h
    unfold ofParts? at h
    split at h
    · cases h
      exact ⟨rfl, rfl⟩
    · cases h
  · rintro ⟨rfl, rfl⟩
    exact dif_pos t.inCalendar

/-- The instant cut to whole milliseconds. -/
def cut (t : Instant) : Instant :=
  ⟨t.second, t.nano - t.nano % 1000000, by
    have h := t.inCalendar
    unfold holdsInstant at h ⊢
    rw [Bool.and_eq_true, decide_eq_true_eq] at h ⊢
    exact ⟨h.1, by omega⟩⟩

/-- A whole number of milliseconds. -/
def IsWhole (t : Instant) : Prop := t.nano % 1000000 = 0

theorem cut_of_isWhole {t : Instant} (h : t.IsWhole) : t.cut = t := by
  obtain ⟨second, nano, hin⟩ := t
  unfold IsWhole at h
  unfold cut
  simp only [Instant.mk.injEq, true_and]
  simp only at h
  omega

theorem not_onClock_iff {t : Instant} : ¬t.OnClock ↔ t.isLeap = true ∧ t.second % 60 ≠ 59 :=
  Classical.not_imp

theorem day_of_not_onClock {t : Instant} (h : ¬t.OnClock) :
    (t.second + 1) / daySeconds = t.second / daySeconds := by
  have hwithin := (not_onClock_iff.1 h).2
  unfold daySeconds
  omega

/-- The instant that the text of an instant denotes. It has no more than milliseconds, and a leap
second that no clock shows is written, and read, as the same time of the second after it. -/
def asRead (t : Instant) : Instant :=
  if h : t.OnClock then t.cut
  else ⟨t.second + 1, t.subsecond - t.subsecond % 1000000, by
    have hin := t.date.inCalendar
    unfold date at hin
    unfold holdsInstant subsecond secondNanos
    rw [day_of_not_onClock h, hin, Bool.true_and, decide_eq_true_eq]
    omega⟩

theorem asRead_of_onClock {t : Instant} (h : t.OnClock) : t.asRead = t.cut := dif_pos h

theorem asRead_of_not_onClock {t : Instant} (h : ¬t.OnClock) :
    t.asRead.second = t.second + 1 ∧ t.asRead.nano = t.subsecond - t.subsecond % 1000000 := by
  rw [asRead, dif_neg h]
  exact ⟨rfl, rfl⟩

theorem text_cut (t : Instant) : t.cut.text = t.text := by
  have hleap : t.cut.isLeap = t.isLeap := by
    unfold isLeap cut secondNanos
    simp only [decide_eq_decide]
    omega
  have hmilli : t.cut.subsecond / 1000000 = t.subsecond / 1000000 := by
    unfold subsecond cut secondNanos
    simp only
    omega
  have hdate : t.cut.date = t.date := rfl
  have hsecond : t.cut.secondOfDay = t.secondOfDay := rfl
  unfold text chars clockChars
  rw [hleap, hmilli, hdate, hsecond]

theorem date_asRead (t : Instant) : t.asRead.date = t.date := by
  by_cases h : t.OnClock
  · rw [asRead_of_onClock h]
    rfl
  · unfold date
    simp only [asRead_of_not_onClock h, day_of_not_onClock h]

theorem isLeap_asRead_of_not_onClock {t : Instant} (h : ¬t.OnClock) : t.asRead.isLeap = false := by
  unfold isLeap
  rw [(asRead_of_not_onClock h).2, decide_eq_false_iff_not]
  unfold subsecond secondNanos
  omega

theorem onClock_asRead (t : Instant) : t.asRead.OnClock := by
  by_cases h : t.OnClock
  · have hleap : t.cut.isLeap = true → t.isLeap = true := by
      unfold isLeap cut
      simp only [decide_eq_true_eq]
      omega
    rw [asRead_of_onClock h]
    exact fun hcut => h (hleap hcut)
  · intro hleap
    rw [isLeap_asRead_of_not_onClock h] at hleap
    cases hleap

theorem isWhole_asRead (t : Instant) : t.asRead.IsWhole := by
  unfold IsWhole
  by_cases h : t.OnClock
  · rw [asRead_of_onClock h]
    show (t.nano - t.nano % 1000000) % 1000000 = 0
    omega
  · rw [(asRead_of_not_onClock h).2]
    omega

theorem text_asRead (t : Instant) : t.asRead.text = t.text := by
  by_cases h : t.OnClock
  · rw [asRead_of_onClock h, text_cut]
  · obtain ⟨hleap, hwithin⟩ := not_onClock_iff.1 h
    obtain ⟨hsecond, hnano⟩ := asRead_of_not_onClock h
    obtain ⟨-, hmod⟩ := Time.secondOfDay_eq t
    have hnext : t.asRead.secondOfDay = t.secondOfDay + 1 := by
      have hday := day_of_not_onClock h
      unfold secondOfDay
      rw [hsecond]
      unfold daySeconds at hday ⊢
      omega
    have hmilli : t.asRead.subsecond / 1000000 = t.subsecond / 1000000 := by
      unfold subsecond at hnano ⊢
      rw [hnano]
      unfold secondNanos
      omega
    unfold text chars clockChars
    simp only
    rw [date_asRead, isLeap_asRead_of_not_onClock h, hleap, hnext, hmilli,
      show (t.secondOfDay + 1) / 3600 = t.secondOfDay / 3600 by omega,
      show (t.secondOfDay + 1) / 60 % 60 = t.secondOfDay / 60 % 60 by omega,
      show (t.secondOfDay + 1) % 60 = t.secondOfDay % 60 + 1 by omega]
    rfl

end Instant

namespace Time

theorem instant?_shown (t : Instant) : (shown t).instant? 0 = some t.asRead := by
  obtain ⟨hsum, hmod⟩ := secondOfDay_eq t
  have hleap := leap_bounds t
  obtain ⟨hhour, hminute, -, -⟩ := clock_bounds t
  have hcivil : Date.ofCivil? (shown t).civil = some t.date := Date.ofCivil?_civil t.date
  have hfields :
      ((shown t).hour < 24 && (shown t).minute < 60 && (shown t).second ≤ 60) = true := by
    simp only [Bool.and_eq_true, decide_eq_true_eq]
    unfold shown
    simp only
    refine ⟨⟨hhour, hminute⟩, ?_⟩
    split <;> omega
  unfold Fields.instant?
  rw [hcivil]
  show (if _ then _ else none) = _
  rw [if_pos hfields]
  unfold shown Instant.subsecond daySeconds secondNanos
  simp only
  by_cases hclock : t.OnClock
  · have hsecond : t.asRead.second = t.second := by rw [Instant.asRead_of_onClock hclock]; rfl
    have hnano : t.asRead.nano = t.nano - t.nano % 1000000 := by
      rw [Instant.asRead_of_onClock hclock]
      rfl
    cases hl : t.isLeap with
    | true =>
      have h59 := hclock hl
      rw [hl, if_pos rfl] at hleap
      have h60 : t.secondOfDay % 60 + 1 = 60 := by omega
      simp only [if_true, h60]
      exact Instant.ofParts?_eq_some_iff.2 ⟨by omega, by omega⟩
    | false =>
      rw [hl, if_neg Bool.false_ne_true] at hleap
      have h60 : ¬t.secondOfDay % 60 + 0 = 60 := by omega
      simp only [Bool.false_eq_true, if_false, h60]
      exact Instant.ofParts?_eq_some_iff.2 ⟨by omega, by omega⟩
  · obtain ⟨hl, hwithin⟩ := Instant.not_onClock_iff.1 hclock
    obtain ⟨hsecond, hnano⟩ := Instant.asRead_of_not_onClock hclock
    unfold Instant.subsecond secondNanos at hnano
    rw [hl, if_pos rfl] at hleap
    have h60 : ¬t.secondOfDay % 60 + 1 = 60 := by omega
    simp only [hl, if_true, h60, if_false]
    exact Instant.ofParts?_eq_some_iff.2 ⟨by omega, by omega⟩

end Time

namespace Instant

theorem read?_chars (t : Instant) : Instant.read? t.chars = some t.asRead := by
  have hwhole : Time.whole (do let f ← Time.laxFields; Time.literal 'Z'; return f) t.chars =
      some (Time.shown t) := by
    unfold Time.whole chars
    rw [List.append_assoc, List.cons_append,
      Time.bind_eq (Time.laxFields_chars t (Time.ends_cons (by decide) _)),
      Time.bind_eq (Time.literal_cons _ _)]
    rfl
  unfold read? Time.canonical?
  simp only
  rw [Text.trim_of_no_blank (Time.not_blank_instant t), hwhole]
  show ((Time.shown t).instant? 0 <|> _) = _
  rw [Time.instant?_shown]
  rfl

theorem parse_text (t : Instant) : Instant.parse t.text = .ok t.asRead := by
  unfold Instant.parse text
  rw [String.toList_ofList, read?_chars]

end Instant

namespace Date

theorem read?_chars (d : Date) : Date.read? d.chars = some d := by
  unfold Date.read?
  simp only
  rw [Text.trim_of_no_blank (Time.not_blank_date d)]
  have hwhole : Time.whole Time.laxCivil d.chars = some d.civil := by
    unfold Time.whole
    have h := Time.laxCivil_chars d []
    rw [List.append_nil] at h
    rw [h]
  rw [hwhole]
  show (Date.ofCivil? d.civil <|> _) = _
  rw [Date.ofCivil?_civil]
  rfl

/-- The text of a date is read as the date. -/
theorem parse_text (d : Date) : Date.parse d.text = .ok d := by
  unfold Date.parse Date.text
  rw [String.toList_ofList, read?_chars]

end Date

end GardenMap
