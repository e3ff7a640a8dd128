import GardenMap.Proofs.Text.Bytes
import GardenMap.Proofs.Time.Text

/-!
# Canonical texts in the order of time

In the years 0 to 9999 canonical texts are ordered as the instants that they are read as
(`Instant.text_lt_text_iff`), and so are their bytes (`Instant.bytes_text_chronological`). On the
clock these are the instants cut to milliseconds. A leap second within a minute shares its text with
a later instant (`Instant.leap_within_minute_shares_text`). Texts of all other years have a sign and
sort below them (`Instant.text_lt_of_signed`), those of later years too.

Proof. Every number of such a text fills its width, so the texts are compared number by number
(`padded_append_lt_iff`). Day and clock decide in that order. Years, months and days decide as the
days do, since the days of a year stay before the next year (`dayNumber_lt_dayNumber`), and hours,
minutes, seconds and milliseconds decide as the seconds of the day do, with the leap second last.
-/

namespace GardenMap

/-! ## Numbers of one width -/

namespace Calendar

theorem append_lt_append_iff {ds es : List Char} (hlen : ds.length = es.length) (s t : List Char) :
    ds ++ s < es ++ t ↔ ds < es ∨ ds = es ∧ s < t := by
  induction ds generalizing es with
  | nil =>
    obtain rfl : es = [] := List.eq_nil_of_length_eq_zero hlen.symm
    simp
  | cons c ds ih =>
    obtain ⟨d, es, rfl⟩ := List.exists_cons_of_length_eq_add_one hlen.symm
    rw [List.cons_append, List.cons_append, List.cons_lt_cons_iff, List.cons_lt_cons_iff,
      List.cons.injEq, ih (by simpa using hlen), and_or_left, or_assoc, and_assoc]

theorem ofDigitChars_lt_iff {ds es : List Char} (hds : AllDigits ds) (hes : AllDigits es)
    (hlen : ds.length = es.length) (x y : Nat) :
    Nat.ofDigitChars 10 ds x < Nat.ofDigitChars 10 es y ↔ x < y ∨ x = y ∧ ds < es := by
  induction ds generalizing es x y with
  | nil =>
    obtain rfl : es = [] := List.eq_nil_of_length_eq_zero hlen.symm
    simp [Nat.ofDigitChars]
  | cons c ds ih =>
    obtain ⟨d, es, rfl⟩ := List.exists_cons_of_length_eq_add_one hlen.symm
    have hc := (isDigit_iff c).1 (hds c List.mem_cons_self)
    have hd := (isDigit_iff d).1 (hes d List.mem_cons_self)
    have hlt : c < d ↔ c.toNat < d.toNat := Char.lt_def.trans UInt32.lt_iff_toNat_lt
    have heq : c = d ↔ c.toNat = d.toNat :=
      ⟨fun h => h ▸ rfl, fun h => Char.ext (UInt32.toNat_inj.1 h)⟩
    have hzero : '0'.toNat = 48 := rfl
    rw [Nat.ofDigitChars_cons, Nat.ofDigitChars_cons, List.cons_lt_cons_iff, hlt, heq,
      ih (fun b hb => hds b (List.mem_cons_of_mem c hb))
        (fun b hb => hes b (List.mem_cons_of_mem d hb)) (by simpa using hlen), hzero]
    by_cases hrest : ds < es
    · simp only [hrest, and_true]
      omega
    · simp only [hrest, and_false, or_false]
      omega

/-- Numbers that fill one width decide the order of texts before what comes after them. -/
theorem padded_append_lt_iff {width n m : Nat} (hw : 0 < width) (hn : n < Nat.pow 10 width)
    (hm : m < Nat.pow 10 width) (s t : List Char) :
    padded width n ++ s < padded width m ++ t ↔ n < m ∨ n = m ∧ s < t := by
  have hlen : (padded width n).length = (padded width m).length := by
    rw [length_padded hw hn, length_padded hw hm]
  have hnumbers := ofDigitChars_lt_iff (allDigits_padded width n) (allDigits_padded width m) hlen 0 0
  rw [ofDigitChars_padded, ofDigitChars_padded] at hnumbers
  have heq : padded width n = padded width m ↔ n = m := by
    refine ⟨fun h => ?_, fun h => h ▸ rfl⟩
    have hread := congrArg (Nat.ofDigitChars 10 · 0) h
    simpa only [ofDigitChars_padded] using hread
  rw [append_lt_append_iff hlen, heq, hnumbers]
  simp only [Nat.lt_irrefl, false_or, true_and]

/-! ## Days -/

/-- The order of civil dates: year, then month, then day. -/
def Before (c e : Civil) : Prop :=
  c.year < e.year ∨ c.year = e.year ∧ (c.month < e.month ∨ c.month = e.month ∧ c.day < e.day)

/-- The days of whole years that start in March, from year 0 on. -/
def daysBefore (year : Int) : Int := 365 * year + year / 4 - year / 100 + year / 400

theorem daysBefore_add_one (year : Int) :
    daysBefore (year + 1) = daysBefore year + 365 + if isLeap (year + 1) then 1 else 0 := by
  unfold daysBefore isLeap
  split
  · next h =>
    simp only [Bool.and_eq_true, Bool.or_eq_true, bne_iff_ne, beq_iff_eq, ne_eq] at h
    omega
  · next h =>
    simp only [Bool.and_eq_true, Bool.or_eq_true, bne_iff_ne, beq_iff_eq, ne_eq] at h
    omega

theorem daysBefore_le {y z : Int} (h : y ≤ z) : daysBefore y ≤ daysBefore z := by
  unfold daysBefore
  omega

/-- The days of a year that starts in March before its month number `m`, from 0. -/
def monthStart (m : Nat) : Nat := (153 * m + 2) / 5

theorem monthStart_le {m n : Nat} (h : m ≤ n) : monthStart m ≤ monthStart n := by
  unfold monthStart
  omega

theorem monthLength_le (year : Int) {m : Nat} (h0 : 0 < m) (h12 : m ≤ 12) (h2 : m ≠ 2) :
    monthStart ((m + 9) % 12) + monthLength year m ≤ monthStart ((m + 9) % 12 + 1) := by
  have h : ∀ m < 13, 0 < m → m ≠ 2 →
      monthStart ((m + 9) % 12) +
        (if m = 4 || m = 6 || m = 9 || m = 11 then 30 else 31) ≤
          monthStart ((m + 9) % 12 + 1) := by decide
  unfold monthLength
  rw [if_neg h2]
  exact h m (by omega) h0 h2

/-- The year of a civil date when years start in March. -/
def marchYear (c : Civil) : Int := if c.month ≤ 2 then c.year - 1 else c.year

/-- The day of a civil date within a year that starts in March. -/
def marchDay (c : Civil) : Int := monthStart ((c.month + 9) % 12) + c.day - 1

theorem dayNumber_eq (c : Civil) :
    dayNumber c = daysBefore (marchYear c) + marchDay c - 719468 := by
  unfold dayNumber marchYear marchDay daysBefore monthStart
  simp only
  omega

theorem bounds_of_isValid {c : Civil} (h : isValid c = true) :
    1 ≤ c.month ∧ c.month ≤ 12 ∧ 1 ≤ c.day ∧ c.day ≤ monthLength c.year c.month := by
  unfold isValid at h
  simpa only [Bool.and_eq_true, decide_eq_true_eq, and_assoc] using h

theorem marchDay_bounds {c : Civil} (h : isValid c = true) :
    0 ≤ marchDay c ∧ marchDay c < 365 + if isLeap (marchYear c + 1) then 1 else 0 := by
  obtain ⟨h1, h12, hday, hlength⟩ := bounds_of_isValid h
  unfold marchDay
  refine ⟨by omega, ?_⟩
  -- February comes last, so it is the only month whose length counts
  by_cases h2 : c.month = 2
  · have hyear : marchYear c + 1 = c.year := by
      unfold marchYear
      rw [if_pos (Nat.le_of_eq h2)]
      omega
    have hstart : monthStart ((c.month + 9) % 12) = 337 := by rw [h2]; rfl
    rw [h2, monthLength, if_pos rfl] at hlength
    rw [hyear, hstart]
    by_cases hleap : isLeap c.year = true
    · rw [if_pos hleap] at hlength ⊢
      omega
    · rw [if_neg hleap] at hlength ⊢
      omega
  · have hnext := monthLength_le c.year h1 h12 h2
    have hlast := monthStart_le (show (c.month + 9) % 12 + 1 ≤ 11 by omega)
    have h337 : monthStart 11 = 337 := rfl
    split <;> omega

theorem march_lt {c e : Civil} (hc : isValid c = true) (he : isValid e = true)
    (h : Before c e) :
    marchYear c < marchYear e ∨ marchYear c = marchYear e ∧ marchDay c < marchDay e := by
  obtain ⟨h1, h12, hday, hlength⟩ := bounds_of_isValid hc
  obtain ⟨g1, g12, gday, -⟩ := bounds_of_isValid he
  have horder : marchYear c < marchYear e ∨ marchYear c = marchYear e ∧
      ((c.month + 9) % 12 < (e.month + 9) % 12 ∨
        (c.month + 9) % 12 = (e.month + 9) % 12 ∧ c.day < e.day) := by
    unfold Before at h
    unfold marchYear
    split <;> split <;> omega
  unfold marchDay
  rcases horder with hyear | ⟨hyear, hmonth | ⟨hmonth, hday⟩⟩
  · exact .inl hyear
  · have hnext := monthLength_le c.year h1 h12 (by omega)
    have hle := monthStart_le (show (c.month + 9) % 12 + 1 ≤ (e.month + 9) % 12 from hmonth)
    exact .inr ⟨hyear, by omega⟩
  · exact .inr ⟨hyear, by rw [hmonth]; omega⟩

/-- Of two valid civil dates the earlier one names the earlier day. -/
theorem dayNumber_lt_dayNumber {c e : Civil} (hc : isValid c = true) (he : isValid e = true)
    (h : Before c e) : dayNumber c < dayNumber e := by
  obtain ⟨-, hlast⟩ := marchDay_bounds hc
  obtain ⟨hfirst, -⟩ := marchDay_bounds he
  rw [dayNumber_eq, dayNumber_eq]
  rcases march_lt hc he h with hyear | ⟨hyear, hday⟩
  · have hnext := daysBefore_add_one (marchYear c)
    have hle := daysBefore_le (show marchYear c + 1 ≤ marchYear e by omega)
    omega
  · rw [hyear]
    omega

theorem civilOf_eq_civilOf_iff (a b : Int) : civilOf a = civilOf b ↔ a = b :=
  ⟨fun h => by simpa only [dayNumber_civilOf] using congrArg dayNumber h, fun h => h ▸ rfl⟩

theorem before_civilOf_iff (a b : Int) : Before (civilOf a) (civilOf b) ↔ a < b := by
  have hlt : ∀ a b, Before (civilOf a) (civilOf b) → a < b := fun a b h => by
    simpa only [dayNumber_civilOf] using
      dayNumber_lt_dayNumber (isValid_civilOf a) (isValid_civilOf b) h
  refine ⟨hlt a b, fun h => ?_⟩
  -- two civil dates are in one of three orders, and the other two contradict the days
  have htotal : Before (civilOf a) (civilOf b) ∨ Before (civilOf b) (civilOf a) ∨
      civilOf a = civilOf b := by
    unfold Before
    generalize civilOf a = c
    generalize civilOf b = e
    obtain ⟨year, month, day⟩ := c
    obtain ⟨year', month', day'⟩ := e
    simp only [Civil.mk.injEq]
    omega
  rcases htotal with hbefore | hafter | heq
  · exact hbefore
  · exact absurd (hlt b a hafter) (by omega)
  · exact absurd ((civilOf_eq_civilOf_iff a b).1 heq) (by omega)

end Calendar

/-! ## Texts -/

open Calendar

namespace Date

/-- The year has four digits and no sign. -/
def HasPlainYear (d : Date) : Prop := 0 ≤ d.civil.year ∧ d.civil.year ≤ 9999

theorem chars_append_lt_iff {a b : Date} (ha : a.HasPlainYear) (hb : b.HasPlainYear)
    (s t : List Char) :
    a.chars ++ s < b.chars ++ t ↔ a.day < b.day ∨ a.day = b.day ∧ s < t := by
  obtain ⟨hmonthA, hdayA⟩ := Time.civil_bounds a
  obtain ⟨hmonthB, hdayB⟩ := Time.civil_bounds b
  obtain ⟨ha0, ha9999⟩ := ha
  obtain ⟨hb0, hb9999⟩ := hb
  have hyears : a.civil.year.toNat < Nat.pow 10 4 ∧ b.civil.year.toNat < Nat.pow 10 4 := by
    show _ < 10000 ∧ _ < 10000
    omega
  have hdays : a.day < b.day ∨ a.day = b.day ∧ s < t ↔
      Before a.civil b.civil ∨ a.civil = b.civil ∧ s < t := by
    rw [← before_civilOf_iff, ← civilOf_eq_civilOf_iff]
    exact Iff.rfl
  unfold chars
  simp only [yearText_of_range ha0 ha9999, yearText_of_range hb0 hb9999, List.append_assoc,
    List.cons_append]
  rw [padded_append_lt_iff (by decide) hyears.1 hyears.2, List.cons_lt_cons_iff,
    padded_append_lt_iff (by decide) hmonthA hmonthB, List.cons_lt_cons_iff,
    padded_append_lt_iff (by decide) hdayA hdayB, hdays]
  generalize a.civil = c at *
  generalize b.civil = e at *
  obtain ⟨year, month, day⟩ := c
  obtain ⟨year', month', day'⟩ := e
  unfold Before
  simp only [Civil.mk.injEq, Char.lt_irrefl, false_or, true_and] at ha0 hb0 ⊢
  by_cases hst : s < t
  · simp only [hst, and_true]
    omega
  · simp only [hst, and_false, or_false]
    omega

end Date

namespace Instant

theorem compare_lt_iff (a b : Instant) :
    compare a b = .lt ↔ a.second < b.second ∨ a.second = b.second ∧ a.nano < b.nano := by
  show (compare a.second b.second).then (compare a.nano b.nano) = .lt ↔ _
  rw [Ordering.then_eq_lt, Int.compare_eq_lt, Int.compare_eq_eq, Nat.compare_eq_lt]

theorem cut_nano {t : Instant} (hclock : t.OnClock) :
    t.cut.nano = ((if t.isLeap then 1 else 0) * 1000 + t.subsecond / 1000000) * 1000000 ∧
      ((if t.isLeap then 1 else 0) = 0 ∨
        (if t.isLeap then 1 else 0) = 1 ∧ t.secondOfDay % 60 = 59) := by
  have hleap := Time.leap_bounds t
  obtain ⟨-, hmod⟩ := Time.secondOfDay_eq t
  unfold cut subsecond secondNanos
  simp only
  cases hl : t.isLeap with
  | true =>
    have h59 := hclock hl
    rw [hl, if_pos rfl] at hleap
    simp only [if_true]
    exact ⟨by omega, .inr ⟨trivial, by omega⟩⟩
  | false =>
    rw [hl, if_neg Bool.false_ne_true] at hleap
    simp only [Bool.false_eq_true, if_false]
    exact ⟨by omega, .inl trivial⟩

theorem secondOfDay_sum (t : Instant) :
    t.secondOfDay = t.secondOfDay / 3600 * 3600 + t.secondOfDay / 60 % 60 * 60
      + t.secondOfDay % 60 := by
  omega

/-- Hour, minute and second decide as the second of the day does, and a leap second comes after
every other fraction of its minute. -/
theorem clock_lt_iff {a b : Instant} (hclockA : a.OnClock) (hclockB : b.OnClock) :
    a.clockChars ++ ['Z'] < b.clockChars ++ ['Z'] ↔
      a.secondOfDay < b.secondOfDay ∨
        a.secondOfDay = b.secondOfDay ∧ a.cut.nano < b.cut.nano := by
  obtain ⟨hhourA, hminuteA, hsecondA, hmilliA⟩ := Time.clock_bounds a
  obtain ⟨hhourB, hminuteB, hsecondB, hmilliB⟩ := Time.clock_bounds b
  unfold clockChars
  simp only [List.append_assoc, List.cons_append]
  rw [padded_append_lt_iff (by decide) (by show _ < 100; omega) (by show _ < 100; omega),
    List.cons_lt_cons_iff,
    padded_append_lt_iff (by decide) (by show _ < 100; omega) (by show _ < 100; omega),
    List.cons_lt_cons_iff, padded_append_lt_iff (by decide) hsecondA hsecondB,
    List.cons_lt_cons_iff, padded_append_lt_iff (by decide) hmilliA hmilliB]
  simp only [Char.lt_irrefl, List.lt_irrefl, false_or, true_and, and_false, or_false]
  have hA := cut_nano hclockA
  have hB := cut_nano hclockB
  generalize (if a.isLeap then 1 else 0) = leapA at *
  generalize (if b.isLeap then 1 else 0) = leapB at *
  have hsumA := secondOfDay_sum a
  have hsumB := secondOfDay_sum b
  generalize a.secondOfDay / 3600 = hourA at *
  generalize b.secondOfDay / 3600 = hourB at *
  generalize a.secondOfDay / 60 % 60 = minuteA at *
  generalize b.secondOfDay / 60 % 60 = minuteB at *
  omega

theorem text_lt_text_iff_of_onClock {a b : Instant} (ha : a.date.HasPlainYear)
    (hb : b.date.HasPlainYear) (hclockA : a.OnClock) (hclockB : b.OnClock) :
    a.text < b.text ↔ compare a.cut b.cut = .lt := by
  obtain ⟨hsecondA, -⟩ := Time.secondOfDay_eq a
  obtain ⟨hsecondB, -⟩ := Time.secondOfDay_eq b
  have hdayA : a.secondOfDay < 86400 := by
    have := (Time.clock_bounds a).1
    omega
  have hdayB : b.secondOfDay < 86400 := by
    have := (Time.clock_bounds b).1
    omega
  have hcutA : a.cut.second = a.second := rfl
  have hcutB : b.cut.second = b.second := rfl
  rw [String.lt_iff]
  unfold text
  rw [String.toList_ofList, String.toList_ofList]
  unfold chars
  rw [List.append_assoc, List.append_assoc, Date.chars_append_lt_iff ha hb, List.cons_append,
    List.cons_append, List.cons_lt_cons_iff, clock_lt_iff hclockA hclockB, compare_lt_iff, hcutA,
    hcutB]
  simp only [Char.lt_irrefl, false_or, true_and]
  omega

/-- One canonical text with a plain year sorts below another when it is read as an earlier
instant. -/
theorem text_lt_text_iff {a b : Instant} (ha : a.date.HasPlainYear) (hb : b.date.HasPlainYear) :
    a.text < b.text ↔ compare a.asRead b.asRead = .lt := by
  rw [← date_asRead a] at ha
  rw [← date_asRead b] at hb
  have horder := text_lt_text_iff_of_onClock ha hb (onClock_asRead a) (onClock_asRead b)
  rwa [text_asRead, text_asRead, cut_of_isWhole (isWhole_asRead a),
    cut_of_isWhole (isWhole_asRead b)] at horder

/-- A sign sorts below every digit, so a text with a signed year sorts below the plain ones,
whichever sign it is. -/
theorem text_lt_of_signed {a b : Instant} (ha : ¬a.date.HasPlainYear) (hb : b.date.HasPlainYear) :
    a.text < b.text := by
  obtain ⟨c, s, hs⟩ := List.exists_cons_of_ne_nil (padded_ne_nil 4 b.date.civil.year.toNat)
  have hdigit : c.isDigit = true :=
    allDigits_padded 4 b.date.civil.year.toNat c (hs ▸ List.mem_cons_self)
  have hsign : ∀ sign : Char, sign.toNat < 48 → sign < c := fun sign h => by
    have := (isDigit_iff c).1 hdigit
    refine Char.lt_def.2 (UInt32.lt_iff_toNat_lt.2 ?_)
    show sign.toNat < c.toNat
    omega
  have hyear : yearText a.date.civil.year = (if a.date.civil.year < 0 then '-' else '+') ::
      padded 4 a.date.civil.year.natAbs := by
    refine if_neg fun h => ha ?_
    simp only [Bool.and_eq_true, decide_eq_true_eq] at h
    exact h
  rw [String.lt_iff]
  unfold text
  rw [String.toList_ofList, String.toList_ofList]
  unfold chars Date.chars
  simp only [hyear, yearText_of_range hb.1 hb.2, hs, List.cons_append, List.cons_lt_cons_iff]
  left
  split
  · exact hsign '-' (by decide)
  · exact hsign '+' (by decide)

theorem compare_lt_of_year_lt {a b : Instant} (h : a.date.civil.year < b.date.civil.year) :
    compare a b = .lt := by
  have hday : a.date.day < b.date.day := (before_civilOf_iff _ _).1 (.inl h)
  obtain ⟨hsecondA, -⟩ := Time.secondOfDay_eq a
  obtain ⟨hsecondB, -⟩ := Time.secondOfDay_eq b
  have hclock := (Time.clock_bounds a).1
  rw [compare_lt_iff]
  omega

end Instant

end GardenMap
