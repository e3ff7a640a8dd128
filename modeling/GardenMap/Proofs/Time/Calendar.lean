import GardenMap.Time.Instant

/-!
# Days and civil dates

A day and its civil date determine each other (`dayNumber_civilOf`, `isValid_civilOf`).

Proof. A day count, from 1 March of year 0, splits into cycles of 400 years, centuries, leap cycles,
years and days, `Split`. The days up to a year that starts in March are linear in these parts
(`days_of_parts`), and months within such a year are one linear formula as well.
-/

namespace GardenMap

namespace Calendar

/-- The parts of a day count: cycles, centuries, leap cycles, years, and days of the last year. -/
structure Split where
  cycle : Int
  century : Int
  leapCycle : Int
  year : Int
  day : Int

/-- The year that the parts name, from March to February. -/
def Split.fromMarch (p : Split) : Int :=
  400 * p.cycle + 100 * p.century + 4 * p.leapCycle + p.year

/-- The parts as they may be: only the last year of a leap cycle has a day 365, and only when no
century cuts that leap cycle short. -/
structure Split.Proper (p : Split) : Prop where
  century : 0 ≤ p.century ∧ p.century ≤ 3
  leapCycle : 0 ≤ p.leapCycle ∧ p.leapCycle ≤ 24
  year : 0 ≤ p.year ∧ p.year ≤ 3
  day : 0 ≤ p.day ∧ p.day ≤ 365
  leapDay : p.day = 365 → p.year = 3 ∧ (p.leapCycle = 24 → p.century = 3)

def split (n : Int) : Split :=
  let inCycle := n % 146097
  let century := min (inCycle / 36524) 3
  let inCentury := inCycle - 36524 * century
  let inLeapCycle := inCentury % 1461
  let year := min (inLeapCycle / 365) 3
  ⟨n / 146097, century, inCentury / 1461, year, inLeapCycle - 365 * year⟩

theorem split_proper (n : Int) : (split n).Proper := by
  have h0 := Int.emod_nonneg n (show (146097 : Int) ≠ 0 by decide)
  have h1 := Int.emod_lt_of_pos n (show (0 : Int) < 146097 by decide)
  unfold split
  generalize n % 146097 = c at h0 h1
  refine ⟨?_, ?_, ?_, ?_, ?_⟩ <;> simp only <;> omega

theorem split_sum (n : Int) :
    146097 * (split n).cycle + 36524 * (split n).century + 1461 * (split n).leapCycle
      + 365 * (split n).year + (split n).day = n := by
  unfold split
  simp only
  omega

/-- The days before a year, counted from 1 March of year 0. -/
theorem days_of_parts {p : Split} (hp : p.Proper) :
    365 * p.fromMarch + p.fromMarch / 4 - p.fromMarch / 100 + p.fromMarch / 400
      = 146097 * p.cycle + 36524 * p.century + 1461 * p.leapCycle + 365 * p.year := by
  obtain ⟨hc, hl, hy, -, -⟩ := hp
  have h4 : p.fromMarch / 4 = 100 * p.cycle + 25 * p.century + p.leapCycle := by
    unfold Split.fromMarch
    omega
  have h100 : p.fromMarch / 100 = 4 * p.cycle + p.century := by
    unfold Split.fromMarch
    omega
  have h400 : p.fromMarch / 400 = p.cycle := by
    unfold Split.fromMarch
    omega
  rw [h4, h100, h400]
  unfold Split.fromMarch
  omega

theorem isLeap_of_leapDay {p : Split} (hp : p.Proper) (h : p.day = 365) :
    isLeap (p.fromMarch + 1) = true := by
  obtain ⟨hc, hl, hy, -, hleap⟩ := hp
  obtain ⟨hyear, hcut⟩ := hleap h
  have h4 : (p.fromMarch + 1) % 4 = 0 := by
    unfold Split.fromMarch
    omega
  have h100 : (p.fromMarch + 1) % 100 = 0 → (p.fromMarch + 1) % 400 = 0 := by
    unfold Split.fromMarch
    omega
  unfold isLeap
  rw [h4]
  by_cases hz : (p.fromMarch + 1) % 100 = 0
  · simp [h100 hz]
  · simp [hz]

/-- The month, from March on, of a day of a year that starts in March. -/
def monthFromMarch (day : Int) : Int := (5 * day + 2) / 153

/-- The civil date of the parts of a day count. -/
def Split.civil (p : Split) : Civil :=
  let month := monthFromMarch p.day
  let day := p.day - (153 * month + 2) / 5 + 1
  if month < 10 then ⟨p.fromMarch, (month + 3).toNat, day.toNat⟩
  else ⟨p.fromMarch + 1, (month - 9).toNat, day.toNat⟩

theorem civilOf_eq (n : Int) : civilOf n = (split (n + 719468)).civil := rfl

theorem dayNumber_civil {p : Split} (hp : p.Proper) :
    dayNumber p.civil = 146097 * p.cycle + 36524 * p.century + 1461 * p.leapCycle + 365 * p.year
      + p.day - 719468 := by
  have hdays := days_of_parts hp
  have hd := hp.day
  unfold Split.civil monthFromMarch
  simp only
  split
  · next hm =>
    have hmonth : ((((5 * p.day + 2) / 153 + 3).toNat + 9) % 12 : Nat) =
        (5 * p.day + 2) / 153 := by omega
    unfold dayNumber
    rw [if_neg (by simp only; omega)]
    simp only [hmonth]
    omega
  · next hm =>
    have hmonth : ((((5 * p.day + 2) / 153 - 9).toNat + 9) % 12 : Nat) =
        (5 * p.day + 2) / 153 := by omega
    unfold dayNumber
    rw [if_pos (by simp only; omega)]
    simp only [hmonth]
    omega

theorem isValid_of_day {d : Int} (hd : 0 ≤ d ∧ d ≤ 365) {c : Civil}
    (hmonth : (c.month : Int) =
      if monthFromMarch d < 10 then monthFromMarch d + 3 else monthFromMarch d - 9)
    (hday : (c.day : Int) = d - (153 * monthFromMarch d + 2) / 5 + 1)
    (hleap : d = 365 → isLeap c.year = true) : isValid c = true := by
  obtain ⟨year, month, day⟩ := c
  simp only at hmonth hday hleap
  obtain ⟨m, hm⟩ : ∃ m, m = monthFromMarch d := ⟨_, rfl⟩
  rw [← hm] at hmonth hday
  unfold monthFromMarch at hm
  have hlength : day ≤ monthLength year month := by
    unfold monthLength
    by_cases h2 : month = 2
    · have hm11 : m = 11 := by omega
      rw [if_pos h2]
      cases hl : isLeap year with
      | true =>
        rw [if_pos rfl]
        omega
      | false =>
        have hne : d ≠ 365 := fun h => by rw [hleap h] at hl; cases hl
        rw [if_neg Bool.false_ne_true]
        omega
    · rw [if_neg h2]
      split
      · next h30 =>
        simp only [Bool.or_eq_true, decide_eq_true_eq] at h30
        omega
      · omega
  unfold isValid
  simp only [Bool.and_eq_true, decide_eq_true_eq]
  refine ⟨⟨⟨?_, ?_⟩, ?_⟩, hlength⟩ <;> omega

theorem isValid_civil {p : Split} (hp : p.Proper) : isValid p.civil = true := by
  have hd := hp.day
  have h11 : 0 ≤ monthFromMarch p.day ∧ monthFromMarch p.day ≤ 11 := by
    unfold monthFromMarch
    omega
  have hday : 1 ≤ p.day - (153 * monthFromMarch p.day + 2) / 5 + 1 := by
    unfold monthFromMarch
    omega
  unfold Split.civil
  simp only
  split
  · next hm =>
    refine isValid_of_day hd ?_ ?_ fun h => ?_
    · rw [if_pos hm]
      simp only
      omega
    · simp only
      omega
    · rw [h] at hm
      exact absurd hm (by decide)
  · next hm =>
    refine isValid_of_day hd ?_ ?_ (isLeap_of_leapDay hp)
    · rw [if_neg hm]
      simp only
      omega
    · simp only
      omega

/-- A day has a civil date. -/
theorem isValid_civilOf (n : Int) : isValid (civilOf n) = true := by
  rw [civilOf_eq]
  exact isValid_civil (split_proper _)

/-- The civil date of a day names that day. -/
theorem dayNumber_civilOf (n : Int) : dayNumber (civilOf n) = n := by
  have hsum := split_sum (n + 719468)
  rw [civilOf_eq, dayNumber_civil (split_proper _)]
  omega

end Calendar

theorem Date.ofCivil?_civil (d : Date) : Date.ofCivil? d.civil = some d := by
  unfold Date.ofCivil? Date.civil
  rw [if_pos (Calendar.isValid_civilOf d.day), Calendar.dayNumber_civilOf]
  unfold Date.ofDay?
  rw [dif_pos d.inCalendar]

end GardenMap
