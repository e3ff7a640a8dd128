import GardenMap.Farm.Weather
import GardenMap.Proofs.Record.Keys
import GardenMap.Proofs.Time.Order
import GardenMap.Proofs.Time.Spans

/-!
# Pruning

Readings are dropped by comparing the text of their hour with the text of the limit. While the limit
is in the year 9999 or earlier, that drops the readings at or before the limit and no others. A limit
in a later year has a sign in its text and sorts below every reading, so nothing is dropped
(`pruneWeather_eq`).

Proof. The two guards on the age never decide: an age that they refuse leads out of the calendar
anyway. Then one reading is judged in three cases, by the year of the limit.
-/

namespace GardenMap.Farm

/-- Readings are kept under canonical texts of instants in the years 0 to 9999. -/
def HasPlainHours (log : WeatherLog) : Prop :=
  ∀ e ∈ log, ∃ t : Instant, t.date.HasPlainYear ∧ e.1 = .str t.text

/-- The limit of an age in hours: one hour more than that before now, if the calendar has it. -/
def limitOf? (now : Instant) (maxAge : Option Int) : Option Instant :=
  now.sub? ⟨(maxAge.getD defaultMaxAge + 1) * 3600⟩

/-- Whether the instant under which a reading is kept is at or before a limit, as its text has it. -/
def isPast (limit : Instant) (key : MapKey) : Bool :=
  match Instant.parse key.text with
  | .ok t => (compare t limit.asRead).isLE
  | .error _ => false

/-! ## Limits -/

theorem sub?_eq_none (t : Instant) {n : Int} (h : Span.ofSeconds? n = none) :
    t.sub? ⟨n⟩ = none := by
  have hfar : ¬(-Span.most ≤ n ∧ n ≤ Span.most) := fun hin => by
    unfold Span.ofSeconds? at h
    rw [if_pos (by simpa only [Bool.and_eq_true, decide_eq_true_eq] using hin)] at h
    cases h
  have hnow := t.second_bounds
  refine (t.add?_eq_none_iff ⟨-n⟩).2 ?_
  unfold Calendar.firstSecond Calendar.endSecond Calendar.firstDay Calendar.lastDay
    Calendar.daySeconds at hnow
  unfold Instant.LeavesCalendar Instant.secondAfter Calendar.firstSecond Calendar.endSecond
    Calendar.firstDay Calendar.lastDay Calendar.daySeconds
  unfold Span.most at hfar
  simp only
  split <;> omega

theorem pruneLimit?_eq (now : Instant) (maxAge : Option Int) :
    pruneLimit? now maxAge = limitOf? now maxAge := by
  unfold pruneLimit? limitOf?
  generalize maxAge.getD defaultMaxAge + 1 = hours
  show (if (!Decimal.fitsInt hours) = true then none
    else (TimeUnit.hour.times? hours).bind now.sub?) = now.sub? ⟨hours * 3600⟩
  cases hfits : Decimal.fitsInt hours with
  | true =>
    show (Span.ofSeconds? (hours * 3600)).bind now.sub? = _
    cases hspan : Span.ofSeconds? (hours * 3600) with
    | none => exact (sub?_eq_none now hspan).symm
    | some age =>
      obtain ⟨-, rfl⟩ := Option.ite_some_none_eq_some.1 hspan
      rfl
  | false =>
    -- hours beyond 64 bits are beyond every span in seconds too
    refine (sub?_eq_none now (if_neg fun hin => ?_)).symm
    have hout : ¬Decimal.minInt ≤ hours ∨ ¬hours ≤ Decimal.maxInt := by
      simpa only [Decimal.fitsInt, Bool.and_eq_false_iff, decide_eq_false_iff_not] using hfits
    simp only [Bool.and_eq_true, decide_eq_true_eq] at hin
    unfold Decimal.minInt Decimal.maxInt at hout
    unfold Span.most at hin
    omega

/-! ## One reading -/

theorem isPast_text (limit t : Instant) :
    isPast limit (.str t.text) = !decide (compare limit.asRead t.asRead = .lt) := by
  have hread : isPast limit (.str t.text) = (compare t.asRead limit.asRead).isLE := by
    unfold isPast
    rw [show MapKey.text (.str t.text) = t.text from rfl, Instant.parse_text]
  rw [hread, Std.OrientedOrd.eq_swap (α := Instant)]
  cases compare limit.asRead t.asRead <;> rfl

theorem keeps_iff {limit t : Instant} (hlimit : limit.date.civil.year ≤ 9999)
    (ht : t.date.HasPlainYear) :
    limit.text < t.text ↔ compare limit.asRead t.asRead = .lt := by
  by_cases hneg : limit.date.civil.year < 0
  · -- the sign sorts low, as it should: the limit is before every reading
    have hsigned : ¬limit.date.HasPlainYear := fun h => Int.not_lt.2 h.1 hneg
    have hyear : limit.date.civil.year < t.date.civil.year := Int.lt_of_lt_of_le hneg ht.1
    rw [← limit.date_asRead, ← t.date_asRead] at hyear
    exact ⟨fun _ => Instant.compare_lt_of_year_lt hyear,
      fun _ => Instant.text_lt_of_signed hsigned ht⟩
  · exact Instant.text_lt_text_iff ⟨Int.not_lt.1 hneg, hlimit⟩ ht

/-! ## Logs -/

/-- Pruning a log of plain hours. With no limit in the calendar the log stays. A limit in the year
9999 or earlier drops the readings at or before it, and counts them. A later one drops nothing. -/
theorem pruneWeather_eq {log : WeatherLog} (hlog : HasPlainHours log) (now : Instant)
    (maxAge : Option Int) :
    pruneWeather log now maxAge =
      match limitOf? now maxAge with
      | none => (log, 0)
      | some limit =>
        if limit.date.civil.year ≤ 9999 then
          (log.filter fun e => !isPast limit e.1, log.countP fun e => isPast limit e.1)
        else (log, 0) := by
  unfold pruneWeather
  rw [pruneLimit?_eq]
  cases limitOf? now maxAge with
  | none => rfl
  | some limit =>
    simp only
    split
    · next hlimit =>
      have hkeep : (log.filter fun e => decide (limit.text < e.1.text)) =
          log.filter fun e => !isPast limit e.1 :=
        List.filter_congr fun e he => by
          obtain ⟨t, ht, hkey⟩ := hlog e he
          rw [hkey, isPast_text, Bool.not_not]
          exact decide_eq_decide.2 (keeps_iff hlimit ht)
      have hcount : log.length =
          log.countP (fun e => isPast limit e.1) + log.countP fun e => !isPast limit e.1 := by
        simpa only [Bool.not_eq_true, Bool.decide_eq_false] using
          List.length_eq_countP_add_countP (l := log) fun e => isPast limit e.1
      rw [hkeep, ← List.countP_eq_length_filter]
      congr 1
      omega
    · next hlimit =>
      have hkeep : (log.filter fun e => decide (limit.text < e.1.text)) = log :=
        List.filter_eq_self.2 fun e he => by
          obtain ⟨t, ht, hkey⟩ := hlog e he
          rw [hkey]
          exact decide_eq_true (Instant.text_lt_of_signed (fun h => hlimit h.2) ht)
      rw [hkeep, Nat.sub_self]

/-- 2024-06-01T03:00:00Z. -/
def firstOfJune : Instant := ⟨1717210800, 0, by decide⟩

/-- 2024-06-10T12:00:00Z. -/
def tenthOfJune : Instant := ⟨1718020800, 0, by decide⟩

/-- A log with a place for two hours of June 2024. -/
def juneLog : WeatherLog := [(.str firstOfJune.text, .null), (.str tenthOfJune.text, .null)]

theorem mem_juneLog {e : MapKey × Value} (he : e ∈ juneLog) :
    e = (.str firstOfJune.text, .null) ∨ e = (.str tenthOfJune.text, .null) := by
  simpa only [juneLog, List.mem_cons, List.not_mem_nil, or_false] using he

theorem hasPlainHours_juneLog : HasPlainHours juneLog := by
  intro e he
  rcases mem_juneLog he with rfl | rfl
  · exact ⟨firstOfJune, by unfold Date.HasPlainYear; decide +kernel, rfl⟩
  · exact ⟨tenthOfJune, by unfold Date.HasPlainYear; decide +kernel, rfl⟩

theorem pruneWeather_eq_juneLog :
    HasPlainHours juneLog ∧
      pruneWeather juneLog tenthOfJune none = ([(.str tenthOfJune.text, .null)], 1) := by
  refine ⟨hasPlainHours_juneLog, (pruneWeather_eq hasPlainHours_juneLog tenthOfJune none).trans ?_⟩
  have hlimit : limitOf? tenthOfJune none = some ⟨1717671600, 0, by decide⟩ := by decide +kernel
  rw [hlimit]
  simp only
  rw [if_pos (by decide +kernel)]
  have hfirst : isPast ⟨1717671600, 0, by decide⟩ (.str firstOfJune.text) = true := by
    decide +kernel
  have htenth : isPast ⟨1717671600, 0, by decide⟩ (.str tenthOfJune.text) = false := by
    decide +kernel
  simp [juneLog, hfirst, htenth]

/-- With an age of -80000000 hours the limit is in the year 11150 and both readings are before it,
but none is dropped. -/
theorem later_limit_drops_nothing :
    ∃ limit, limitOf? tenthOfJune (some (-80000000)) = some limit ∧
      (∀ e ∈ juneLog, isPast limit e.1 = true) ∧
      pruneWeather juneLog tenthOfJune (some (-80000000)) = (juneLog, 0) := by
  have hlimit : limitOf? tenthOfJune (some (-80000000)) = some ⟨289718017200, 0, by decide⟩ := by
    decide +kernel
  refine ⟨_, hlimit, ?_, ?_⟩
  · intro e he
    rcases mem_juneLog he with rfl | rfl
    · decide +kernel
    · decide +kernel
  · unfold pruneWeather
    rw [pruneLimit?_eq, hlimit]
    have hkept : (juneLog.filter fun e =>
        decide (Instant.text ⟨289718017200, 0, by decide⟩ < e.1.text)) = juneLog := by
      refine List.filter_eq_self.2 fun e he => ?_
      rcases mem_juneLog he with rfl | rfl
      · decide +kernel
      · decide +kernel
    simp only [hkept, Nat.sub_self]

end GardenMap.Farm
