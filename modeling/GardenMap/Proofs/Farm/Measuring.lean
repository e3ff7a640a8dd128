import GardenMap.Proofs.Farm.Pruning
import GardenMap.Proofs.Farm.WeatherLog
import GardenMap.Proofs.Record.RelativeUpdates

/-!
# Recording a measurement

A measurement goes into the reading that the log holds for its hour, or into a blank one when it
holds none. If that reading has a place for it, the log changes there and nowhere else. If not, a
log that holds a reading stays as it is, but one that holds none is left with the blank reading,
which is put there before the measurement is (`recordMeasurement_outcome`).

Proof. Both ways are one equation, `recordMeasurement_eq`: of what is put at a key twice a table
keeps the last (`Table.put_put`). The outcome is read off by look-ups.
-/

namespace GardenMap.Farm

variable {d : Domain}

/-- The reading that a log holds for an hour. -/
def readingAt? (log : WeatherLog) (hour : Instant) : Option Record :=
  (Table.get? log (.str hour.text)).bind Value.record?

/-- The second log is the first with another reading for an hour. -/
structure ReadingPut (log : WeatherLog) (hour : Instant) (r : Record) (log' : WeatherLog) :
    Prop where
  reading : readingAt? log' hour = some r
  other : ∀ key, key ≠ .str hour.text → Table.get? log' key = Table.get? log key
  sorted : Table.Sorted log → Table.Sorted log'

theorem readingPut_put (log : WeatherLog) (hour : Instant) (r : Record) :
    ReadingPut log hour r (Table.put log (.str hour.text) (.record r)) := by
  refine ⟨?_, fun key hkey => ?_, fun hlog => Table.sorted_put hlog _ _⟩
  · unfold readingAt?
    rw [Table.get?_put, if_pos rfl]
    rfl
  · rw [Table.get?_put, if_neg hkey]

/-! ## One equation -/

/-- A measurement is put into the reading that is held, or into a blank one. When that has no place
for it, the blank one stays. -/
theorem recordMeasurement_eq (h : HasWeather d) (log : WeatherLog) (hour : Instant)
    (name : String) (x : Float) :
    recordMeasurement d log hour name x =
      match Record.set ((readingAt? log hour).getD blankReading) name (.float x) with
      | .ok r => (Table.put log (.str hour.text) (.record r), .ok ())
      | .error e =>
        (if (readingAt? log hour).isSome then log
          else Table.put log (.str hour.text) (.record blankReading), .error e) := by
  have hheld : ((Table.get? log (.str hour.text)).getD .null).record? = readingAt? log hour := by
    unfold readingAt?
    cases Table.get? log (.str hour.text) <;> rfl
  unfold recordMeasurement
  simp only [hheld, h.newRecord_eq]
  cases readingAt? log hour with
  | some held =>
    unfold recordMeasurement.store
    cases hset : Record.set held name (.float x) <;> simp [hset]
  | none =>
    unfold recordMeasurement.store
    cases hset : Record.set blankReading name (.float x) <;> simp [hset, Table.put_put]

/-! ## Outcomes -/

/-- Recording a measurement succeeds exactly when the reading of the hour, or a blank one where none
is held, has a place for it. Then it is in that reading, and nothing else changes. When it fails, a
log that holds a reading for the hour is as it was, and another one is so but for a blank reading
there. -/
theorem recordMeasurement_outcome (h : HasWeather d) (log : WeatherLog) (hour : Instant)
    (name : String) (x : Float) :
    let before := (readingAt? log hour).getD blankReading
    let log' := (recordMeasurement d log hour name x).1
    let outcome := (recordMeasurement d log hour name x).2
    (outcome = .ok () ↔ (before.get? name).isSome = true) ∧
    (outcome = .ok () → ∃ after, ReadingPut log hour after log' ∧
      Record.SetsField d.catalog name (.float x) before after ∧
      (readingAt? log hour = none →
        ∀ other y, other ≠ name → after.get? other = some y → y = .null)) ∧
    ∀ e, outcome = .error e → e = before.undeclared name ∧
      (log' = log ∧ (readingAt? log hour).isSome = true ∨
        ReadingPut log hour blankReading log' ∧ readingAt? log hour = none) := by
  intro before log' outcome
  have heq : (log', outcome) = _ := recordMeasurement_eq h log hour name x
  cases hplace : before.get? name with
  | some y =>
    rw [Record.set_of_has (by rw [hplace]; rfl)] at heq
    obtain ⟨hlog, houtcome⟩ := Prod.mk.inj heq
    refine ⟨by simp [houtcome], fun _ => ⟨_, hlog ▸ readingPut_put log hour _,
      Record.setsField_put name _, fun hnone other y hother hy => ?_⟩, fun e he => ?_⟩
    · have hblank : before = blankReading := by simp only [before, hnone, Option.getD_none]
      rw [Record.get?_put_of_ne hother] at hy
      exact eq_null_of_get?_blankReading (hblank ▸ hy)
    · cases houtcome.symm.trans he
  | none =>
    rw [Record.set_of_not_has hplace] at heq
    obtain ⟨hlog, houtcome⟩ := Prod.mk.inj heq
    refine ⟨by simp [houtcome], fun hok => ?_, fun e he => ⟨?_, ?_⟩⟩
    · cases houtcome.symm.trans hok
    · exact (Except.error.inj (houtcome.symm.trans he)).symm
    · cases hheld : readingAt? log hour with
      | some held =>
        rw [hheld] at hlog
        exact .inl ⟨hlog, rfl⟩
      | none =>
        rw [hheld] at hlog
        exact .inr ⟨hlog ▸ readingPut_put log hour _, rfl⟩

def rainyLog : WeatherLog :=
  [(.str firstOfJune.text, .record (blankReading.put "rain" (.float 1.5)))]

/-- The wind joins the rain of the hour. -/
theorem recordMeasurement_outcome_windy :
    HasWeather domain ∧ ∃ after, ReadingPut rainyLog firstOfJune after
        (recordMeasurement domain rainyLog firstOfJune "wind" 12).1 ∧
      after.get? "rain" = some (.float 1.5) ∧ after.get? "wind" = some (.float 12) := by
  obtain ⟨hiff, hok, -⟩ :=
    recordMeasurement_outcome hasWeather_domain rainyLog firstOfJune "wind" 12
  have hheld : readingAt? rainyLog firstOfJune = some (blankReading.put "rain" (.float 1.5)) := by
    unfold readingAt? rainyLog
    rw [Table.get?_cons, if_pos rfl]
    rfl
  rw [hheld, Option.getD_some] at hiff hok
  obtain ⟨after, hput, hsets, -⟩ := hok (hiff.2 rfl)
  exact ⟨hasWeather_domain, after, hput, hsets.field "rain" (by decide), hsets.value⟩

/-- There is no measurement of snow: recording it in an empty log fails, and leaves a reading. -/
theorem unknown_measurement_leaves_reading :
    (∃ e, (recordMeasurement domain [] firstOfJune "snow" 1.5).2 = .error e) ∧
      readingAt? [] firstOfJune = none ∧
      readingAt? (recordMeasurement domain [] firstOfJune "snow" 1.5).1 firstOfJune =
        some blankReading := by
  have hrun := recordMeasurement_eq hasWeather_domain [] firstOfJune "snow" 1.5
  rw [Record.set_of_not_has rfl] at hrun
  rw [hrun]
  exact ⟨⟨_, rfl⟩, rfl, (readingPut_put [] firstOfJune blankReading).reading⟩

end GardenMap.Farm
