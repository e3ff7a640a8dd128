import GardenMap.Time.Instant

/-!
# Instants a span apart

The instant a span later is missing exactly when its second lies outside of the calendar
(`Instant.add?_eq_none_iff`). Nothing else about it can go wrong: the nanoseconds are those of an
instant, and a leap second becomes a full one before the way begins.
-/

namespace GardenMap

namespace Calendar

/-- The first second of the calendar. -/
def firstSecond : Int := firstDay * daySeconds

/-- The second after the last one of the calendar. -/
def endSecond : Int := (lastDay + 1) * daySeconds

theorem holdsDay_div_iff (second : Int) :
    holdsDay (second / daySeconds) = true ↔ firstSecond ≤ second ∧ second < endSecond := by
  unfold holdsDay firstSecond endSecond firstDay lastDay daySeconds
  rw [Bool.and_eq_true, decide_eq_true_eq, decide_eq_true_eq]
  omega

end Calendar

namespace Instant

open Calendar

theorem second_bounds (t : Instant) : firstSecond ≤ t.second ∧ t.second < endSecond :=
  (holdsDay_div_iff t.second).1 t.date.inCalendar

/-- The second at which an instant is when a span has passed. On the way back a leap second counts
as the second after it. -/
def secondAfter (t : Instant) (d : Span) : Int :=
  t.second + d.seconds + if t.isLeap = true ∧ d.seconds < 0 then 1 else 0

/-- A span later than an instant there is no calendar. -/
def LeavesCalendar (t : Instant) (d : Span) : Prop :=
  t.secondAfter d < firstSecond ∨ endSecond ≤ t.secondAfter d

instance (t : Instant) (d : Span) : Decidable (t.LeavesCalendar d) :=
  inferInstanceAs (Decidable (_ ∨ _))

theorem ofParts?_eq_none_iff {second : Int} {nano : Nat} (hnano : nano < secondNanos) :
    ofParts? second nano = none ↔ second < firstSecond ∨ endSecond ≤ second := by
  have hholds : holdsInstant second nano = holdsDay (second / daySeconds) := by
    unfold holdsInstant
    rw [decide_eq_true (Nat.lt_of_lt_of_le hnano (by decide)), Bool.and_true]
  unfold ofParts?
  rw [dite_eq_right_iff]
  simp only [reduceCtorEq, imp_false, hholds, holdsDay_div_iff]
  omega

theorem add?_zero (t : Instant) : t.add? .zero = some t := by
  have hzero : Span.zero.seconds = 0 := rfl
  unfold add? ofParts?
  simp only [hzero, bne_self_eq_false, Bool.and_false, Bool.false_eq_true, if_false, Int.add_zero,
    dif_pos t.inCalendar]

theorem add?_eq_none_iff (t : Instant) (d : Span) : t.add? d = none ↔ t.LeavesCalendar d := by
  have hnow := t.second_bounds
  cases hleap : t.isLeap with
  | false =>
    have hnano : t.nano < secondNanos := by simpa [isLeap] using hleap
    have hsecond : t.secondAfter d = t.second + d.seconds := by simp [secondAfter, hleap]
    unfold add? LeavesCalendar
    rw [hleap, hsecond]
    exact ofParts?_eq_none_iff hnano
  | true =>
    by_cases hd : d.seconds = 0
    · have hzero : d = .zero := congrArg Span.mk hd
      have hsecond : t.secondAfter .zero = t.second := by simp [secondAfter, Span.zero]
      unfold LeavesCalendar
      rw [hzero, add?_zero, hsecond]
      simp only [reduceCtorEq, false_iff]
      omega
    · have hsecond : t.secondAfter d = t.second + d.seconds + if 0 < d.seconds then 0 else 1 := by
        simp only [secondAfter, hleap, true_and]
        split <;> split <;> omega
      have hmoves : (true && d.seconds != 0) = true := by simpa using hd
      unfold add? LeavesCalendar
      rw [hleap, if_pos hmoves, hsecond]
      exact ofParts?_eq_none_iff (Nat.mod_lt _ (by decide))

end Instant

end GardenMap
