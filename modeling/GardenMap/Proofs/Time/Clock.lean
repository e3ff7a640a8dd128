import GardenMap.Proofs.Time.Text

/-!
# Instants that are read

Whatever is read, be it a text or a timestamp, is an instant on the clock
(`Instant.onClock_of_parse`, `Instant.onClock_of_ofTimestamp`): a leap second is written as second
60, which the reader puts at the end of its minute, and offsets are whole minutes. So leap seconds
within a minute come from outside only.
-/

namespace GardenMap

open Calendar

namespace Time

variable {α β : Type} {P : α → Prop} {Q : β → Prop}

/-! ## What readers give -/

/-- Whatever the reader takes off a text has the property. -/
def Gives (x : Reader α) (P : α → Prop) : Prop := ∀ s a t, x s = some (a, t) → P a

theorem Gives.bind {x : Reader α} {f : α → Reader β} (hx : Gives x P)
    (hf : ∀ a, P a → Gives (f a) Q) : Gives (x >>= f) Q := by
  intro s b t h
  obtain ⟨⟨a, u⟩, ha, hb⟩ := Option.bind_eq_some_iff.1 (show (x s).bind _ = some (b, t) from h)
  exact hf a (hx s a u ha) u b t hb

theorem Gives.skip {x : Reader α} {f : α → Reader β} (hf : ∀ a, Gives (f a) Q) :
    Gives (x >>= f) Q :=
  Gives.bind (P := fun _ => True) (fun _ _ _ _ => trivial) fun a _ => hf a

theorem Gives.pure {a : α} (h : P a) : Gives (pure a) P := by
  intro s b t hb
  cases hb
  exact h

theorem Gives.of_whole {x : Reader α} (hx : Gives x P) {s : List Char} {a : α}
    (h : whole x s = some a) : P a := by
  unfold whole at h
  split at h
  · next b hb =>
    cases h
    exact hx s a [] hb
  · cases h

theorem ofDigitChars_lt {ds : List Char} (hds : AllDigits ds) :
    Nat.ofDigitChars 10 ds 0 < Nat.pow 10 ds.length := by
  induction ds with
  | nil => exact Nat.one_pos
  | cons c ds ih =>
    have hc := (isDigit_iff c).1 (hds c List.mem_cons_self)
    have hrest := ih fun d hd => hds d (List.mem_cons_of_mem c hd)
    have hfirst : c.toNat - '0'.toNat ≤ 9 := by
      have hzero : '0'.toNat = 48 := rfl
      omega
    have hmul := Nat.mul_le_mul_left (Nat.pow 10 ds.length) hfirst
    rw [Nat.ofDigitChars_cons, Nat.ofDigitChars_eq_ofDigitChars_zero, Nat.mul_zero, Nat.zero_add]
    show Nat.pow 10 ds.length * (c.toNat - '0'.toNat) + Nat.ofDigitChars 10 ds 0 <
      Nat.pow 10 ds.length * 10
    omega

theorem gives_digits (least most : Nat) :
    Gives (digits least most) fun ds => AllDigits ds ∧ ds.length ≤ most := by
  intro s ds t h
  unfold digits at h
  simp only [Option.ite_none_left_eq_some, Option.some.injEq, Prod.mk.injEq] at h
  obtain ⟨-, rfl, -⟩ := h
  refine ⟨List.all_eq_true.1 List.all_takeWhile, ?_⟩
  exact Nat.le_trans (List.takeWhile_prefix _).length_le (List.length_take_le _ _)

theorem gives_fraction : Gives fraction (· < secondNanos) := by
  intro s n t h
  unfold fraction at h
  split at h
  · next s =>
    obtain ⟨⟨ds, u⟩, hds, h⟩ := Option.bind_eq_some_iff.1 h
    obtain ⟨hdigits, hlength⟩ := gives_digits 1 9 _ _ _ hds
    cases h
    have hlt := ofDigitChars_lt hdigits
    calc Nat.ofDigitChars 10 ds 0 * Nat.pow 10 (9 - ds.length)
        < Nat.pow 10 ds.length * Nat.pow 10 (9 - ds.length) :=
          Nat.mul_lt_mul_of_pos_right hlt (Nat.pow_pos (by decide))
      _ = Nat.pow 10 (ds.length + (9 - ds.length)) := (Nat.pow_add 10 _ _).symm
      _ = secondNanos := by
          rw [Nat.add_sub_cancel' hlength]
          rfl
  · cases h
    decide

theorem gives_laxFields : Gives laxFields (·.nano < secondNanos) := by
  unfold laxFields
  exact .skip fun _ => .skip fun _ => .skip fun _ => .skip fun _ => .skip fun _ => .skip fun _ =>
    .skip fun _ => .bind gives_fraction fun _ h => .pure h

theorem gives_offset : Gives offset (· % 60 = 0) := by
  have hread : Gives offset.read (· % 60 = 0) := by
    unfold offset.read
    refine .skip fun sign => .skip fun hours => .skip fun _ => .skip fun minutes => ?_
    split
    · refine .pure ?_
      rw [show sign * ((hours : Int) * 3600 + minutes * 60) =
        sign * (hours * 60 + minutes) * 60 by rw [Int.mul_assoc]; congr 1; omega]
      exact Int.mul_emod_left _ _
    · intro s a t h
      cases h
  intro s a t h
  unfold offset at h
  split at h
  · cases h
    rfl
  · cases h
    rfl
  · exact hread _ _ _ h

theorem gives_strictFields :
    Gives strictFields fun f => f.1.nano < secondNanos ∧ f.2 % 60 = 0 := by
  unfold strictFields
  exact .skip fun _ => .skip fun _ => .skip fun _ => .skip fun _ => .skip fun _ => .skip fun _ =>
    .skip fun _ => .skip fun _ => .skip fun _ => .skip fun _ => .skip fun _ =>
      .bind gives_fraction fun _ hnano => .bind gives_offset fun _ hahead => .pure ⟨hnano, hahead⟩

/-! ## Readings -/

theorem onClock_of_lt {t : Instant} (h : t.nano < secondNanos) : t.OnClock := fun hleap =>
  absurd (of_decide_eq_true hleap) (Nat.not_le.2 h)

theorem onClock_of_instant? {f : Fields} {ahead : Int} (hnano : f.nano < secondNanos)
    (hahead : ahead % 60 = 0) {t : Instant} (h : f.instant? ahead = some t) : t.OnClock := by
  unfold Fields.instant? at h
  obtain ⟨day, -, h⟩ := Option.bind_eq_some_iff.1 h
  obtain ⟨-, h⟩ := Option.ite_none_right_eq_some.1 h
  obtain ⟨hsecond, ht⟩ := Instant.ofParts?_eq_some_iff.1 h
  by_cases h60 : f.second = 60
  · intro _
    simp only [h60, if_true] at hsecond
    rw [hsecond]
    unfold daySeconds
    omega
  · refine onClock_of_lt ?_
    simp only [h60, if_false, Nat.add_zero] at ht
    rw [ht]
    exact hnano

theorem onClock_of_canonical? {s : List Char} {t : Instant} (h : canonical? s = some t) :
    t.OnClock := by
  obtain ⟨f, hf, h⟩ := Option.bind_eq_some_iff.1 h
  have hread : Gives (do let f ← laxFields; literal 'Z'; return f) (·.nano < secondNanos) :=
    .bind gives_laxFields fun _ hnano => .skip fun _ => .pure hnano
  exact onClock_of_instant? (hread.of_whole hf) rfl h

theorem onClock_of_strict? {s : List Char} {t : Instant} (h : strict? s = some t) : t.OnClock := by
  obtain ⟨⟨f, ahead⟩, hf, h⟩ := Option.bind_eq_some_iff.1 h
  obtain ⟨hnano, hahead⟩ := gives_strictFields.of_whole hf
  exact onClock_of_instant? hnano hahead h

theorem onClock_of_zoneless? {s : List Char} {t : Instant} (h : zoneless? s = some t) :
    t.OnClock := by
  obtain ⟨f, hf, h⟩ := Option.bind_eq_some_iff.1 h
  exact onClock_of_instant? (gives_laxFields.of_whole hf) rfl h

end Time

namespace Instant

/-- The instant that a text spells is on the clock. -/
theorem onClock_of_parse {s : String} {t : Instant} (h : parse s = .ok t) : t.OnClock := by
  unfold parse at h
  split at h
  · next u hu =>
    cases h
    unfold read? at hu
    simp only [Option.orElse_eq_orElse, Option.orElse_eq_or, Option.or_eq_some_iff] at hu
    rcases hu with hu | ⟨-, hu | ⟨-, hu⟩⟩
    · exact Time.onClock_of_canonical? hu
    · exact Time.onClock_of_strict? hu
    · exact Time.onClock_of_zoneless? hu
  · cases h

/-- The instant of a timestamp is on the clock. -/
theorem onClock_of_ofTimestamp {x : Float} {t : Instant} (h : ofTimestamp x = .ok t) :
    t.OnClock := by
  unfold ofTimestamp at h
  simp only at h
  split at h
  · next u hu =>
    cases h
    obtain ⟨millis, -, hmillis⟩ := Option.bind_eq_some_iff.1 hu
    refine Time.onClock_of_lt ?_
    rw [(ofParts?_eq_some_iff.1 hmillis).2]
    unfold secondNanos
    omega
  · cases h

end Instant

end GardenMap
