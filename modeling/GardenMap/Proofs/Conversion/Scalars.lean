import GardenMap.Proofs.Conversion.Forms
import GardenMap.Proofs.Literal.Spelling
import GardenMap.Proofs.Record.Contents
import GardenMap.Proofs.Time.Clock

/-!
# Single values on the wire

A single value that comes from the wire and goes back is read as itself, its instants cut to
milliseconds (`Scalar.convert_toRaw`), and so is a key of a mapping (`Scalar.convertKey_text`). An
absent value is the only one whose wire form is taken for an absent payload: the texts of numbers
and truth values are no words (`Scalar.eq_of_toStr`), so `None` comes from the text `None` only.
-/

namespace GardenMap

/-! ## Texts of numbers -/

namespace Decimal

open Calendar Literal

/-- A text that a number or a truth value might have by its first character, or has. -/
def isNumberText (s : List Char) : Bool :=
  s.head?.any (fun c => c = '-' || c.isDigit) ||
    ["NaN".toList, "inf".toList, "true".toList, "false".toList].contains s

theorem isNumberText_cons {c : Char} {s : List Char} (h : c = '-' ∨ c.isDigit = true) :
    isNumberText (c :: s) = true := by
  unfold isNumberText
  rw [Bool.or_eq_true]
  refine .inl ?_
  simpa using h

theorem isNumberText_append {ds : List Char} (hds : AllDigits ds) (hne : ds ≠ []) (s : List Char) :
    isNumberText (ds ++ s) = true := by
  obtain ⟨c, t, rfl⟩ := List.exists_cons_of_ne_nil hne
  exact isNumberText_cons (.inr (hds c (by simp)))

theorem isNumberText_positionalText {ds : List Char} (hds : AllDigits ds) (hne : ds ≠ [])
    (keepsPoint : Bool) (exponent : Int) :
    isNumberText (positionalText keepsPoint ds exponent) = true := by
  unfold positionalText
  split
  · rw [List.append_assoc]
    exact isNumberText_append hds hne _
  · simp only
    split
    · next hplaces =>
      refine isNumberText_append (fun c hc => hds c (List.mem_of_mem_take hc)) ?_ _
      rw [ne_eq, List.take_eq_nil_iff]
      rintro (hzero | hnil)
      · omega
      · exact hne hnil
    · exact isNumberText_cons (.inr (by decide))

theorem isNumberText_exponentText {ds : List Char} (hds : AllDigits ds) (hne : ds ≠ [])
    (first : Int) : isNumberText (exponentText ds first) = true := by
  obtain ⟨c, t, rfl⟩ := List.exists_cons_of_ne_nil hne
  have hc : c.isDigit = true := hds c (by simp)
  cases t with
  | nil => exact isNumberText_cons (.inr hc)
  | cons d t => exact isNumberText_cons (.inr hc)

theorem isNumberText_point (style : NumberStyle) (p : Point) :
    isNumberText (style.point p) = true := by
  have hds : AllDigits (digitsOf p.digits) := allDigits_toDigits _
  have hne : digitsOf p.digits ≠ [] := Nat.toDigits_ne_nil
  unfold NumberStyle.point
  split
  · exact isNumberText_positionalText hds hne _ _
  · simp only
    split
    · exact isNumberText_positionalText hds hne _ _
    · exact isNumberText_exponentText hds hne _

theorem isNumberText_text (style : NumberStyle) (x : Float) :
    isNumberText (style.text x).toList = true := by
  unfold NumberStyle.text
  split
  · decide
  · split <;> decide
  · simp only [String.toList_ofList]
    split
    · exact isNumberText_cons (.inl rfl)
    · split
      · split <;> exact isNumberText_cons (.inr (by decide))
      · exact isNumberText_point _ _

theorem isNumberText_intText (i : Int) : isNumberText (intText i).toList = true := by
  obtain ⟨c, s, hcs, hc, -⟩ := intChars_eq_cons i
  rw [toList_intText, hcs]
  exact isNumberText_cons hc

end Decimal

/-! ## Values of scalar shapes -/

/-- The values that a scalar shape has. -/
inductive Scalar.Has : Scalar → Value → Prop
  | null (kind : Scalar) : Has kind .null
  | raw (w : Json) (h : w.isNull = false) : Has .any (.raw w)
  | bool (b : Bool) : Has .bool (.bool b)
  | int (i : Int) (h : Decimal.fitsInt i = true) : Has .int (.int i)
  | float (x : Float) : Has .float (.float x)
  | str (s : String) : Has .str (.str s)
  | date (d : Date) : Has .date (.date d)
  | datetime (t : Instant) (h : t.OnClock) : Has .datetime (.datetime t)

/-- Reading the wire form of the value gives a value with the same wire form, and the value itself
when its instants are whole. -/
def Value.RestoredBy (read : Json → Except ConvertError Value) (v : Value) : Prop :=
  ∃ w, read v.toRaw = .ok w ∧ w.toRaw = v.toRaw ∧ (v.IsWhole → w = v)

def MapKey.RestoredBy (kind : Scalar) (k : MapKey) : Prop :=
  ∃ l, kind.convertKey k.text = .ok l ∧ l.text = k.text ∧ (k.IsWhole → l = k)

/-- Reading the wire form of the value gives a value with the same wire form. -/
def Value.RereadBy (read : Json → Except ConvertError Value) (v : Value) : Prop :=
  ∃ w, read v.toRaw = .ok w ∧ w.toRaw = v.toRaw

def MapKey.RereadBy (kind : Scalar) (k : MapKey) : Prop :=
  ∃ l, kind.convertKey k.text = .ok l ∧ l.text = k.text

theorem Value.RestoredBy.reread {read : Json → Except ConvertError Value} {v : Value}
    (h : v.RestoredBy read) : v.RereadBy read :=
  h.imp fun _ h => ⟨h.1, h.2.1⟩

theorem MapKey.RestoredBy.reread {kind : Scalar} {k : MapKey} (h : k.RestoredBy kind) :
    k.RereadBy kind :=
  h.imp fun _ h => ⟨h.1, h.2.1⟩

theorem Value.RestoredBy.same {read : Json → Except ConvertError Value} {v : Value}
    (h : read v.toRaw = .ok v) : v.RestoredBy read := ⟨v, h, rfl, fun _ => rfl⟩

namespace Scalar

theorem convert_null (kind : Scalar) : kind.convert .null = .ok .null := by cases kind <;> rfl

theorem ok_of_bind {ε α β : Type} {x : Except ε α} {f : α → Except ε β} {b : β}
    (h : (x >>= f) = .ok b) : ∃ a, x = .ok a ∧ f a = .ok b := by
  cases x with
  | error e => cases h
  | ok a => exact ⟨a, rfl, h⟩

theorem has_of_toBool {w : Json} {v : Value} (h : toBool w = .ok v) : Has .bool v := by
  cases w with
  | null =>
    cases h
    exact .null _
  | bool b | int i | float x | str s =>
    cases h
    exact .bool _
  | arr _ | obj _ => cases h

theorem fitsInt_of_readInt {s : List Char} {i : Int} (h : Decimal.readInt s = some i) :
    Decimal.fitsInt i = true := by
  unfold Decimal.readInt at h
  obtain ⟨-, h⟩ := Option.ite_none_left_eq_some.1 h
  obtain ⟨hi, h⟩ := Option.ite_none_right_eq_some.1 h
  cases h
  exact hi

theorem has_of_toInt {w : Json} {v : Value} (h : toInt w = .ok v) : Has .int v := by
  unfold toInt at h
  split at h
  · cases h
    exact .null _
  · next b =>
    cases h
    exact .int _ (by cases b <;> decide)
  · split at h
    · next hi =>
      cases h
      exact .int _ hi
    · cases h
  · split at h
    · next hx =>
      cases h
      exact .int _ (Option.filter_eq_some_iff.1 hx).2
    · cases h
  · split at h
    · next hs =>
      cases h
      exact .int _ (fitsInt_of_readInt hs)
    · cases h
  · cases h

theorem has_of_toFloat {w : Json} {v : Value} (h : toFloat w = .ok v) : Has .float v := by
  unfold toFloat at h
  split at h
  · cases h
    exact .null _
  · cases h
    exact .float _
  · cases h
    exact .float _
  · cases h
    exact .float _
  · split at h
    · cases h
      exact .float _
    · cases h
  · cases h

theorem has_of_toStr {w : Json} {v : Value} (h : toStr w = .ok v) : Has .str v := by
  cases w with
  | null =>
    cases h
    exact .null _
  | bool b | int i | float x | str s =>
    cases h
    exact .str _
  | arr _ | obj _ => cases h

theorem of_ofPhrase {α : Type} {f : α → Value} {x : Except PhraseError α} {v : Value}
    (h : ofPhrase f x = .ok v) : ∃ a, x = .ok a ∧ v = f a := by
  cases x with
  | error e => cases h
  | ok a =>
    cases h
    exact ⟨a, rfl, rfl⟩

theorem has_of_toDate {w : Json} {v : Value} (h : toDate w = .ok v) : Has .date v := by
  unfold toDate at h
  split at h
  · cases h
    exact .null _
  · split at h
    · cases h
      exact .null _
    · obtain ⟨d, -, rfl⟩ := of_ofPhrase h
      exact .date d
  · obtain ⟨t, -, rfl⟩ := of_ofPhrase h
    exact .date _
  · obtain ⟨t, -, rfl⟩ := of_ofPhrase h
    exact .date _
  · cases h

theorem has_of_toDatetime {w : Json} {v : Value} (h : toDatetime w = .ok v) :
    Has .datetime v := by
  unfold toDatetime at h
  split at h
  · cases h
    exact .null _
  · split at h
    · cases h
      exact .null _
    · obtain ⟨t, ht, rfl⟩ := of_ofPhrase h
      exact .datetime t (Instant.onClock_of_parse ht)
  · obtain ⟨t, ht, rfl⟩ := of_ofPhrase h
    exact .datetime t (Instant.onClock_of_ofTimestamp ht)
  · obtain ⟨t, ht, rfl⟩ := of_ofPhrase h
    exact .datetime t (Instant.onClock_of_ofTimestamp ht)
  · cases h

theorem has_of_convert {kind : Scalar} {r : Json} {v : Value} (h : kind.convert r = .ok v) :
    kind.Has v := by
  cases kind with
  | any =>
    cases r with
    | null =>
      cases h
      exact .null _
    | _ =>
      cases h
      exact .raw _ rfl
  | bool =>
    obtain ⟨w, -, h⟩ := ok_of_bind h
    exact has_of_toBool h
  | int =>
    obtain ⟨w, -, h⟩ := ok_of_bind h
    exact has_of_toInt h
  | float =>
    obtain ⟨w, -, h⟩ := ok_of_bind h
    exact has_of_toFloat h
  | str => exact has_of_toStr h
  | date => exact has_of_toDate h
  | datetime => exact has_of_toDatetime h

theorem isBlankText_ofList {s : List Char} (hne : s ≠ [])
    (h : ∀ c ∈ s, Text.isBlank c = false) : Text.isBlankText (String.ofList s) = false := by
  obtain ⟨c, t, rfl⟩ := List.exists_cons_of_ne_nil hne
  unfold Text.isBlankText
  rw [String.toList_ofList, List.all_cons, h c (by simp)]
  rfl

theorem toDate_text (d : Date) : toDate (.str d.text) = .ok (.date d) := by
  have hblank : Text.isBlankText d.text = false :=
    isBlankText_ofList (by simp [Date.chars]) (Time.not_blank_date d)
  unfold toDate
  simp only [hblank, Bool.false_eq_true, if_false, Date.parse_text]
  rfl

theorem toDatetime_text (t : Instant) : toDatetime (.str t.text) = .ok (.datetime t.asRead) := by
  have hblank : Text.isBlankText t.text = false :=
    isBlankText_ofList (by simp [Instant.chars]) (Time.not_blank_instant t)
  unfold toDatetime
  simp only [hblank, Bool.false_eq_true, if_false, Instant.parse_text]
  rfl

theorem rereadBy_datetime (t : Instant) :
    (Value.datetime t).RereadBy (Scalar.convert .datetime) :=
  ⟨.datetime t.asRead, toDatetime_text t, congrArg Json.str (Instant.text_asRead t)⟩

theorem toInt_int {i : Int} (h : Decimal.fitsInt i = true) : toInt (.int i) = .ok (.int i) := by
  unfold toInt
  simp only [h, if_true]

theorem Has.restoredBy {kind : Scalar} {v : Value} (h : kind.Has v) (hfin : v.IsFinite) :
    v.RestoredBy kind.convert := by
  cases h with
  | null => exact .same (convert_null kind)
  | raw w hw =>
    cases w with
    | null => cases hw
    | _ => exact .same rfl
  | bool b => exact .same rfl
  | int i hi => exact .same (toInt_int hi)
  | float x =>
    refine .same ?_
    rw [toRaw_float hfin]
    rfl
  | str s => exact .same rfl
  | date d => exact .same (toDate_text d)
  | datetime t hclock =>
    refine ⟨.datetime t.asRead, toDatetime_text t, congrArg Json.str (Instant.text_asRead t), ?_⟩
    intro hwhole
    rw [Instant.asRead_of_onClock hclock, Instant.cut_of_isWhole hwhole]

/-! ## Keys -/

theorem fitsWord_of_fitsInt {i : Int} (h : Decimal.fitsInt i = true) :
    Decimal.fitsWord i = true := by
  unfold Decimal.fitsInt Decimal.minInt Decimal.maxInt at h
  unfold Decimal.fitsWord Decimal.minInt Decimal.maxNat
  simp only [Bool.and_eq_true, decide_eq_true_eq] at h ⊢
  omega

theorem literal_of_read {text : String} {v : Json} (h : Literal.read text = .ok v) :
    Payload.spelled (.str text) = .ok v := by
  unfold Payload.spelled Payload.literal
  simp only [h]

theorem restoredBy_of_convertKey {kind : Scalar} {s : String} {k : MapKey}
    (h : kind.convertKey s = .ok k) : k.RestoredBy kind := by
  obtain ⟨v, hv, hk⟩ := ok_of_bind h
  unfold Value.toKey at hk
  have hsame : kind.convertKey k.text = .ok k → k.RestoredBy kind :=
    fun h => ⟨k, h, rfl, fun _ => rfl⟩
  cases has_of_convert hv with
  | null => cases hk
  | raw w hw =>
    cases hv
    cases hk
    exact hsame rfl
  | bool b =>
    cases hk
    refine hsame ?_
    unfold convertKey convert
    simp only [MapKey.text, literal_of_read (Literal.read_boolText b)]
    rfl
  | int i hi =>
    cases hk
    refine hsame ?_
    unfold convertKey convert
    simp only [MapKey.text, literal_of_read (Literal.read_intText (fitsWord_of_fitsInt hi))]
    show (toInt (.int i) >>= Value.toKey) = _
    rw [toInt_int hi]
    rfl
  | float x => cases hk
  | str s =>
    cases hk
    exact hsame rfl
  | date d =>
    cases hk
    refine hsame ?_
    unfold convertKey convert
    simp only [MapKey.text, toDate_text]
    rfl
  | datetime t hclock =>
    cases hk
    refine ⟨.datetime t.asRead, ?_, Instant.text_asRead t, fun hwhole => ?_⟩
    · unfold convertKey convert
      simp only [MapKey.text, toDatetime_text]
      rfl
    · rw [Instant.asRead_of_onClock hclock, Instant.cut_of_isWhole hwhole]

/-! ## Words -/

/-- A word that is not the text of a number or a truth value is the text of itself only. -/
theorem eq_of_toStr {r : Json} {w : String} (hw : Decimal.isNumberText w.toList = false)
    (h : toStr r = .ok (.str w)) : r = .str w := by
  cases r with
  | str s =>
    cases h
    rfl
  | bool b =>
    cases h
    cases b <;> cases hw
  | int i =>
    cases h
    rw [show (Json.int i).text = Decimal.intText i from rfl, Decimal.isNumberText_intText] at hw
    cases hw
  | float x =>
    cases h
    rw [show (Json.float x).text = Decimal.NumberStyle.wire.text x from rfl,
      Decimal.isNumberText_text] at hw
    cases hw
  | null | arr _ | obj _ => cases h

theorem isNone_ofList {s : List Char} {c : Char} (hc : c ∈ s) (hnone : c ∉ "None".toList) :
    Payload.isNone (.str (String.ofList s)) = false := by
  unfold Payload.isNone
  rw [decide_eq_false_iff_not]
  intro h
  rw [← h, String.toList_ofList] at hnone
  exact hnone hc

theorem isNone_date (d : Date) : Payload.isNone (.str d.text) = false := by
  have hminus : '-' ∈ d.chars := by simp [Date.chars]
  exact isNone_ofList hminus (by decide)

theorem isNone_instant (t : Instant) : Payload.isNone (.str t.text) = false := by
  have hzone : 'Z' ∈ t.chars := by simp [Instant.chars]
  exact isNone_ofList hzone (by decide)

theorem eq_null_of_isNone {kind : Scalar} {r : Json} {v : Value} (h : kind.convert r = .ok v)
    (hfin : v.IsFinite) (hr : Payload.isNone r = false) (hv : Payload.isNone v.toRaw = true) :
    v = .null := by
  have hlooks : Payload.isNone v.toRaw ≠ false := by simp [hv]
  cases has_of_convert h with
  | null => rfl
  | raw w hw =>
    have hwr : w = r := by cases r <;> cases h <;> rfl
    exact absurd (hwr ▸ hr) hlooks
  | bool b => cases hv
  | int i hi => cases hv
  | float x =>
    rw [toRaw_float hfin] at hv
    cases hv
  | str s =>
    have hs : s = "None" := of_decide_eq_true hv
    subst hs
    rw [eq_of_toStr (by decide) h] at hr
    exact absurd hr (by decide)
  | date d => exact absurd (isNone_date d) hlooks
  | datetime t _ => exact absurd (isNone_instant t) hlooks

end Scalar

end GardenMap
