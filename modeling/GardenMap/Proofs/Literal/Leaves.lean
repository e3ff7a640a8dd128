import GardenMap.Literal.Weight
import GardenMap.Proofs.Literal.Grammar
import GardenMap.Proofs.Literal.Spelling
import Mathlib.Data.List.TakeWhile

/-!
# Reading the leaves of literals

Keywords, numbers and quoted texts, in both directions. What a scanner takes off the front of a text
is of the grammar (`exists_of_number`, `exists_of_keyword?`, `exists_of_quoted`), and it takes a
form off whole when what comes next cannot be part of it (`number_append`, `keyword?_append`,
`quoted_append`).

The scanners of digits are greedy, so the second direction needs to know the next character. After
a literal it is always a gap, a comma, a colon or a closing bracket.
-/

namespace GardenMap.Literal

open Calendar Decimal

/-- The characters that end an element: a comma, a colon or a closing bracket. -/
def stops : List Char := [',', ':', ']', ')', '\x7d']

/-- The text goes on with a gap or the end of an element, if it goes on. -/
def Apart (rest : List Char) : Prop := ∀ c, rest.head? = some c → c ∈ gaps ++ stops

theorem Apart.of_all {rest : List Char} (h : Apart rest) {P : Char → Bool}
    (hP : (gaps ++ stops).all P = true) {c : Char} (hc : rest.head? = some c) : P c = true :=
  List.all_eq_true.1 hP c (h c hc)

theorem Apart.ends {rest : List Char} (h : Apart rest) : Time.Ends rest := by
  intro c hc
  have hdigit := h.of_all (P := fun c => !c.isDigit) (by decide) hc
  simpa using hdigit

theorem not_mem_of_all {cs ds : List Char} (h : cs.all (fun c => !ds.contains c) = true)
    {c : Char} (hc : c ∈ cs) : c ∉ ds := by
  have hno := List.all_eq_true.1 h c hc
  simpa using hno

/-! ## Spans -/

theorem exists_of_spanSign {s r : List Char} {negative : Bool}
    (h : spanSign s = (negative, r)) : ∃ sign, Sign sign negative ∧ s = sign ++ r := by
  unfold spanSign at h
  split at h <;> cases h
  · exact ⟨['-'], .minus, rfl⟩
  · exact ⟨['+'], .plus, rfl⟩
  · exact ⟨[], .none, rfl⟩

theorem spanSign_append {sign : List Char} {negative : Bool} (h : Sign sign negative)
    {c : Char} (hminus : c ≠ '-') (hplus : c ≠ '+') (s : List Char) :
    spanSign (sign ++ c :: s) = (negative, c :: s) := by
  cases h with
  | none =>
    show spanSign (c :: s) = _
    unfold spanSign
    split
    · next heq => exact absurd (List.cons.inj heq).1 hminus
    · next heq => exact absurd (List.cons.inj heq).1 hplus
    · rfl
  | plus => rfl
  | minus => rfl

theorem exists_of_spanDigits {s ds r : List Char} (h : spanDigits s = (ds, r)) :
    s = ds ++ r ∧ AllDigits ds := by
  unfold spanDigits at h
  cases h
  refine ⟨List.takeWhile_append_dropWhile.symm, fun c hc => ?_⟩
  exact List.mem_takeWhile_imp hc

theorem spanDigits_append {ds s : List Char} (hds : AllDigits ds) (hs : Time.Ends s) :
    spanDigits (ds ++ s) = (ds, s) := by
  have htake := Time.takeWhile_digits hds hs
  have hdrop := List.takeWhile_append_dropWhile (p := Char.isDigit) (l := ds ++ s)
  rw [htake] at hdrop
  unfold spanDigits
  rw [htake, List.append_cancel_left hdrop]

theorem exists_of_spanExponent {s r : List Char} {power : Int}
    (h : spanExponent s = (power, r)) : ∃ e, Power e power ∧ s = e ++ r := by
  unfold spanExponent at h
  split at h
  · cases h
    exact ⟨[], .none, rfl⟩
  · next e t =>
    split at h
    · next he =>
      rcases hsign : spanSign t with ⟨negative, u⟩
      rcases hdigits : spanDigits u with ⟨ds, w⟩
      simp only [hsign, hdigits] at h
      obtain ⟨sign, hσ, rfl⟩ := exists_of_spanSign hsign
      obtain ⟨rfl, hds⟩ := exists_of_spanDigits hdigits
      split at h
      · cases h
        exact ⟨[], .none, rfl⟩
      · next hne =>
        cases h
        have hne : ds ≠ [] := by simpa using hne
        exact ⟨_, .some (by simpa using he) hσ ⟨hne, hds⟩, by simp⟩
    · cases h
      exact ⟨[], .none, rfl⟩

theorem spanExponent_append {e rest : List Char} {power : Int} (h : Power e power)
    (hrest : Apart rest) : spanExponent (e ++ rest) = (power, rest) := by
  cases h with
  | none =>
    show spanExponent rest = _
    unfold spanExponent
    split
    · rfl
    · next c t =>
      have hc := hrest.of_all (P := fun c => !(c = 'e' || c = 'E')) (by decide) rfl
      rw [if_neg (by simpa using hc)]
  | @some c sign ds negative he hσ hds =>
    obtain ⟨d, ds', rfl⟩ := List.exists_cons_of_ne_nil hds.1
    have hd : d.isDigit = true := hds.2 d (by simp)
    have hspan : spanSign (sign ++ d :: (ds' ++ rest)) = (negative, d :: (ds' ++ rest)) :=
      spanSign_append hσ (ne_of_isDigit hd (by decide)) (ne_of_isDigit hd (by decide)) _
    have hdigits := spanDigits_append hds.2 hrest.ends
    rw [List.cons_append] at hdigits
    unfold spanExponent
    simp only [List.cons_append, List.append_assoc]
    rw [if_pos (by simpa using he), hspan]
    simp only
    rw [hdigits]
    rfl

theorem exists_of_spanUnsigned? {negative : Bool} {s rest : List Char} {n : Numeral}
    (h : spanUnsigned? negative s = some (n, rest)) :
    ∃ m ds places e power, Mantissa m ds places ∧ Power e power ∧ s = m ++ (e ++ rest) ∧
      n = ⟨negative, value ds, power - places⟩ := by
  unfold spanUnsigned? at h
  rcases hw : spanDigits s with ⟨whole, afterWhole⟩
  obtain ⟨rfl, hwhole⟩ := exists_of_spanDigits hw
  simp only [hw] at h
  split at h
  · next t =>
    rcases hf : spanDigits t with ⟨fs, u⟩
    rcases he : spanExponent u with ⟨power, r⟩
    obtain ⟨rfl, hfs⟩ := exists_of_spanDigits hf
    obtain ⟨e, hpower, rfl⟩ := exists_of_spanExponent he
    simp only [hf, he] at h
    split at h
    · cases h
    · next hne =>
      cases h
      cases whole with
      | nil =>
        have hne : fs ≠ [] := by simpa using hne
        exact ⟨_, _, _, e, power, .fraction ⟨hne, hfs⟩, hpower, by simp, by simp⟩
      | cons d ds =>
        exact ⟨_, _, _, e, power, .point ⟨by simp, hwhole⟩ hfs, hpower, by simp, rfl⟩
  · rcases he : spanExponent afterWhole with ⟨power, r⟩
    obtain ⟨e, hpower, rfl⟩ := exists_of_spanExponent he
    simp only [he] at h
    split at h
    · cases h
    · next hne =>
      cases h
      have hne : whole ≠ [] := by simpa using hne
      exact ⟨whole, whole, 0, e, power, .whole ⟨hne, hwhole⟩, hpower, rfl, by simp⟩

theorem ends_of_power {e rest : List Char} {power : Int} (h : Power e power)
    (hrest : Apart rest) : Time.Ends (e ++ rest) := by
  cases h with
  | none => exact hrest.ends
  | some he => rcases he with rfl | rfl <;> exact Time.ends_cons (by decide) _

theorem spanUnsigned?_append {m ds e rest : List Char} {places : Nat} {power : Int}
    (hm : Mantissa m ds places) (he : Power e power) (hrest : Apart rest) (negative : Bool) :
    spanUnsigned? negative (m ++ (e ++ rest)) =
      some (⟨negative, value ds, power - places⟩, rest) := by
  have hends : Time.Ends (e ++ rest) := ends_of_power he hrest
  have hexp := spanExponent_append he hrest
  have hpoint : ∀ t, Time.Ends ('.' :: t) := Time.ends_cons (by decide)
  unfold spanUnsigned?
  cases hm with
  | whole hds =>
    rw [spanDigits_append hds.2 hends]
    -- what follows the digits is no point
    have hno : ∀ t, e ++ rest ≠ '.' :: t := by
      intro t ht
      cases he with
      | none =>
        have hc : rest.head? = some '.' := by rw [show rest = '.' :: t from ht]; rfl
        have hno := hrest.of_all (P := fun c => c != '.') (by decide) hc
        simp at hno
      | some he =>
        have hc := (List.cons.inj ht).1
        rcases he with rfl | rfl <;> exact absurd hc (by decide)
    simp only
    rw [if_neg (by simp [hds.1])]
    simp [hexp]
  | @point whole fs hds hfs =>
    rw [List.append_assoc, List.cons_append, spanDigits_append hds.2 (hpoint _)]
    simp only
    rw [spanDigits_append hfs hends]
    simp [hds.1, hexp]
  | fraction hfs =>
    have hnone : AllDigits [] := fun _ hc => absurd hc List.not_mem_nil
    have hnil : spanDigits ('.' :: (ds ++ (e ++ rest))) = ([], '.' :: (ds ++ (e ++ rest))) :=
      spanDigits_append hnone (hpoint _)
    rw [List.cons_append, hnil]
    simp only
    rw [spanDigits_append hfs.2 hends]
    simp [hfs.1, hexp]

/-! ## Numbers -/

theorem Mantissa.exists_cons {m ds : List Char} {places : Nat} (h : Mantissa m ds places) :
    ∃ c s, m = c :: s ∧ (c = '.' ∨ c.isDigit = true) := by
  cases h with
  | whole hds =>
    obtain ⟨c, s, rfl⟩ := List.exists_cons_of_ne_nil hds.1
    exact ⟨c, s, rfl, .inr (hds.2 c (by simp))⟩
  | point hds hfs =>
    obtain ⟨c, s, rfl⟩ := List.exists_cons_of_ne_nil hds.1
    exact ⟨c, _, rfl, .inr (hds.2 c (by simp))⟩
  | fraction hfs => exact ⟨'.', _, rfl, .inl rfl⟩

theorem spanNumeral?_append {sign m ds e rest : List Char} {negative : Bool} {places : Nat}
    {power : Int} (hσ : Sign sign negative) (hm : Mantissa m ds places) (he : Power e power)
    (hrest : Apart rest) :
    spanNumeral? (sign ++ (m ++ e) ++ rest) =
      some (⟨negative, value ds, power - places⟩, rest) := by
  obtain ⟨c, s, rfl, hc⟩ := hm.exists_cons
  have hne : c ≠ '-' ∧ c ≠ '+' := by
    rcases hc with rfl | hc
    · decide
    · exact ⟨ne_of_isDigit hc (by decide), ne_of_isDigit hc (by decide)⟩
  have hspan := spanUnsigned?_append hm he hrest negative
  unfold spanNumeral?
  simp only [List.append_assoc, List.cons_append] at hspan ⊢
  rw [spanSign_append hσ hne.1 hne.2]
  exact hspan

/-- The characters that make a number a binary one. -/
def isMark (c : Char) : Bool := c = '.' || c = 'e' || c = 'E'

theorem any_isMark_digits {ds : List Char} (hds : AllDigits ds) : ds.any isMark = false := by
  rw [List.any_eq_false]
  intro c hc
  have hd : ∀ {d : Char}, d.isDigit = false → c ≠ d := ne_of_isDigit (hds c hc)
  simp [isMark, hd (d := '.') (by decide), hd (d := 'e') (by decide), hd (d := 'E') (by decide)]

theorem any_isMark {sign m ds e : List Char} {negative : Bool} {places : Nat} {power : Int}
    (hσ : Sign sign negative) (hm : Mantissa m ds places) (he : Power e power) :
    (sign ++ (m ++ e)).any isMark = true ↔ '.' ∈ m ∨ e ≠ [] := by
  have hsign : sign.any isMark = false := by cases hσ <;> rfl
  have hmantissa : m.any isMark = true ↔ '.' ∈ m := by
    cases hm with
    | whole hds =>
      have hno : '.' ∉ m := fun hc => absurd (hds.2 _ hc) (by decide)
      simp [any_isMark_digits hds.2, hno]
    | point => simp [isMark]
    | fraction => simp [isMark]
  have hexponent : e.any isMark = true ↔ e ≠ [] := by
    cases he with
    | none => simp
    | some he => rcases he with rfl | rfl <;> simp [isMark]
  rw [List.any_append, List.any_append, hsign, Bool.false_or, Bool.or_eq_true, hmantissa,
    hexponent]

theorem numberOf?_eq {sign m ds e : List Char} {negative : Bool} {places : Nat} {power : Int}
    (hσ : Sign sign negative) (hm : Mantissa m ds places) (he : Power e power) :
    numberOf? (sign ++ (m ++ e)) ⟨negative, value ds, power - places⟩ =
      if '.' ∈ m ∨ e ≠ [] then
        if isFinite (ofScaled negative (value ds) (power - places)) then
          some (.float (ofScaled negative (value ds) (power - places)))
        else none
      else if fitsWord (signed negative (value ds)) then some (.int (signed negative (value ds)))
      else none := by
  rw [← if_congr (any_isMark hσ hm he) rfl rfl]
  rfl

theorem number_of_span {t rest : List Char} {n : Numeral}
    (h : spanNumeral? (t ++ rest) = some (n, rest)) :
    number (t ++ rest) =
      (numberOf? t n).elim (.failed (t ++ rest)) fun v => .found v rest := by
  unfold number
  rw [h]
  simp only [List.length_append, Nat.add_sub_cancel, List.take_left]
  cases numberOf? t n <;> rfl

theorem exists_of_number {s rest : List Char} {v : Json} (h : number s = .found v rest) :
    ∃ t, s = t ++ rest ∧ Number t v := by
  cases hn : spanNumeral? s with
  | none =>
    rw [number, hn] at h
    cases h
  | some p =>
    obtain ⟨n, r⟩ := p
    have hspan := hn
    unfold spanNumeral? at hspan
    rcases hsign : spanSign s with ⟨negative, u⟩
    rw [hsign] at hspan
    obtain ⟨sign, hσ, rfl⟩ := exists_of_spanSign hsign
    obtain ⟨m, ds, places, e, power, hm, he, rfl, rfl⟩ := exists_of_spanUnsigned? hspan
    have hs : sign ++ (m ++ (e ++ r)) = sign ++ (m ++ e) ++ r := by simp
    rw [hs] at hn h ⊢
    rw [number_of_span hn] at h
    cases hvalue : numberOf? (sign ++ (m ++ e)) ⟨negative, value ds, power - places⟩ with
    | none =>
      rw [hvalue] at h
      cases h
    | some w =>
      rw [hvalue] at h
      cases h
      rw [numberOf?_eq hσ hm he] at hvalue
      refine ⟨sign ++ (m ++ e), rfl, ?_⟩
      by_cases hmarks : '.' ∈ m ∨ e ≠ []
      · rw [if_pos hmarks] at hvalue
        obtain ⟨hfinite, heq⟩ := Option.ite_none_right_eq_some.1 hvalue
        cases heq
        exact .binary hσ hm he hmarks hfinite
      · rw [if_neg hmarks] at hvalue
        obtain ⟨hfits, heq⟩ := Option.ite_none_right_eq_some.1 hvalue
        cases heq
        simp only [not_or, not_not] at hmarks
        obtain ⟨hpoint, rfl⟩ := hmarks
        -- without a point the mantissa is its digits
        cases hm with
        | whole hds =>
          rw [List.append_nil]
          exact .whole hσ hds hfits
        | point => simp at hpoint
        | fraction => simp at hpoint

theorem number_append {t rest : List Char} {v : Json} (ht : Number t v) (hrest : Apart rest) :
    number (t ++ rest) = .found v rest := by
  cases ht with
  | @whole sign ds negative hσ hds hfits =>
    have hspan := spanNumeral?_append hσ (.whole hds) .none hrest
    have hvalue := numberOf?_eq hσ (.whole hds) .none
    have hplain : ¬('.' ∈ ds ∨ ([] : List Char) ≠ []) := by
      simp only [ne_eq, not_true_eq_false, or_false]
      exact fun hc => absurd (hds.2 _ hc) (by decide)
    rw [if_neg hplain, if_pos hfits] at hvalue
    rw [List.append_nil] at hspan hvalue
    rw [number_of_span hspan, hvalue]
    rfl
  | binary hσ hm he hmarks hfinite =>
    have hvalue := numberOf?_eq hσ hm he
    rw [if_pos hmarks, if_pos hfinite] at hvalue
    rw [number_of_span (spanNumeral?_append hσ hm he hrest), hvalue]
    rfl

/-! ## Keywords -/

theorem eq_append_of_word? {w s rest : List Char} (h : word? w s = some rest) :
    s = w ++ rest := by
  unfold word? at h
  obtain ⟨hp, hrest⟩ := Option.ite_none_right_eq_some.1 h
  rw [Bool.and_eq_true] at hp
  obtain ⟨u, rfl⟩ := List.isPrefixOf_iff_prefix.1 hp.1
  cases hrest
  rw [List.drop_left]

theorem word?_append (w : List Char) {rest : List Char} (hrest : Apart rest) :
    word? w (w ++ rest) = some rest := by
  have hend : rest.head?.any continuesWord = false := by
    rw [Option.any_eq_false]
    intro c hc
    have hword := hrest.of_all (P := fun c => !continuesWord c) (by decide) hc
    simpa using hword
  unfold word?
  rw [List.drop_left, hend, List.isPrefixOf_iff_prefix.2 (List.prefix_append w rest)]
  rfl

theorem keyword_of_mem {e : String × Json} (h : e ∈ keywords) : Keyword e.1.toList e.2 := by
  simp only [keywords, List.mem_cons, List.not_mem_nil, or_false] at h
  rcases h with rfl | rfl | rfl | rfl | rfl | rfl
  · exact .null (by simp)
  · exact .null (by simp)
  · exact .true (by simp)
  · exact .true (by simp)
  · exact .false (by simp)
  · exact .false (by simp)

theorem exists_of_keyword? {s rest : List Char} {v : Json} (h : keyword? s = some (v, rest)) :
    ∃ t, s = t ++ rest ∧ Keyword t v := by
  obtain ⟨e, he, h⟩ := List.exists_of_findSome?_eq_some h
  obtain ⟨r, hr, h⟩ := Option.map_eq_some_iff.1 h
  cases h
  exact ⟨_, eq_append_of_word? hr, keyword_of_mem he⟩

theorem keyword?_append {t rest : List Char} {v : Json} (ht : Keyword t v) (hrest : Apart rest) :
    keyword? (t ++ rest) = some (v, rest) := by
  have hmem : ∃ e ∈ keywords, e.1.toList = t ∧ e.2 = v := by
    cases ht with
    | null hw | true hw | false hw =>
      simp only [List.mem_cons, List.not_mem_nil, or_false] at hw
      rcases hw with rfl | rfl <;> simp [keywords]
  obtain ⟨e, he, rfl, rfl⟩ := hmem
  simp only [keywords, List.mem_cons, List.not_mem_nil, or_false] at he
  -- no two keywords start alike, so those tried before are not there
  rcases he with rfl | rfl | rfl | rfl | rfl | rfl
  all_goals
    unfold keyword? keywords
    simp only [List.findSome?_cons, word?_append _ hrest]
    rfl

def initials : List Char := ['N', 'n', 'T', 't', 'F', 'f']

theorem keyword?_eq_none_of_not_mem {c : Char} (hc : c ∉ initials) (s : List Char) :
    keyword? (c :: s) = none := by
  unfold keyword?
  rw [List.findSome?_eq_none_iff]
  intro e he
  rw [Option.map_eq_none_iff, Option.eq_none_iff_forall_not_mem]
  intro r hr
  have hs := eq_append_of_word? hr
  have hfirst : ∀ e ∈ keywords, ∃ d t, e.1.toList = d :: t ∧ d ∈ initials := by
    simp [keywords, initials]
  obtain ⟨d, t, hdt, hd⟩ := hfirst e he
  rw [hdt] at hs
  exact hc ((List.cons.inj hs).1 ▸ hd)

/-! ## Quoted texts -/

theorem mem_escapes_iff {e c : Char} : (e, c) ∈ escapes ↔ escape? e = some c := by
  constructor
  · intro h
    simp only [escapes, List.mem_cons, Prod.mk.injEq, List.not_mem_nil, or_false] at h
    rcases h with ⟨rfl, rfl⟩ | ⟨rfl, rfl⟩ | ⟨rfl, rfl⟩ | ⟨rfl, rfl⟩ | ⟨rfl, rfl⟩ | ⟨rfl, rfl⟩ |
      ⟨rfl, rfl⟩
    all_goals rfl
  · intro h
    unfold escape? at h
    split at h <;> cases h <;> simp [escapes]

theorem codePoint?_eq_some_iff {a b c d x : Char} :
    codePoint? a b c d = some x ↔
      ∃ n₁ n₂ n₃ n₄, hexDigit? a = some n₁ ∧ hexDigit? b = some n₂ ∧ hexDigit? c = some n₃ ∧
        hexDigit? d = some n₄ ∧ x.toNat = ((n₁ * 16 + n₂) * 16 + n₃) * 16 + n₄ := by
  unfold codePoint?
  constructor
  · intro h
    obtain ⟨n₁, h₁, h⟩ := Option.bind_eq_some_iff.1 h
    obtain ⟨n₂, h₂, h⟩ := Option.bind_eq_some_iff.1 h
    obtain ⟨n₃, h₃, h⟩ := Option.bind_eq_some_iff.1 h
    obtain ⟨n₄, h₄, h⟩ := Option.bind_eq_some_iff.1 h
    obtain ⟨_, h⟩ := Option.dite_none_right_eq_some.1 h
    cases h
    exact ⟨n₁, n₂, n₃, n₄, h₁, h₂, h₃, h₄, rfl⟩
  · rintro ⟨n₁, n₂, n₃, n₄, h₁, h₂, h₃, h₄, hx⟩
    have hvalid : (((n₁ * 16 + n₂) * 16 + n₃) * 16 + n₄).isValidChar := hx ▸ x.valid
    rw [h₁, h₂, h₃, h₄]
    have hchar : Char.ofNatAux _ hvalid = x := Char.toNat_inj.1 hx.symm
    exact Option.dite_none_right_eq_some.2 ⟨hvalid, congrArg some hchar⟩

theorem quotedBody_append {quote : Char} (hquote : quote = '\'' ∨ quote = '"')
    {s cs : List Char} (h : Body quote s cs) (start rest : List Char) :
    quotedBody quote start (s ++ quote :: rest) = .found cs rest := by
  have hback : ('\\' : Char) ≠ quote := by rcases hquote with rfl | rfl <;> decide
  induction h with
  | nil =>
    rw [List.nil_append, quotedBody.eq_def]
    simp
  | @cons w s c cs hw _ ih =>
    cases hw with
    | raw hq hb hn =>
      rw [List.singleton_append, List.cons_append, quotedBody.eq_def]
      simp [hq, hb, hn, ih, Outcome.map]
    | @escape e _ he =>
      have hu : e ≠ 'u' := by
        rintro rfl
        simp [escapes] at he
      have he := mem_escapes_iff.1 he
      simp only [List.cons_append, List.nil_append]
      rw [quotedBody.eq_def]
      simp [hback, hu, he, ih, Outcome.map]
    | code h₁ h₂ h₃ h₄ hc =>
      have hcode := codePoint?_eq_some_iff.2 ⟨_, _, _, _, h₁, h₂, h₃, h₄, hc⟩
      simp only [List.cons_append, List.nil_append]
      rw [quotedBody.eq_def]
      simp [hback, hcode, ih, Outcome.map]

theorem exists_of_quotedBody {quote : Char} {start s rest cs : List Char}
    (h : quotedBody quote start s = .found cs rest) :
    ∃ t, s = t ++ quote :: rest ∧ Body quote t cs := by
  fun_induction quotedBody quote start s generalizing cs rest with
  | case1 | case3 | case5 | case7 | case8 => cases h
  | case2 =>
    cases h
    exact ⟨[], rfl, .nil⟩
  | case4 h₁ h₂ h₃ h₄ t c hcode _ _ ih =>
    obtain ⟨cs, hcs, rfl⟩ := Outcome.map_eq_found h
    obtain ⟨u, rfl, hu⟩ := ih hcs
    obtain ⟨n₁, n₂, n₃, n₄, hn₁, hn₂, hn₃, hn₄, hc⟩ := codePoint?_eq_some_iff.1 hcode
    exact ⟨['\\', 'u', h₁, h₂, h₃, h₄] ++ u, rfl, .cons (.code hn₁ hn₂ hn₃ hn₄ hc) hu⟩
  | case6 e t _ c he _ _ ih =>
    obtain ⟨cs, hcs, rfl⟩ := Outcome.map_eq_found h
    obtain ⟨u, rfl, hu⟩ := ih hcs
    exact ⟨['\\', e] ++ u, rfl, .cons (.escape (mem_escapes_iff.2 he)) hu⟩
  | case9 c s hq hn hb ih =>
    obtain ⟨cs, hcs, rfl⟩ := Outcome.map_eq_found h
    obtain ⟨u, rfl, hu⟩ := ih hcs
    exact ⟨[c] ++ u, rfl, .cons (.raw hq hb hn) hu⟩

theorem exists_of_quoted {s rest : List Char} {x : String} (h : quoted s = .found x rest) :
    ∃ t, s = t ++ rest ∧ Quoted t x := by
  unfold quoted at h
  split at h
  · next q t =>
    split at h
    · next hq =>
      obtain ⟨cs, hcs, rfl⟩ := Outcome.map_eq_found h
      obtain ⟨u, rfl, hu⟩ := exists_of_quotedBody hcs
      exact ⟨q :: (u ++ [q]), by simp, .mk (by simpa using hq) hu⟩
    · cases h
  · cases h

theorem quoted_append {t : List Char} {x : String} (ht : Quoted t x) (rest : List Char) :
    quoted (t ++ rest) = .found x rest := by
  cases ht with
  | @mk quote s cs hquote hs =>
    unfold quoted
    simp only [List.cons_append, List.append_assoc, List.nil_append]
    rw [if_pos (by simpa using hquote), quotedBody_append hquote hs]
    rfl

end GardenMap.Literal
