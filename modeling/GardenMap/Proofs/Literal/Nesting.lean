import GardenMap.Proofs.Literal.Leaves

/-!
# The reader follows the grammar

What the reader takes off a text at any depth is a literal of the grammar (`exists_of_literal`), and
a literal of the grammar is taken off whole where an element may end (`literal_append`). So the
texts that are read are the literals of the grammar (`readChars_eq_ok_iff`).

Proof. Both directions go by induction on the depth: a reader of elements that agrees with the
grammar gives a reader of lists, tuples and mappings that does. The reader of elements takes the
longest run of elements and leaves a comma that no element follows, since no element starts with a
comma or a closing bracket (`MissesStops`).
-/

namespace GardenMap.Literal

open Calendar Decimal

/-! ## Gaps -/

theorem exists_gap (s : List Char) : ∃ g, Gap g ∧ s = g ++ skipGap s :=
  ⟨s.takeWhile isGap, fun _ hc => isGap_iff.1 (List.mem_takeWhile_imp hc),
    List.takeWhile_append_dropWhile.symm⟩

theorem skipGap_append {g : List Char} (hg : Gap g) (s : List Char) :
    skipGap (g ++ s) = skipGap s :=
  List.dropWhile_append_of_pos fun _ hc => isGap_iff.2 (hg hc)

theorem skipGap_cons {c : Char} (hc : c ∉ gaps) (s : List Char) : skipGap (c :: s) = c :: s :=
  List.dropWhile_cons_of_neg (mt isGap_iff.1 hc)

/-- The text goes on with the end of an element, if it goes on. -/
def Stops (rest : List Char) : Prop := ∀ c, rest.head? = some c → c ∈ stops

theorem stops_cons {c : Char} (hc : c ∈ stops) (s : List Char) : Stops (c :: s) := by
  intro d hd
  cases hd
  exact hc

theorem not_mem_gaps_of_mem_stops {c : Char} (hc : c ∈ stops) : c ∉ gaps :=
  not_mem_of_all (by decide) hc

theorem Stops.skipGap_eq {rest : List Char} (h : Stops rest) : skipGap rest = rest := by
  cases rest with
  | nil => rfl
  | cons c s => exact skipGap_cons (not_mem_gaps_of_mem_stops (h c rfl)) s

theorem Stops.apart_append {g rest : List Char} (h : Stops rest) (hg : Gap g) :
    Apart (g ++ rest) := by
  intro c hc
  cases g with
  | nil => exact List.mem_append_right _ (h c hc)
  | cons d g =>
    cases hc
    exact List.mem_append_left _ (hg List.mem_cons_self)

/-! ## Elements -/

section Elements

variable {α : Type} {item : List Char → Outcome α} {Item : List Char → α → Prop}

/-- What the reader takes off a text is of a form. -/
def Sound (item : List Char → Outcome α) (Item : List Char → α → Prop) : Prop :=
  ∀ s v rest, item s = .found v rest → ∃ t, s = t ++ rest ∧ Item t v

/-- The reader takes off texts of a form, up to some length, where an element may end. -/
def CompleteBelow (n : Nat) (item : List Char → Outcome α) (Item : List Char → α → Prop) : Prop :=
  ∀ t v rest, t.length < n → Item t v → Stops rest → item (t ++ rest) = .found v rest

/-- The reader finds nothing where an element ends. -/
def MissesStops (item : List Char → Outcome α) : Prop :=
  ∀ g c rest, Gap g → c ∈ stops → ∃ p, item (g ++ c :: rest) = .missed p

/-- A form may be followed by a gap. -/
def AbsorbsGaps (Item : List Char → α → Prop) : Prop :=
  ∀ t g v, Item t v → Gap g → Item (t ++ g) v

theorem Separated.append_gap (habsorbs : AbsorbsGaps Item) {t g : List Char} {vs : List α}
    (ht : Separated Item t vs) (hg : Gap g) : Separated Item (t ++ g) vs := by
  induction ht with
  | one ht => exact .one (habsorbs _ _ _ ht hg)
  | more ht _ ih =>
    rw [List.append_assoc, List.cons_append]
    exact .more ht ih

theorem exists_of_comma? {s t : List Char} (h : comma? s = some t) :
    ∃ g, Gap g ∧ s = g ++ ',' :: t := by
  obtain ⟨g, hg, hs⟩ := exists_gap s
  unfold comma? at h
  split at h
  · next u hu =>
    cases h
    exact ⟨g, hg, by rw [← hu]; exact hs⟩
  · cases h

theorem exists_of_bracketEnd {bracket : Char} {s rest : List Char} {u : Unit}
    (h : bracketEnd bracket s = .found u rest) : ∃ g, Gap g ∧ s = g ++ bracket :: rest := by
  obtain ⟨g, hg, hs⟩ := exists_gap s
  unfold bracketEnd at h
  split at h
  · next c r hr =>
    split at h
    · next hc =>
      cases h
      exact ⟨g, hg, by rw [← hc, ← hr]; exact hs⟩
    · cases h
  · cases h

theorem exists_of_moreElements (hsound : Sound item Item) (habsorbs : AbsorbsGaps Item)
    {s rest : List Char} {vs : List α} (h : moreElements item s = .found vs rest)
    {t : List Char} {v : α} (ht : Item t v) :
    ∃ u, s = u ++ rest ∧ Separated Item (t ++ u) (v :: vs) := by
  fun_induction moreElements item s generalizing vs rest t v with
  | case1 | case3 | case4 =>
    cases h
    exact ⟨[], rfl, by rw [List.append_nil]; exact .one ht⟩
  | case2 s s' hcomma w r hw _ ih =>
    obtain ⟨ws, hws, rfl⟩ := Outcome.map_eq_found h
    obtain ⟨g, hg, rfl⟩ := exists_of_comma? hcomma
    obtain ⟨t', rfl, ht'⟩ := hsound _ _ _ hw
    obtain ⟨u, rfl, hu⟩ := ih hws ht'
    refine ⟨g ++ ',' :: (t' ++ u), by simp, ?_⟩
    rw [← List.append_assoc]
    exact .more (habsorbs _ _ _ ht hg) hu
  | case5 => cases h

theorem exists_of_enclosed (hsound : Sound item Item) (habsorbs : AbsorbsGaps Item)
    {bracket : Char} {s rest : List Char} {vs : List α} {trailing : Bool}
    (h : enclosed item bracket s = .found (vs, trailing) rest) :
    ∃ t, s = t ++ bracket :: rest ∧ Enclosed Item t vs trailing := by
  obtain ⟨us, r, hus, h⟩ := Outcome.andThen_eq_found h
  obtain ⟨b, hb, heq⟩ := Outcome.map_eq_found h
  cases heq
  -- the end: a gap, or a gap, a comma and a gap
  have hend : (trailing = false ∧ ∃ g, Gap g ∧ r = g ++ bracket :: rest) ∨
      (trailing = true ∧ ∃ g h, Gap g ∧ Gap h ∧ r = g ++ ',' :: (h ++ bracket :: rest)) := by
    unfold closing at hb
    split at hb
    · next t hcomma =>
      obtain ⟨_, hbracket, rfl⟩ := Outcome.map_eq_found hb
      obtain ⟨g, hg, rfl⟩ := exists_of_comma? hcomma
      obtain ⟨g', hg', rfl⟩ := exists_of_bracketEnd hbracket
      exact .inr ⟨rfl, g, g', hg, hg', rfl⟩
    · obtain ⟨_, hbracket, rfl⟩ := Outcome.map_eq_found hb
      exact .inl ⟨rfl, exists_of_bracketEnd hbracket⟩
  have hitems : (vs = [] ∧ s = r) ∨ ∃ t, Separated Item t vs ∧ s = t ++ r := by
    unfold elements at hus
    split at hus
    · next v r' hv =>
      obtain ⟨ws, hws, rfl⟩ := Outcome.map_eq_found hus
      obtain ⟨t, rfl, ht⟩ := hsound _ _ _ hv
      obtain ⟨u, rfl, hu⟩ := exists_of_moreElements hsound habsorbs hws ht
      exact .inr ⟨t ++ u, hu, by simp⟩
    · cases hus
      exact .inl ⟨rfl, rfl⟩
    · cases hus
  rcases hitems with ⟨rfl, rfl⟩ | ⟨t, ht, rfl⟩ <;>
    rcases hend with ⟨rfl, g, hg, rfl⟩ | ⟨rfl, g, g', hg, hg', rfl⟩
  · exact ⟨g, rfl, .empty hg⟩
  · exact ⟨g ++ ',' :: g', by simp, .comma hg hg'⟩
  · exact ⟨t ++ g, by simp, .items (ht.append_gap habsorbs hg)⟩
  · exact ⟨(t ++ g) ++ ',' :: g', by simp, .trailing (ht.append_gap habsorbs hg) hg'⟩

theorem comma?_append {g : List Char} (hg : Gap g) (s : List Char) :
    comma? (g ++ ',' :: s) = some s := by
  unfold comma?
  rw [skipGap_append hg, skipGap_cons (by decide)]
  rfl

theorem comma?_cons (s : List Char) : comma? (',' :: s) = some s := comma?_append gap_nil s

theorem comma?_eq_none {g : List Char} (hg : Gap g) {c : Char} (hc : c ∈ stops) (hne : c ≠ ',')
    (s : List Char) : comma? (g ++ c :: s) = none := by
  unfold comma?
  rw [skipGap_append hg, skipGap_cons (not_mem_gaps_of_mem_stops hc)]
  split
  · next heq => exact absurd (List.cons.inj heq).1 hne
  · rfl

theorem bracketEnd_append {g : List Char} (hg : Gap g) {bracket : Char} (hb : bracket ∈ stops)
    (s : List Char) : bracketEnd bracket (g ++ bracket :: s) = .found () s := by
  unfold bracketEnd
  rw [skipGap_append hg, skipGap_cons (not_mem_gaps_of_mem_stops hb)]
  exact if_pos rfl

theorem closing_append {g : List Char} (hg : Gap g) {bracket : Char} (hb : bracket ∈ stops)
    (hne : bracket ≠ ',') (s : List Char) :
    closing bracket (g ++ bracket :: s) = .found false s := by
  rw [closing, comma?_eq_none hg hb hne]
  simp only [bracketEnd_append hg hb]
  rfl

theorem closing_comma {g h : List Char} (hg : Gap g) (hh : Gap h) {bracket : Char}
    (hb : bracket ∈ stops) (s : List Char) :
    closing bracket (g ++ ',' :: (h ++ bracket :: s)) = .found true s := by
  rw [closing, comma?_append hg]
  simp only [bracketEnd_append hh hb]
  rfl

theorem elements_append {n : Nat} (hcomplete : CompleteBelow n item Item)
    {t : List Char} {vs : List α} (ht : Separated Item t vs) (hn : t.length < n)
    {rest : List Char} (hrest : Stops rest) (hend : moreElements item rest = .found [] rest) :
    elements item (t ++ rest) = .found vs rest := by
  -- one element is found, and the others after it
  have hfirst : ∃ v ws r, vs = v :: ws ∧ item (t ++ rest) = .found v r ∧
      moreElements item r = .found ws rest ∧ r.length ≤ (t ++ rest).length := by
    induction ht with
    | one ht => exact ⟨_, [], rest, rfl, hcomplete _ _ _ hn ht hrest, hend, by simp⟩
    | @more t s v vs ht _ ih =>
      rw [List.length_append, List.length_cons] at hn
      obtain ⟨w, ws, r, rfl, hw, hws, hle⟩ := ih (by omega)
      rw [List.append_assoc, List.cons_append]
      refine ⟨v, w :: ws, ',' :: (s ++ rest), rfl,
        hcomplete _ _ _ (by omega) ht (stops_cons (by decide) _), ?_, by simp⟩
      rw [moreElements, comma?_cons]
      simp only [hw]
      rw [if_pos (by rw [List.length_cons]; omega), hws]
      rfl
  obtain ⟨v, ws, r, rfl, hv, hws, -⟩ := hfirst
  rw [elements, hv]
  simp only [hws]
  rfl

theorem enclosed_append {n : Nat} (hcomplete : CompleteBelow n item Item)
    (hmisses : MissesStops item) {bracket : Char} (hb : bracket ∈ stops) (hne : bracket ≠ ',')
    {t : List Char} {vs : List α} {trailing : Bool} (ht : Enclosed Item t vs trailing)
    (hn : t.length < n) (rest : List Char) :
    enclosed item bracket (t ++ bracket :: rest) = .found (vs, trailing) rest := by
  unfold enclosed
  cases ht with
  | empty hg =>
    obtain ⟨p, hp⟩ := hmisses _ bracket rest hg hb
    rw [elements, hp]
    simp only [Outcome.andThen, closing_append hg hb hne]
    rfl
  | @comma g h hg hh =>
    obtain ⟨p, hp⟩ := hmisses g ',' (h ++ bracket :: rest) hg (by decide)
    rw [List.append_assoc, List.cons_append, elements, hp]
    simp only [Outcome.andThen, closing_comma hg hh hb]
    rfl
  | items ht =>
    have hclosing : closing bracket (bracket :: rest) = .found false rest :=
      closing_append gap_nil hb hne rest
    have hcomma : comma? (bracket :: rest) = none := comma?_eq_none gap_nil hb hne rest
    have hend : moreElements item (bracket :: rest) = .found [] (bracket :: rest) := by
      rw [moreElements, hcomma]
    rw [elements_append hcomplete ht hn (stops_cons hb _) hend]
    simp only [Outcome.andThen, hclosing]
    rfl
  | @trailing t g vs ht hg =>
    have hclosing : closing bracket (',' :: (g ++ bracket :: rest)) = .found true rest :=
      closing_comma gap_nil hg hb rest
    obtain ⟨p, hp⟩ := hmisses g bracket rest hg hb
    have hend : moreElements item (',' :: (g ++ bracket :: rest)) =
        .found [] (',' :: (g ++ bracket :: rest)) := by
      rw [moreElements, comma?_cons]
      simp only [hp]
    rw [List.length_append] at hn
    rw [List.append_assoc, List.cons_append,
      elements_append hcomplete ht (by omega) (stops_cons (by decide) _) hend]
    simp only [Outcome.andThen, hclosing]
    rfl

end Elements

/-! ## Entries -/

section Forms

variable {item : List Char → Outcome Json} {Item : List Char → Json → Prop}

theorem key_iff {v : Json} {k : String} : Key v k ↔ keyText? v = some k := by
  constructor
  · intro h
    cases h <;> rfl
  · intro h
    unfold keyText? at h
    split at h <;> cases h
    · exact .str _
    · exact .int _
    · exact .float _
    · exact .bool _

theorem sound_entry (hsound : Sound item Item) : Sound (entry item) (Entry Item) := by
  intro s e rest h
  obtain ⟨key, r, hkey, h⟩ := Outcome.andThen_eq_found h
  obtain ⟨t, rfl, ht⟩ := hsound _ _ _ hkey
  split at h
  · cases h
  · next k hk =>
    split at h
    · obtain ⟨v, hv, rfl⟩ := Outcome.map_eq_found h
      obtain ⟨u, rfl, hu⟩ := hsound _ _ _ hv
      exact ⟨t ++ ':' :: u, by simp, .mk ht (key_iff.2 hk) hu⟩
    · cases h

theorem absorbsGaps_entry (habsorbs : AbsorbsGaps Item) : AbsorbsGaps (Entry Item) := by
  intro t g e ht hg
  cases ht with
  | mk hs hk ht =>
    rw [List.append_assoc, List.cons_append]
    exact .mk hs hk (habsorbs _ _ _ ht hg)

theorem completeBelow_entry {n : Nat} (hcomplete : CompleteBelow n item Item) :
    CompleteBelow n (entry item) (Entry Item) := by
  intro t e rest hn ht hrest
  cases ht with
  | @mk s t key v k hs hk ht =>
    rw [List.length_append, List.length_cons] at hn
    have hkey := hcomplete s key (':' :: (t ++ rest)) (by omega) hs (stops_cons (by decide) _)
    have hvalue := hcomplete t v rest (by omega) ht hrest
    rw [List.append_assoc, List.cons_append, entry, hkey]
    simp only [Outcome.andThen, key_iff.1 hk, hvalue]
    rfl

theorem missesStops_entry (hmisses : MissesStops item) : MissesStops (entry item) := by
  intro g c rest hg hc
  obtain ⟨p, hp⟩ := hmisses g c rest hg hc
  exact ⟨p, by rw [entry, hp]; rfl⟩

/-! ## Literals -/

theorem absorbsGaps_spells : AbsorbsGaps Spells := by
  intro t g v ht hg
  cases ht with
  | mk hg₁ ht hg₂ =>
    rw [List.append_assoc, List.append_assoc]
    exact .mk hg₁ ht (hg₂.append hg)

theorem sound_core (hsound : Sound item Spells) : Sound (core item) Core := by
  intro s v rest h
  unfold core at h
  split at h
  · obtain ⟨⟨vs, b⟩, hvs, rfl⟩ := Outcome.map_eq_found (missedAt_eq_found h)
    obtain ⟨t, rfl, ht⟩ := exists_of_enclosed hsound absorbsGaps_spells hvs
    exact ⟨_, by simp, .list ht⟩
  · obtain ⟨⟨vs, b⟩, hvs, rfl⟩ := Outcome.map_eq_found (missedAt_eq_found h)
    obtain ⟨t, rfl, ht⟩ := exists_of_enclosed hsound absorbsGaps_spells hvs
    refine ⟨'(' :: (t ++ [')']), by simp, ?_⟩
    simp only
    split
    · cases ht with
      | items ht =>
        cases ht with
        | one ht => exact .group ht
        | more _ h => cases h
    · next hsingle =>
      refine .tuple ht ?_
      cases b with
      | true => exact .inl rfl
      | false => exact .inr fun hlen => (List.length_eq_one_iff.1 hlen).elim (hsingle · · rfl)
  · obtain ⟨⟨es, b⟩, hes, rfl⟩ := Outcome.map_eq_found h
    obtain ⟨t, rfl, ht⟩ :=
      exists_of_enclosed (sound_entry hsound) (absorbsGaps_entry absorbsGaps_spells) hes
    exact ⟨_, by simp, .mapping ht⟩
  · obtain ⟨x, hx, rfl⟩ := Outcome.map_eq_found h
    obtain ⟨t, ht, hquoted⟩ := exists_of_quoted hx
    exact ⟨t, ht, .quoted hquoted⟩
  · obtain ⟨x, hx, rfl⟩ := Outcome.map_eq_found h
    obtain ⟨t, ht, hquoted⟩ := exists_of_quoted hx
    exact ⟨t, ht, .quoted hquoted⟩
  · split at h
    · next w r hw =>
      cases h
      obtain ⟨t, ht, hkeyword⟩ := exists_of_keyword? hw
      exact ⟨t, ht, .keyword hkeyword⟩
    · obtain ⟨t, ht, hnumber⟩ := exists_of_number h
      exact ⟨t, ht, .number hnumber⟩

end Forms

/-- What is read off a text, nested however deep, is a literal of the grammar. -/
theorem exists_of_literal (depth : Nat) : Sound (literal depth) Spells := by
  induction depth with
  | zero =>
    intro s v rest h
    cases h
  | succ depth ih =>
    intro s v rest h
    obtain ⟨u, r, hu, h⟩ := Outcome.andThen_eq_found h
    cases h
    obtain ⟨t, ht, hcore⟩ := sound_core ih _ _ _ hu
    obtain ⟨g, hg, hs⟩ := exists_gap s
    obtain ⟨g', hg', hr⟩ := exists_gap r
    refine ⟨g ++ (t ++ g'), ?_, .mk hg hcore hg'⟩
    rw [hs, ht, List.append_assoc, List.append_assoc, ← hr]

/-! ## Literals taken off whole -/

/-- The characters that decide on their own how a literal goes on. -/
def openers : List Char := ['[', '(', '\x7b', '\'', '"']

theorem core_of_not_opener (item : List Char → Outcome Json) {c : Char} (hc : c ∉ openers)
    (s : List Char) :
    core item (c :: s) =
      match keyword? (c :: s) with
      | some (v, rest) => .found v rest
      | none => number (c :: s) := by
  simp only [openers, List.mem_cons, List.not_mem_nil, or_false, not_or] at hc
  unfold core
  split
  · next heq => exact absurd (List.cons.inj heq).1 hc.1
  · next heq => exact absurd (List.cons.inj heq).1 hc.2.1
  · next heq => exact absurd (List.cons.inj heq).1 hc.2.2.1
  · next heq => exact absurd (List.cons.inj heq).1 hc.2.2.2.1
  · next heq => exact absurd (List.cons.inj heq).1 hc.2.2.2.2
  · cases keyword? (c :: s) <;> rfl

/-- The first characters of numbers that are no digits. -/
def signs : List Char := ['+', '-', '.']

theorem Keyword.exists_cons {t : List Char} {v : Json} (h : Keyword t v) :
    ∃ c s, t = c :: s ∧ c ∈ initials := by
  cases h with
  | null hw | true hw | false hw =>
    simp only [List.mem_cons, List.not_mem_nil, or_false] at hw
    rcases hw with rfl | rfl <;> exact ⟨_, _, rfl, by decide⟩

theorem Number.exists_cons {t : List Char} {v : Json} (h : Number t v) :
    ∃ c s, t = c :: s ∧ (c ∈ signs ∨ c.isDigit = true) := by
  have hfirst : ∀ {sign m ds e : List Char} {negative : Bool} {places : Nat},
      Sign sign negative → Mantissa m ds places →
      ∃ c s, sign ++ (m ++ e) = c :: s ∧ (c ∈ signs ∨ c.isDigit = true) := by
    intro sign m ds e negative places hσ hm
    obtain ⟨c, s, rfl, hc⟩ := hm.exists_cons
    cases hσ with
    | none => exact ⟨c, _, rfl, hc.imp (fun h => by simp [signs, h]) id⟩
    | plus => exact ⟨'+', _, rfl, .inl (by decide)⟩
    | minus => exact ⟨'-', _, rfl, .inl (by decide)⟩
  cases h with
  | whole hσ hds =>
    have h := hfirst (e := []) hσ (.whole hds)
    rwa [List.append_nil] at h
  | binary hσ hm => exact hfirst hσ hm

theorem Core.exists_cons {t : List Char} {v : Json} (h : Core t v) :
    ∃ c s, t = c :: s ∧ (c ∈ openers ++ initials ++ signs ∨ c.isDigit = true) := by
  cases h with
  | keyword h =>
    obtain ⟨c, s, rfl, hc⟩ := h.exists_cons
    exact ⟨c, s, rfl, .inl (by simp [hc])⟩
  | number h =>
    obtain ⟨c, s, rfl, hc⟩ := h.exists_cons
    exact ⟨c, s, rfl, hc.imp (fun h => by simp [h]) id⟩
  | quoted h =>
    cases h with
    | mk hq => exact ⟨_, _, rfl, .inl (by rcases hq with rfl | rfl <;> decide)⟩
  | list | group | tuple | mapping => exact ⟨_, _, rfl, .inl (by decide)⟩

theorem Core.head_of_all {P : Char → Bool} (hP : (openers ++ initials ++ signs).all P = true)
    (hdigit : ∀ c : Char, c.isDigit = true → P c = true) {t : List Char} {v : Json}
    (h : Core t v) : ∃ c s, t = c :: s ∧ P c = true := by
  obtain ⟨c, s, rfl, hc⟩ := h.exists_cons
  exact ⟨c, s, rfl, hc.elim (List.all_eq_true.1 hP c) (hdigit c)⟩

theorem not_mem_of_digit {c : Char} (hc : c.isDigit = true) {cs : List Char}
    (hcs : cs.all (fun d => !d.isDigit) = true) : c ∉ cs := by
  intro hmem
  have hno := List.all_eq_true.1 hcs c hmem
  rw [hc] at hno
  cases hno

section Forms

variable {item : List Char → Outcome Json}

theorem core_append {n : Nat} (hcomplete : CompleteBelow n item Spells)
    (hmisses : MissesStops item) {t : List Char} {v : Json} (ht : Core t v) (hn : t.length ≤ n)
    {rest : List Char} (hrest : Apart rest) : core item (t ++ rest) = .found v rest := by
  cases ht with
  | keyword ht =>
    have hfound := keyword?_append ht hrest
    obtain ⟨c, s, rfl, hc⟩ := ht.exists_cons
    have hopener : c ∉ openers := not_mem_of_all (by decide) hc
    rw [List.cons_append] at hfound ⊢
    rw [core_of_not_opener _ hopener, hfound]
  | number ht =>
    have hfound := number_append ht hrest
    obtain ⟨c, s, rfl, hc⟩ := ht.exists_cons
    have hother : c ∉ openers ++ initials :=
      hc.elim (not_mem_of_all (by decide)) fun hc => not_mem_of_digit hc (by decide)
    rw [List.mem_append, not_or] at hother
    rw [List.cons_append] at hfound ⊢
    rw [core_of_not_opener _ hother.1, keyword?_eq_none_of_not_mem hother.2, hfound]
  | quoted ht =>
    have hfound := quoted_append ht rest
    cases ht with
    | mk hq =>
      rcases hq with rfl | rfl
      all_goals
        rw [List.cons_append] at hfound ⊢
        simp only [core, hfound]
        rfl
  | list ht =>
    have hfound := enclosed_append hcomplete hmisses (show ']' ∈ stops by decide) (by decide) ht
      (length_lt_of_bracketed hn) rest
    simp only [List.cons_append, List.append_assoc, List.nil_append, core, list, hfound]
    rfl
  | group ht =>
    have hfound := enclosed_append hcomplete hmisses (show ')' ∈ stops by decide) (by decide)
      (.items (.one ht)) (length_lt_of_bracketed hn) rest
    simp only [List.cons_append, List.append_assoc, List.nil_append, core, tuple, hfound]
    rfl
  | @tuple t vs trailing ht hmany =>
    have hfound := enclosed_append hcomplete hmisses (show ')' ∈ stops by decide) (by decide) ht
      (length_lt_of_bracketed hn) rest
    simp only [List.cons_append, List.append_assoc, List.nil_append, core, tuple, hfound,
      Outcome.map]
    split
    · simp at hmany
    · rfl
  | mapping ht =>
    have hfound := enclosed_append (completeBelow_entry hcomplete) (missesStops_entry hmisses)
      (show '\x7d' ∈ stops by decide) (by decide) ht
      (length_lt_of_bracketed hn) rest
    simp only [List.cons_append, List.append_assoc, List.nil_append, core, mapping, hfound]
    rfl

theorem number_of_mem_stops {c : Char} (hc : c ∈ stops) (s : List Char) :
    number (c :: s) = .missed (c :: s) := by
  simp only [stops, List.mem_cons, List.not_mem_nil, or_false] at hc
  rcases hc with rfl | rfl | rfl | rfl | rfl <;> rfl

theorem core_of_mem_stops (item : List Char → Outcome Json) {c : Char} (hc : c ∈ stops)
    (s : List Char) : core item (c :: s) = .missed (c :: s) := by
  have hother : c ∉ openers ++ initials := not_mem_of_all (by decide) hc
  rw [List.mem_append, not_or] at hother
  rw [core_of_not_opener _ hother.1, keyword?_eq_none_of_not_mem hother.2,
    number_of_mem_stops hc]

end Forms

theorem missesStops_literal (depth : Nat) : MissesStops (literal depth) := by
  intro g c rest hg hc
  cases depth with
  | zero => exact ⟨_, rfl⟩
  | succ depth =>
    refine ⟨c :: rest, ?_⟩
    rw [literal, skipGap_append hg, skipGap_cons (not_mem_gaps_of_mem_stops hc),
      core_of_mem_stops _ hc]
    rfl

/-- A literal of the grammar is taken off whole where an element may end. -/
theorem literal_append (depth : Nat) : CompleteBelow depth (literal depth) Spells := by
  induction depth with
  | zero =>
    intro t v rest hn
    omega
  | succ depth ih =>
    intro t v rest hn ht hrest
    cases ht with
    | @mk g t h v hg ht hh =>
      simp only [List.length_append] at hn
      have hcore := core_append ih (missesStops_literal depth) ht (by omega)
        (hrest.apart_append hh)
      have hdigit : ∀ c : Char, c.isDigit = true → c ∉ gaps :=
        fun c hc => not_mem_of_digit hc (by decide)
      obtain ⟨c, s, rfl, hc⟩ := ht.head_of_all (P := fun c => !gaps.contains c) (by decide)
        fun c hc => by simpa using hdigit c hc
      have hc : c ∉ gaps := by simpa using hc
      rw [List.cons_append] at hcore
      rw [literal, List.append_assoc, List.append_assoc, List.cons_append, skipGap_append hg,
        skipGap_cons hc, hcore]
      simp only [Outcome.andThen, skipGap_append hh, hrest.skipGap_eq]

/-- The texts that are read are the literals of the grammar. -/
theorem readChars_eq_ok_iff {s : List Char} {v : Json} :
    readChars s = .ok v ↔ Spells s v := by
  constructor
  · intro h
    unfold readChars at h
    split at h
    · cases h
    · split at h
      · next hv =>
        cases h
        obtain ⟨t, rfl, ht⟩ := exists_of_literal _ _ _ _ hv
        rwa [List.append_nil]
      · cases h
      · cases h
      · cases h
  · intro h
    have hfound := literal_append (s.length + 1) s v [] (Nat.lt_succ_self _) h
      (fun c hc => by cases hc)
    have hblank : ¬s.all Text.isBlank = true := by
      intro hall
      cases h with
      | mk hg ht hh =>
        obtain ⟨c, s, rfl, hc⟩ := ht.head_of_all (P := fun c => !Text.isBlank c) (by decide)
          fun c hc => by rw [Text.isBlank_of_isDigit hc]; rfl
        rw [List.all_eq_true] at hall
        rw [hall c (by simp)] at hc
        cases hc
    rw [List.append_nil] at hfound
    rw [readChars, if_neg hblank, hfound]

end GardenMap.Literal
