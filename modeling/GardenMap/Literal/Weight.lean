import GardenMap.Literal.Reader

/-!
# Literals are no shorter than they weigh

A literal takes at least as many characters as its value weighs, so reading text never makes a
value heavier: `weight_lt_of_read`. Recursion that reads text inside a value ends on this ground.
-/

namespace GardenMap.Literal

open Json

/-! ## Spans only shorten -/

theorem length_skipGap_le (s : List Char) : (skipGap s).length ≤ s.length :=
  (List.dropWhile_suffix _).length_le

theorem length_spanSign_le (s : List Char) : (Decimal.spanSign s).2.length ≤ s.length := by
  unfold Decimal.spanSign
  split <;> simp

theorem length_spanDigits (s : List Char) :
    (Decimal.spanDigits s).1.length + (Decimal.spanDigits s).2.length = s.length := by
  simp only [Decimal.spanDigits]
  rw [← List.length_append, List.takeWhile_append_dropWhile]

theorem length_spanExponent_le (s : List Char) : (Decimal.spanExponent s).2.length ≤ s.length := by
  unfold Decimal.spanExponent
  split
  · exact Nat.le_refl _
  · next e t =>
    have hs := length_spanSign_le t
    have hd := length_spanDigits (Decimal.spanSign t).2
    simp only
    split
    · split
      · exact Nat.le_refl _
      · simp only [List.length_cons]
        omega
    · exact Nat.le_refl _

theorem length_spanUnsigned_lt {negative : Bool} {s rest : List Char} {n : Decimal.Numeral}
    (h : Decimal.spanUnsigned? negative s = some (n, rest)) : rest.length < s.length := by
  unfold Decimal.spanUnsigned? at h
  have hw := length_spanDigits s
  generalize hws : Decimal.spanDigits s = ws at h hw
  obtain ⟨whole, afterWhole⟩ := ws
  simp only at h hw
  split at h
  · next t =>
    have hf := length_spanDigits t
    generalize hfs : Decimal.spanDigits t = fs at h hf
    obtain ⟨fraction, afterFraction⟩ := fs
    have he := length_spanExponent_le afterFraction
    simp only at h hf
    split at h
    · simp at h
    · simp only [Option.some.injEq, Prod.mk.injEq] at h
      obtain ⟨-, rfl⟩ := h
      simp only [List.length_cons] at hw
      omega
  · have he := length_spanExponent_le afterWhole
    simp only at h
    split at h
    · simp at h
    · next hne =>
      simp only [Option.some.injEq, Prod.mk.injEq] at h
      obtain ⟨-, rfl⟩ := h
      have : 0 < whole.length := by
        cases whole with
        | nil => simp at hne
        | cons => simp
      omega

theorem length_spanNumeral_lt {s rest : List Char} {n : Decimal.Numeral}
    (h : Decimal.spanNumeral? s = some (n, rest)) : rest.length < s.length :=
  Nat.lt_of_lt_of_le (length_spanUnsigned_lt h) (length_spanSign_le s)

/-! ## Tokens -/

theorem weight_numberOf {token : List Char} {n : Decimal.Numeral} {v : Json}
    (h : numberOf? token n = some v) : v.weight = 1 := by
  unfold numberOf? at h
  split at h <;> obtain ⟨-, h⟩ := Option.ite_none_right_eq_some.1 h <;> injection h with h <;>
    subst h <;> rfl

theorem weight_number {s rest : List Char} {v : Json} (h : number s = .found v rest) :
    v.weight + rest.length ≤ s.length := by
  unfold number at h
  split at h
  · cases h
  · next n r hn =>
    split at h
    · next w hw =>
      cases h
      have := length_spanNumeral_lt hn
      have := weight_numberOf hw
      omega
    · cases h

theorem weight_keywords : ∀ e ∈ keywords, e.2.weight = 1 ∧ 0 < e.1.toList.length := by decide

theorem weight_keyword {s rest : List Char} {v : Json} (h : keyword? s = some (v, rest)) :
    v.weight + rest.length ≤ s.length := by
  obtain ⟨e, he, h⟩ := List.exists_of_findSome?_eq_some h
  obtain ⟨r, hr, h⟩ := Option.map_eq_some_iff.1 h
  cases h
  have hk := weight_keywords e he
  unfold word? at hr
  split at hr
  · next hp =>
    simp only [Bool.and_eq_true] at hp
    have hle := (List.isPrefixOf_iff_prefix.1 hp.1).length_le
    cases hr
    simp only [List.length_drop]
    omega
  · cases hr

theorem Outcome.map_eq_found {α β : Type} {f : α → β} {o : Outcome α} {v : β}
    {rest : List Char} (h : o.map f = .found v rest) : ∃ u, o = .found u rest ∧ f u = v := by
  cases o with
  | found u r =>
    simp only [Outcome.map, Outcome.found.injEq] at h
    exact ⟨u, by rw [h.2], h.1⟩
  | missed => simp [Outcome.map] at h
  | failed => simp [Outcome.map] at h

theorem Outcome.andThen_eq_found {α β : Type} {f : α → List Char → Outcome β} {o : Outcome α}
    {v : β} {rest : List Char} (h : o.andThen f = .found v rest) :
    ∃ u r, o = .found u r ∧ f u r = .found v rest := by
  cases o with
  | found u r => exact ⟨u, r, rfl, h⟩
  | missed => simp [Outcome.andThen] at h
  | failed => simp [Outcome.andThen] at h

theorem length_quotedBody {quote : Char} {start s rest cs : List Char}
    (h : quotedBody quote start s = .found cs rest) : cs.length + 1 + rest.length ≤ s.length := by
  fun_induction quotedBody quote start s generalizing cs rest
  all_goals first
    | (cases h; done)
    | (cases h; simp only [List.length_nil, List.length_cons]; omega)
    | (rename_i ih
       obtain ⟨u, hu, rfl⟩ := Outcome.map_eq_found h
       have := ih hu
       simp only [List.length_cons] at this ⊢
       omega)

theorem weight_quoted {s rest : List Char} {x : String} (h : quoted s = .found x rest) :
    (Json.str x).weight + rest.length ≤ s.length := by
  unfold quoted at h
  split at h
  · next q t =>
    split at h
    · obtain ⟨cs, hcs, rfl⟩ := Outcome.map_eq_found h
      have := length_quotedBody hcs
      simp only [weight, String.toList_ofList, List.length_cons]
      omega
    · cases h
  · cases h

/-! ## Elements -/

theorem length_comma {s t : List Char} (h : comma? s = some t) : t.length < s.length := by
  have hs := length_skipGap_le s
  unfold comma? at h
  split at h
  · next u hu =>
    cases h
    rw [hu, List.length_cons] at hs
    omega
  · cases h

/-- The sum of what the elements of a list weigh. -/
def total {α : Type} (w : α → Nat) : List α → Nat
  | [] => 0
  | v :: vs => w v + total w vs

section Elements

variable {α : Type} {item : List Char → Outcome α} {w : α → Nat}

theorem weight_moreElements
    (hitem : ∀ s v rest, item s = .found v rest → w v + rest.length ≤ s.length)
    {s rest : List Char} {vs : List α} (h : moreElements item s = .found vs rest) :
    total w vs + rest.length ≤ s.length := by
  fun_induction moreElements item s generalizing vs rest with
  | case1 => cases h; simp [total]
  | case2 s t ht v r hv hlt ih =>
    obtain ⟨us, hus, rfl⟩ := Outcome.map_eq_found h
    have h1 := ih hus
    have h2 := hitem _ _ _ hv
    have h3 := length_comma ht
    simp only [total]
    omega
  | case3 => cases h; simp [total]
  | case4 => cases h; simp [total]
  | case5 => cases h

theorem weight_elements
    (hitem : ∀ s v rest, item s = .found v rest → w v + rest.length ≤ s.length)
    {s rest : List Char} {vs : List α} (h : elements item s = .found vs rest) :
    total w vs + rest.length ≤ s.length := by
  unfold elements at h
  split at h
  · next v r hv =>
    obtain ⟨us, hus, rfl⟩ := Outcome.map_eq_found h
    have h1 := weight_moreElements hitem hus
    have h2 := hitem _ _ _ hv
    simp only [total]
    omega
  · cases h; simp [total]
  · cases h

theorem length_bracketEnd {bracket : Char} {s rest : List Char} {u : Unit}
    (h : bracketEnd bracket s = .found u rest) : rest.length < s.length := by
  have hg := length_skipGap_le s
  unfold bracketEnd at h
  split at h
  · next c r hr =>
    rw [hr, List.length_cons] at hg
    split at h
    · cases h
      omega
    · cases h
  · cases h

theorem length_closing {bracket : Char} {s rest : List Char} {trailing : Bool}
    (h : closing bracket s = .found trailing rest) : rest.length < s.length := by
  unfold closing at h
  split at h
  · next t ht =>
    obtain ⟨u, hu, -⟩ := Outcome.map_eq_found h
    exact Nat.lt_trans (length_bracketEnd hu) (length_comma ht)
  · obtain ⟨u, hu, -⟩ := Outcome.map_eq_found h
    exact length_bracketEnd hu

theorem weight_enclosed
    (hitem : ∀ s v rest, item s = .found v rest → w v + rest.length ≤ s.length)
    {bracket : Char} {s rest : List Char} {vs : List α} {trailing : Bool}
    (h : enclosed item bracket s = .found (vs, trailing) rest) :
    total w vs + rest.length + 1 ≤ s.length := by
  obtain ⟨us, r, hus, h⟩ := Outcome.andThen_eq_found h
  obtain ⟨b, hb, he⟩ := Outcome.map_eq_found h
  cases he
  have h1 := weight_elements hitem hus
  have h2 := length_closing hb
  omega

end Elements

/-! ## Lists, tuples and mappings -/

theorem weightItems_eq (vs : List Json) : weightItems vs = total weight vs := by
  induction vs with
  | nil => rfl
  | cons v vs ih => simp [weightItems, total, ih]

theorem weightEntries_put_le (t : Object) (k : String) (v : Json) :
    weightEntries (Table.put t k v) ≤ weightEntries t + v.weight := by
  induction t with
  | nil => simp [Table.put, weightEntries]
  | cons e t ih =>
    obtain ⟨l, u⟩ := e
    simp only [Table.put]
    split <;> simp only [weightEntries] <;> omega

theorem weightEntries_putAll_le (es : List (String × Json)) (t : Object) :
    weightEntries (Table.putAll t es) ≤ weightEntries t + total (fun e => e.2.weight) es := by
  induction es generalizing t with
  | nil => simp [Table.putAll, total]
  | cons e es ih =>
    have h1 := ih (Table.put t e.1 e.2)
    have h2 := weightEntries_put_le t e.1 e.2
    simp only [Table.putAll, List.foldl_cons, total] at h1 ⊢
    omega

theorem weightEntries_ofList_le (es : List (String × Json)) :
    weightEntries (Table.ofList es) ≤ total (fun e => e.2.weight) es := by
  have h := weightEntries_putAll_le es []
  simpa [Table.ofList, weightEntries] using h

/-- The reader takes no fewer characters than the value found weighs. -/
def Weighs (item : List Char → Outcome Json) : Prop :=
  ∀ s v rest, item s = .found v rest → v.weight + rest.length ≤ s.length

section Forms

variable {item : List Char → Outcome Json}

theorem weight_entry (hitem : Weighs item) (s : List Char) (e : String × Json)
    (rest : List Char) (h : entry item s = .found e rest) :
    e.2.weight + rest.length ≤ s.length := by
  obtain ⟨key, r, hkey, h⟩ := Outcome.andThen_eq_found h
  have h1 := hitem _ _ _ hkey
  split at h
  · cases h
  · split at h
    · obtain ⟨v, hv, rfl⟩ := Outcome.map_eq_found h
      have h2 := hitem _ _ _ hv
      simp only [List.length_cons] at h1
      simp only
      omega
    · cases h

theorem weight_list (hitem : Weighs item) {s rest : List Char} {v : Json}
    (h : list item s = .found v rest) : v.weight + rest.length ≤ s.length := by
  obtain ⟨⟨vs, b⟩, hvs, rfl⟩ := Outcome.map_eq_found h
  have := weight_enclosed hitem hvs
  simp only [weight, weightItems_eq]
  omega

theorem weight_tuple (hitem : Weighs item) {s rest : List Char} {v : Json}
    (h : tuple item s = .found v rest) : v.weight + rest.length ≤ s.length := by
  obtain ⟨⟨vs, b⟩, hvs, rfl⟩ := Outcome.map_eq_found h
  have := weight_enclosed hitem hvs
  simp only
  split
  · simp only [total] at this
    omega
  · simp only [weight, weightItems_eq]
    omega

theorem weight_mapping (hitem : Weighs item) {s rest : List Char} {v : Json}
    (h : mapping item s = .found v rest) : v.weight + rest.length ≤ s.length + 1 := by
  obtain ⟨⟨es, b⟩, hes, rfl⟩ := Outcome.map_eq_found h
  have h1 := weight_enclosed (w := fun e => e.2.weight) (weight_entry hitem) hes
  have h2 := weightEntries_ofList_le es
  simp only [weight]
  omega

theorem missedAt_eq_found {s : List Char} {o : Outcome Json} {v : Json} {rest : List Char}
    (h : missedAt s o = .found v rest) : o = .found v rest := by
  unfold missedAt at h
  split at h
  · cases h
  · exact h

theorem weight_core (hitem : Weighs item) : Weighs (core item) := by
  intro s v rest h
  unfold core at h
  split at h
  · have := weight_list hitem (missedAt_eq_found h)
    simp only [List.length_cons]
    omega
  · have := weight_tuple hitem (missedAt_eq_found h)
    simp only [List.length_cons]
    omega
  · have := weight_mapping hitem h
    simp only [List.length_cons]
    omega
  · obtain ⟨x, hx, rfl⟩ := Outcome.map_eq_found h
    exact weight_quoted hx
  · obtain ⟨x, hx, rfl⟩ := Outcome.map_eq_found h
    exact weight_quoted hx
  · split at h
    · next w r hw =>
      cases h
      exact weight_keyword hw
    · exact weight_number h

end Forms

theorem weight_literal (depth : Nat) : Weighs (literal depth) := by
  induction depth with
  | zero => intro s v rest h; cases h
  | succ depth ih =>
    intro s v rest h
    obtain ⟨u, r, hu, h⟩ := Outcome.andThen_eq_found h
    cases h
    have h1 := weight_core ih _ _ _ hu
    have h2 := length_skipGap_le s
    have h3 := length_skipGap_le r
    omega

theorem weight_le_of_readChars {s : List Char} {v : Json} (h : readChars s = .ok v) :
    v.weight ≤ s.length := by
  unfold readChars at h
  split at h
  · cases h
  · split at h
    · next w hw =>
      cases h
      have := weight_literal _ _ _ _ hw
      omega
    · cases h
    · cases h
    · cases h

/-- The value of a text is lighter than the text as a value. -/
theorem weight_lt_of_read {text : String} {v : Json} (h : read text = .ok v) :
    v.weight < (Json.str text).weight := by
  have := weight_le_of_readChars h
  simp only [weight]
  omega

end GardenMap.Literal
