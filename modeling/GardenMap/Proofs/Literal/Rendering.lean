import GardenMap.Proofs.Literal.Nesting
import GardenMap.Proofs.Tables

/-!
# Every way of writing a value reads back

`Renders` says which texts write a value without binary numbers: the words and brackets are chosen
freely at every level, and so are the gaps, the quotes, the escapes and the last commas. Each such
text is a literal of the grammar, so it is read as that value, and every value has one
(`read_of_renders`).
-/

namespace GardenMap

/-- Values without binary numbers: whole numbers have 64 bits, and mappings are tables. -/
inductive Json.Plain : Json → Prop
  | null : Plain .null
  | bool (b : Bool) : Plain (.bool b)
  | int {i : Int} : Decimal.fitsWord i = true → Plain (.int i)
  | str (s : String) : Plain (.str s)
  | arr {vs : List Json} : (∀ v ∈ vs, Plain v) → Plain (.arr vs)
  | obj {es : Object} : Table.Sorted es → (∀ e ∈ es, Plain e.2) → Plain (.obj es)

namespace Literal

open Calendar Decimal

/-! ## Renderings -/

/-- An entry of a mapping: its key written as text, a colon and its value. -/
inductive Member (Item : List Char → Json → Prop) : List Char → String × Json → Prop
  | mk {s t : List Char} {k : String} {v : Json} :
      Item s (.str k) → Item t v → Member Item (s ++ ':' :: t) (k, v)

mutual

/-- The ways to write a value, with gaps around it. -/
inductive Renders : List Char → Json → Prop
  | mk {g t h : List Char} {v : Json} : Gap g → Written t v → Gap h → Renders (g ++ (t ++ h)) v

/-- The ways to write a value, with no gaps around it. Entries of a mapping may come in any order,
and a later one replaces an earlier one of its key. -/
inductive Written : List Char → Json → Prop
  | keyword {t : List Char} {v : Json} : Keyword t v → Written t v
  | int {sign ds : List Char} {negative : Bool} :
      Sign sign negative → Digits ds → fitsWord (signed negative (value ds)) = true →
      Written (sign ++ ds) (.int (signed negative (value ds)))
  | str {t : List Char} {s : String} : Quoted t s → Written t (.str s)
  | list {t : List Char} {vs : List Json} {trailing : Bool} :
      Enclosed Renders t vs trailing → Written ('[' :: (t ++ [']'])) (.arr vs)
  | tuple {t : List Char} {vs : List Json} {trailing : Bool} :
      Enclosed Renders t vs trailing → trailing = true ∨ vs.length ≠ 1 →
      Written ('(' :: (t ++ [')'])) (.arr vs)
  | object {t : List Char} {es : List (String × Json)} {trailing : Bool} :
      Enclosed (Member Renders) t es trailing →
      Written ('\x7b' :: (t ++ ['\x7d'])) (.obj (Table.ofList es))
  | group {t : List Char} {v : Json} : Renders t v → Written ('(' :: (t ++ [')'])) v

end

/-! ## Renderings are literals -/

section Elements

variable {α : Type} {Item Item' : List Char → α → Prop} {n : Nat}

theorem Separated.mono (h : ∀ t v, t.length < n → Item t v → Item' t v) {t : List Char}
    {vs : List α} (ht : Separated Item t vs) (hn : t.length < n) : Separated Item' t vs := by
  induction ht with
  | one ht => exact .one (h _ _ hn ht)
  | more ht _ ih =>
    rw [List.length_append, List.length_cons] at hn
    exact .more (h _ _ (by omega) ht) (ih (by omega))

theorem Enclosed.mono (h : ∀ t v, t.length < n → Item t v → Item' t v) {t : List Char}
    {vs : List α} {trailing : Bool} (ht : Enclosed Item t vs trailing) (hn : t.length < n) :
    Enclosed Item' t vs trailing := by
  cases ht with
  | empty hg => exact .empty hg
  | comma hg hh => exact .comma hg hh
  | items ht => exact .items (ht.mono h hn)
  | trailing ht hg =>
    rw [List.length_append] at hn
    exact .trailing (ht.mono h (by omega)) hg

theorem exists_enclosed {vs : List α} (h : ∀ v ∈ vs, ∃ t, Item t v) :
    ∃ t, Enclosed Item t vs false := by
  have hsep : vs ≠ [] → ∃ t, Separated Item t vs := by
    intro hne
    induction vs with
    | nil => exact absurd rfl hne
    | cons v vs ih =>
      obtain ⟨t, ht⟩ := h v List.mem_cons_self
      cases vs with
      | nil => exact ⟨t, .one ht⟩
      | cons w vs =>
        obtain ⟨s, hs⟩ := ih (fun v hv => h v (List.mem_cons_of_mem _ hv)) (by simp)
        exact ⟨_, .more ht hs⟩
  by_cases hne : vs = []
  · subst hne
    exact ⟨[], .empty gap_nil⟩
  · obtain ⟨t, ht⟩ := hsep hne
    exact ⟨t, .items ht⟩

end Elements

theorem entry_of_member {n : Nat} (h : ∀ t v, t.length < n → Renders t v → Spells t v) :
    ∀ t e, t.length < n → Member Renders t e → Entry Spells t e := by
  intro t e hn ht
  cases ht with
  | mk hs ht =>
    rw [List.length_append, List.length_cons] at hn
    exact .mk (h _ _ (by omega) hs) (.str _) (h _ _ (by omega) ht)

theorem core_of_written {n : Nat} (h : ∀ t v, t.length < n → Renders t v → Spells t v)
    {t : List Char} {v : Json} (ht : Written t v) (hn : t.length ≤ n) : Core t v := by
  cases ht with
  | keyword ht => exact .keyword ht
  | int hσ hds hfits => exact .number (.whole hσ hds hfits)
  | str ht => exact .quoted ht
  | list ht => exact .list (ht.mono h (length_lt_of_bracketed hn))
  | tuple ht hmany => exact .tuple (ht.mono h (length_lt_of_bracketed hn)) hmany
  | object ht => exact .mapping (ht.mono (entry_of_member h) (length_lt_of_bracketed hn))
  | group ht => exact .group (h _ _ (length_lt_of_bracketed hn) ht)

theorem spells_of_renders {t : List Char} {v : Json} (h : Renders t v) : Spells t v := by
  refine of_shorter (fun t v ih ht => ?_) h
  cases ht with
  | mk hg ht hh =>
    simp only [List.length_append] at ih
    exact .mk hg (core_of_written ih ht (by omega)) hh

/-! ## Every value has a rendering -/

theorem exists_writes (c : Char) : ∃ w, Writes '"' w c := by
  by_cases hquote : c = '"'
  · subst hquote
    exact ⟨_, .escape (e := '"') (by decide)⟩
  by_cases hback : c = '\\'
  · subst hback
    exact ⟨_, .escape (e := '\\') (by decide)⟩
  by_cases hline : c = '\n'
  · subst hline
    exact ⟨_, .escape (e := 'n') (by decide)⟩
  exact ⟨_, .raw hquote hback hline⟩

theorem exists_quoted (s : String) : ∃ t, Quoted t s := by
  have hbody : ∀ cs : List Char, ∃ t, Body '"' t cs := by
    intro cs
    induction cs with
    | nil => exact ⟨[], .nil⟩
    | cons c cs ih =>
      obtain ⟨w, hw⟩ := exists_writes c
      obtain ⟨t, ht⟩ := ih
      exact ⟨_, .cons hw ht⟩
  obtain ⟨t, ht⟩ := hbody s.toList
  have h := Quoted.mk (.inr rfl) ht
  rw [String.ofList_toList] at h
  exact ⟨_, h⟩

theorem Renders.of_written {t : List Char} {v : Json} (h : Written t v) : Renders t v := by
  have h := Renders.mk gap_nil h gap_nil
  rwa [List.append_nil] at h

theorem exists_written_int {i : Int} (hi : fitsWord i = true) : ∃ t, Written t (.int i) := by
  have hds : Digits (digitsOf i.natAbs) := ⟨Nat.toDigits_ne_nil, allDigits_toDigits _⟩
  have hvalue : value (digitsOf i.natAbs) = i.natAbs := Nat.ofDigitChars_ten_toDigits
  have hsign : ∃ sign negative, Sign sign negative ∧ signed negative i.natAbs = i := by
    by_cases hneg : i < 0
    · exact ⟨_, _, .minus, by simp only [signed, if_true]; omega⟩
    · exact ⟨_, _, .none, by simp only [signed, Bool.false_eq_true, if_false]; omega⟩
  obtain ⟨sign, negative, hσ, hi'⟩ := hsign
  have hfits : fitsWord (signed negative (value (digitsOf i.natAbs))) = true := by
    rw [hvalue, hi', hi]
  have h := Written.int hσ hds hfits
  rw [hvalue, hi'] at h
  exact ⟨_, h⟩

theorem exists_renders {v : Json} (hv : v.Plain) : ∃ t, Renders t v := by
  have hwritten : ∃ t, Written t v := by
    induction hv with
    | null => exact ⟨_, .keyword (.null (w := "null") (by simp))⟩
    | bool b =>
      cases b with
      | true => exact ⟨_, .keyword (.true (w := "true") (by simp))⟩
      | false => exact ⟨_, .keyword (.false (w := "false") (by simp))⟩
    | int hi => exact exists_written_int hi
    | str s =>
      obtain ⟨t, ht⟩ := exists_quoted s
      exact ⟨t, .str ht⟩
    | @arr vs _ ih =>
      have hitem : ∀ v ∈ vs, ∃ t, Renders t v := fun v hv => (ih v hv).imp fun _ => .of_written
      obtain ⟨t, ht⟩ := exists_enclosed hitem
      exact ⟨_, .list ht⟩
    | @obj es hes _ ih =>
      have hmember : ∀ e ∈ es, ∃ t, Member Renders t e := by
        intro e he
        obtain ⟨s, hs⟩ := exists_quoted e.1
        obtain ⟨t, ht⟩ := ih e he
        exact ⟨_, .mk (.of_written (.str hs)) (.of_written ht)⟩
      obtain ⟨t, ht⟩ := exists_enclosed hmember
      have h := Written.object ht
      rw [Table.ofList_eq_self hes] at h
      exact ⟨_, h⟩
  exact hwritten.imp fun _ => .of_written

/-- A value without binary numbers can be written, and every text that writes it reads back as the
value. -/
theorem read_of_renders {v : Json} (hv : v.Plain) :
    (∃ text : String, Renders text.toList v) ∧
      ∀ text : String, Renders text.toList v → read text = .ok v := by
  obtain ⟨t, ht⟩ := exists_renders hv
  refine ⟨⟨String.ofList t, ?_⟩, fun _ h => readChars_eq_ok_iff.2 (spells_of_renders h)⟩
  rw [String.toList_ofList]
  exact ht

/-- A tuple of one text, with an escape by code, an escape by letter and a gap after the comma. -/
theorem read_of_renders_escapes :
    Json.Plain (.arr [.str "a\n"]) ∧
      Renders "('\\u0061\\n', )".toList (.arr [.str "a\n"]) ∧
      read "('\\u0061\\n', )" = .ok (.arr [.str "a\n"]) := by
  have hplain : Json.Plain (.arr [.str "a\n"]) := .arr (by
    intro v hv
    rw [List.mem_singleton.1 hv]
    exact .str _)
  have hbody : Body '\'' "\\u0061\\n".toList ['a', '\n'] :=
    .cons (.code rfl rfl rfl rfl rfl)
      (.cons (.escape (e := 'n') (by decide)) .nil)
  have hitem : Renders "'\\u0061\\n'".toList (.str "a\n") :=
    .of_written (.str (.mk (.inl rfl) hbody))
  have hrenders : Renders "('\\u0061\\n', )".toList (.arr [.str "a\n"]) :=
    .of_written (.tuple (.trailing (g := [' ']) (.one hitem) (by decide)) (.inl rfl))
  exact ⟨hplain, hrenders, (read_of_renders hplain).2 _ hrenders⟩

end Literal

end GardenMap
