import GardenMap.Proofs.Literal.Nesting
import Mathlib.Data.List.Chain

/-!
# What literals are made of

A text that is read is a run of tokens with gaps between them: keywords, numbers, quoted texts,
brackets, commas and colons (`Tokens`). No token that ends a value comes right before one that starts
a value (`Token.MayPrecede`). So no name other than a keyword, no operator, no call and no two values
side by side are in it, outside quotes, however deep (`read_iff_spells`).
-/

namespace GardenMap.Literal

/-- What a token is for. -/
inductive Token where
  | value
  | opening
  | closing
  | comma
  | colon
deriving DecidableEq

namespace Token

/-- The texts of tokens. -/
inductive Of : Token → List Char → Prop
  | keyword {t : List Char} {v : Json} : Keyword t v → Of value t
  | number {t : List Char} {v : Json} : Number t v → Of value t
  | quoted {t : List Char} {s : String} : Quoted t s → Of value t
  | opening {c : Char} : c ∈ ['[', '(', '\x7b'] → Of opening [c]
  | closing {c : Char} : c ∈ [']', ')', '\x7d'] → Of closing [c]
  | comma : Of comma [',']
  | colon : Of colon [':']

def endsValue (k : Token) : Bool := k = value || k = closing

def startsValue (k : Token) : Bool := k = value || k = opening

/-- Two tokens may be neighbours unless one value ends and another one starts between them. -/
def MayPrecede (k l : Token) : Prop := ¬(k.endsValue = true ∧ l.startsValue = true)

end Token

/-- A text as a run of tokens with gaps around them. -/
inductive Tokens : List Char → List Token → Prop
  | nil {g : List Char} : Gap g → Tokens g []
  | cons {g w s : List Char} {k : Token} {ks : List Token} :
      Gap g → k.Of w → Tokens s ks → Tokens (g ++ (w ++ s)) (k :: ks)

theorem Tokens.gap_append {g s : List Char} {ks : List Token} (hg : Gap g) (hs : Tokens s ks) :
    Tokens (g ++ s) ks := by
  cases hs with
  | nil hs => exact .nil (hg.append hs)
  | cons hg' hw hs =>
    rw [← List.append_assoc]
    exact .cons (hg.append hg') hw hs

theorem Tokens.append {s t : List Char} {ks ls : List Token} (hs : Tokens s ks)
    (ht : Tokens t ls) : Tokens (s ++ t) (ks ++ ls) := by
  induction hs with
  | nil hg => exact ht.gap_append hg
  | cons hg hw _ ih =>
    rw [List.append_assoc, List.append_assoc]
    exact .cons hg hw ih

theorem tokens_singleton {w : List Char} {k : Token} (hw : k.Of w) : Tokens w [k] := by
  have h := Tokens.cons gap_nil hw (.nil gap_nil)
  rwa [List.append_nil] at h

/-- A text is a run of tokens that may be neighbours. -/
def Lexical (t : List Char) : Prop := ∃ ks, Tokens t ks ∧ ks.IsChain Token.MayPrecede

theorem lexical_gap {g : List Char} (hg : Gap g) : Lexical g := ⟨[], .nil hg, .nil⟩

theorem lexical_value {t : List Char} (ht : Token.Of .value t) : Lexical t :=
  ⟨[.value], tokens_singleton ht, .singleton _⟩

theorem Lexical.append_cons {s t : List Char} (hs : Lexical s) (ht : Lexical t) {c : Char}
    {k : Token} (hk : k.Of [c]) (hbefore : k.startsValue = false) (hafter : k.endsValue = false) :
    Lexical (s ++ c :: t) := by
  obtain ⟨ks, hks, hkchain⟩ := hs
  obtain ⟨ls, hls, hlchain⟩ := ht
  refine ⟨ks ++ k :: ls, hks.append (.cons gap_nil hk hls), ?_⟩
  rw [List.isChain_append, List.isChain_cons]
  refine ⟨hkchain, ⟨fun l _ h => ?_, hlchain⟩, fun l _ k' hk' h => ?_⟩
  · rw [hafter] at h
    cases h.1
  · cases hk'
    rw [hbefore] at h
    cases h.2

theorem Lexical.bracketed {t : List Char} (ht : Lexical t) {opening closing : Char}
    (ho : opening ∈ ['[', '(', '\x7b']) (hc : closing ∈ [']', ')', '\x7d']) :
    Lexical (opening :: (t ++ [closing])) := by
  obtain ⟨ks, hks, hchain⟩ := ht
  refine ⟨.opening :: (ks ++ [.closing]), .cons gap_nil (.opening ho)
    (hks.append (tokens_singleton (.closing hc))), ?_⟩
  rw [List.isChain_cons, List.isChain_append]
  refine ⟨fun l _ h => ?_, hchain, .singleton _, fun k _ l hl h => ?_⟩
  · cases h.1
  · cases hl
    cases h.2

section Elements

variable {α : Type} {Item : List Char → α → Prop} {n : Nat}

theorem lexical_separated (hitem : ∀ t v, t.length < n → Item t v → Lexical t) {t : List Char}
    {vs : List α} (ht : Separated Item t vs) (hn : t.length < n) : Lexical t := by
  induction ht with
  | one ht => exact hitem _ _ hn ht
  | more ht _ ih =>
    rw [List.length_append, List.length_cons] at hn
    exact (hitem _ _ (by omega) ht).append_cons (ih (by omega)) .comma rfl rfl

theorem lexical_enclosed (hitem : ∀ t v, t.length < n → Item t v → Lexical t) {t : List Char}
    {vs : List α} {trailing : Bool} (ht : Enclosed Item t vs trailing) (hn : t.length < n) :
    Lexical t := by
  cases ht with
  | empty hg => exact lexical_gap hg
  | comma hg hh => exact (lexical_gap hg).append_cons (lexical_gap hh) .comma rfl rfl
  | items ht => exact lexical_separated hitem ht hn
  | trailing ht hg =>
    rw [List.length_append] at hn
    exact (lexical_separated hitem ht (by omega)).append_cons (lexical_gap hg) .comma rfl rfl

end Elements

theorem lexical_entry {n : Nat} (h : ∀ t v, t.length < n → Spells t v → Lexical t) :
    ∀ t e, t.length < n → Entry Spells t e → Lexical t := by
  intro t e hn ht
  cases ht with
  | mk hs _ ht =>
    rw [List.length_append, List.length_cons] at hn
    exact (h _ _ (by omega) hs).append_cons (h _ _ (by omega) ht) .colon rfl rfl

theorem lexical_core {n : Nat} (h : ∀ t v, t.length < n → Spells t v → Lexical t)
    {t : List Char} {v : Json} (ht : Core t v) (hn : t.length ≤ n) : Lexical t := by
  cases ht with
  | keyword ht => exact lexical_value (.keyword ht)
  | number ht => exact lexical_value (.number ht)
  | quoted ht => exact lexical_value (.quoted ht)
  | list ht | tuple ht =>
    exact (lexical_enclosed h ht (length_lt_of_bracketed hn)).bracketed (by simp) (by simp)
  | group ht => exact (h _ _ (length_lt_of_bracketed hn) ht).bracketed (by simp) (by simp)
  | mapping ht =>
    exact (lexical_enclosed (lexical_entry h) ht (length_lt_of_bracketed hn)).bracketed (by simp)
      (by simp)

theorem lexical_of_spells {t : List Char} {v : Json} (h : Spells t v) : Lexical t := by
  refine of_shorter (Q := fun t _ => Lexical t) (fun t v ih ht => ?_) h
  cases ht with
  | mk hg ht hh =>
    simp only [List.length_append] at ih
    obtain ⟨ks, hks, hchain⟩ := lexical_core ih ht (by omega)
    have hpadded := (hks.append (.nil hh)).gap_append hg
    rw [List.append_nil] at hpadded
    exact ⟨ks, hpadded, hchain⟩

/-- A text is read as a value exactly when the grammar derives it with that value, and then it is a
run of tokens in which no value stands right after another. -/
theorem read_iff_spells (text : String) (v : Json) :
    (read text = .ok v ↔ Spells text.toList v) ∧
      (read text = .ok v →
        ∃ ks, Tokens text.toList ks ∧ ks.IsChain Token.MayPrecede) :=
  ⟨readChars_eq_ok_iff, fun h => lexical_of_spells (readChars_eq_ok_iff.1 h)⟩

/-- A mapping with a truth value for a key, and commas after the last element and entry. -/
theorem read_iff_spells_mapping :
    read "\x7bTrue: [7,], \x7d" = .ok (.obj [("true", .arr [.int 7])]) ∧
      ∃ ks, Tokens "\x7bTrue: [7,], \x7d".toList ks ∧ ks.IsChain Token.MayPrecede := by
  have hkey : Spells "True".toList (.bool true) :=
    .mk gap_nil (.keyword (.true (w := "True") (by simp))) gap_nil
  have hdigits : Digits ['7'] := ⟨by simp, by simp [Calendar.AllDigits]⟩
  have hseven : Spells "7".toList (.int 7) :=
    .mk gap_nil (.number (.whole .none hdigits (by decide))) gap_nil
  have hlist : Spells " [7,]".toList (.arr [.int 7]) :=
    .mk (g := [' ']) (by decide) (.list (.trailing (.one hseven) gap_nil)) gap_nil
  have hspells : Spells "\x7bTrue: [7,], \x7d".toList (.obj [("true", .arr [.int 7])]) :=
    .mk gap_nil (.mapping (.trailing (g := [' ']) (.one (.mk hkey (.bool true) hlist)) (by decide)))
      gap_nil
  have hread := (read_iff_spells _ _).1.2 hspells
  exact ⟨hread, (read_iff_spells _ _).2 hread⟩

end GardenMap.Literal
