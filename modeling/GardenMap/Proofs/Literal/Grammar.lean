import GardenMap.Literal.Reader
import GardenMap.Proofs.Time.Text

/-!
# The grammar of literals

What a text must look like to spell a wire value. Each form of the grammar is a relation between a
text and what it spells, with no reader in sight: it says neither where a reader starts nor where
it gives up.

A literal is a core with gaps around it (`Spells`, `Core`). What stands between brackets is
described over any relation for the elements (`Separated`, `Enclosed`), so lists, tuples and
mappings share it.
-/

namespace GardenMap.Literal

open Calendar Decimal

/-! ## Gaps -/

def gaps : List Char := [' ', '\t', '\r', '\n']

/-- A text with nothing in it. -/
def Gap (g : List Char) : Prop := g ⊆ gaps

instance (g : List Char) : Decidable (Gap g) := List.decidableBAll (· ∈ gaps) g

theorem gap_nil : Gap [] := List.nil_subset _

theorem Gap.append {g h : List Char} (hg : Gap g) (hh : Gap h) : Gap (g ++ h) :=
  List.append_subset.2 ⟨hg, hh⟩

theorem isGap_iff {c : Char} : isGap c = true ↔ c ∈ gaps := by
  simp [isGap, gaps, or_assoc]

/-! ## Keywords and numbers -/

/-- The keywords, each in two ways. -/
inductive Keyword : List Char → Json → Prop
  | null {w : String} : w ∈ ["None", "null"] → Keyword w.toList .null
  | true {w : String} : w ∈ ["True", "true"] → Keyword w.toList (.bool true)
  | false {w : String} : w ∈ ["False", "false"] → Keyword w.toList (.bool false)

/-- An optional sign, and whether it negates. -/
inductive Sign : List Char → Bool → Prop
  | none : Sign [] false
  | plus : Sign ['+'] false
  | minus : Sign ['-'] true

/-- The whole number of a sign and a size. -/
def signed (negative : Bool) (n : Nat) : Int := if negative then -(n : Int) else n

/-- One digit or more. -/
def Digits (ds : List Char) : Prop := ds ≠ [] ∧ AllDigits ds

/-- A number without sign and exponent: the text, its digits, and how many follow the point. -/
inductive Mantissa : List Char → List Char → Nat → Prop
  | whole {ds : List Char} : Digits ds → Mantissa ds ds 0
  | point {ds fs : List Char} :
      Digits ds → AllDigits fs → Mantissa (ds ++ '.' :: fs) (ds ++ fs) fs.length
  | fraction {fs : List Char} : Digits fs → Mantissa ('.' :: fs) fs fs.length

/-- An optional exponent. -/
inductive Power : List Char → Int → Prop
  | none : Power [] 0
  | some {e : Char} {sign ds : List Char} {negative : Bool} :
      e = 'e' ∨ e = 'E' → Sign sign negative → Digits ds →
      Power (e :: (sign ++ ds)) (signed negative (value ds))

/-- A number. With neither point nor exponent it is a whole one of 64 bits, otherwise the nearest
binary one, which must be finite. -/
inductive Number : List Char → Json → Prop
  | whole {sign ds : List Char} {negative : Bool} :
      Sign sign negative → Digits ds → fitsWord (signed negative (value ds)) = true →
      Number (sign ++ ds) (.int (signed negative (value ds)))
  | binary {sign m ds e : List Char} {negative : Bool} {places : Nat} {power : Int} :
      Sign sign negative → Mantissa m ds places → Power e power → '.' ∈ m ∨ e ≠ [] →
      isFinite (ofScaled negative (value ds) (power - places)) = true →
      Number (sign ++ (m ++ e)) (.float (ofScaled negative (value ds) (power - places)))

/-! ## Quoted text -/

/-- The escapes of one letter, and what they stand for. -/
def escapes : List (Char × Char) :=
  [('n', '\n'), ('t', '\t'), ('r', '\r'), ('0', '\x00'), ('\\', '\\'), ('\'', '\''), ('"', '"')]

/-- The ways to write a character between quotes. A code of four digits that is no character, such
as a surrogate, writes none. -/
inductive Writes (quote : Char) : List Char → Char → Prop
  | raw {c : Char} : c ≠ quote → c ≠ '\\' → c ≠ '\n' → Writes quote [c] c
  | escape {e c : Char} : (e, c) ∈ escapes → Writes quote ['\\', e] c
  | code {h₁ h₂ h₃ h₄ c : Char} {n₁ n₂ n₃ n₄ : Nat} :
      hexDigit? h₁ = some n₁ → hexDigit? h₂ = some n₂ → hexDigit? h₃ = some n₃ →
      hexDigit? h₄ = some n₄ → c.toNat = ((n₁ * 16 + n₂) * 16 + n₃) * 16 + n₄ →
      Writes quote ['\\', 'u', h₁, h₂, h₃, h₄] c

/-- What stands between two quotes, and the characters it writes. -/
inductive Body (quote : Char) : List Char → List Char → Prop
  | nil : Body quote [] []
  | cons {w s : List Char} {c : Char} {cs : List Char} :
      Writes quote w c → Body quote s cs → Body quote (w ++ s) (c :: cs)

/-- Text between quotes of one kind. -/
inductive Quoted : List Char → String → Prop
  | mk {quote : Char} {s cs : List Char} :
      quote = '\'' ∨ quote = '"' → Body quote s cs →
      Quoted (quote :: (s ++ [quote])) (String.ofList cs)

/-! ## Elements between commas -/

section Elements

variable {α : Type} (Item : List Char → α → Prop)

/-- One element or more, with single commas between them. -/
inductive Separated : List Char → List α → Prop
  | one {t : List Char} {v : α} : Item t v → Separated t [v]
  | more {t s : List Char} {v : α} {vs : List α} :
      Item t v → Separated s vs → Separated (t ++ ',' :: s) (v :: vs)

/-- What stands between two brackets, and whether a comma ends it. A comma may also stand alone. -/
inductive Enclosed : List Char → List α → Bool → Prop
  | empty {g : List Char} : Gap g → Enclosed g [] false
  | comma {g h : List Char} : Gap g → Gap h → Enclosed (g ++ ',' :: h) [] true
  | items {t : List Char} {vs : List α} : Separated Item t vs → Enclosed t vs false
  | trailing {t g : List Char} {vs : List α} :
      Separated Item t vs → Gap g → Enclosed (t ++ ',' :: g) vs true

end Elements

/-! ## Literals -/

/-- The values that are keys, and the texts they are kept as. -/
inductive Key : Json → String → Prop
  | str (s : String) : Key (.str s) s
  | int (i : Int) : Key (.int i) (Json.int i).text
  | float (x : Float) : Key (.float x) (Json.float x).text
  | bool (b : Bool) : Key (.bool b) (Json.bool b).text

/-- An entry of a mapping: a key, a colon and a value. -/
inductive Entry (Item : List Char → Json → Prop) : List Char → String × Json → Prop
  | mk {s t : List Char} {key v : Json} {k : String} :
      Item s key → Key key k → Item t v → Entry Item (s ++ ':' :: t) (k, v)

mutual

/-- A literal: a core with gaps around it. -/
inductive Spells : List Char → Json → Prop
  | mk {g t h : List Char} {v : Json} : Gap g → Core t v → Gap h → Spells (g ++ (t ++ h)) v

/-- A literal with no gaps around it. Between round brackets a single element that no comma follows
is just that element. -/
inductive Core : List Char → Json → Prop
  | keyword {t : List Char} {v : Json} : Keyword t v → Core t v
  | number {t : List Char} {v : Json} : Number t v → Core t v
  | quoted {t : List Char} {s : String} : Quoted t s → Core t (.str s)
  | list {t : List Char} {vs : List Json} {trailing : Bool} :
      Enclosed Spells t vs trailing → Core ('[' :: (t ++ [']'])) (.arr vs)
  | group {t : List Char} {v : Json} : Spells t v → Core ('(' :: (t ++ [')'])) v
  | tuple {t : List Char} {vs : List Json} {trailing : Bool} :
      Enclosed Spells t vs trailing → trailing = true ∨ vs.length ≠ 1 →
      Core ('(' :: (t ++ [')'])) (.arr vs)
  | mapping {t : List Char} {es : List (String × Json)} {trailing : Bool} :
      Enclosed (Entry Spells) t es trailing →
      Core ('\x7b' :: (t ++ ['\x7d'])) (.obj (Table.ofList es))

end

/-! ## Shorter texts -/

theorem of_shorter {α : Type} {R Q : List Char → α → Prop}
    (step : ∀ t v, (∀ s w, s.length < t.length → R s w → Q s w) → R t v → Q t v)
    {t : List Char} {v : α} (h : R t v) : Q t v :=
  step t v (fun _ _ _ hs => of_shorter step hs) h
termination_by t.length

theorem length_lt_of_bracketed {n : Nat} {opening closing : Char} {t : List Char}
    (h : (opening :: (t ++ [closing])).length ≤ n) : t.length < n := by
  simp only [List.length_cons, List.length_append] at h
  omega

end GardenMap.Literal
