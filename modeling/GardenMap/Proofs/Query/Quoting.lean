import GardenMap.Proofs.Literal.Rendering
import GardenMap.Query.Clause

/-!
# Clauses in layers of quoting

Text of clauses may spell text instead of clauses, which is read again. Reading goes on for at most
half as many texts as the first has characters, and the clauses are those inside the last layer
(`text_unwraps`).

Proof. Every character between quotes is written with one character or more, and quotes and brackets
come on top, so a text is two characters longer than one that it spells. `ofRawWithin` reads clauses
up to a number of texts, with no other reason to end.
-/

namespace GardenMap

namespace Literal

theorem length_le_of_body {quote : Char} {s cs : List Char} (h : Body quote s cs) :
    cs.length ≤ s.length := by
  induction h with
  | nil => exact Nat.le_refl _
  | cons hw _ ih =>
    rw [List.length_append, List.length_cons]
    cases hw with
    | raw | escape | code =>
      simp only [List.length_cons, List.length_nil]
      omega

theorem length_of_quoted {t : List Char} {s : String} (h : Quoted t s) :
    s.length + 2 ≤ t.length := by
  cases h with
  | mk hquote hbody =>
    have := length_le_of_body hbody
    rw [String.length_ofList, List.length_cons, List.length_append, List.length_singleton]
    omega

theorem length_of_spells {t : List Char} {s : String} (h : Spells t (.str s)) :
    s.length + 2 ≤ t.length := by
  refine of_shorter (Q := fun t v => ∀ s, v = .str s → s.length + 2 ≤ t.length)
    (fun t v ih ht s hs => ?_) h s rfl
  cases ht with
  | mk hg ht hh =>
    rw [List.length_append, List.length_append] at ih ⊢
    cases ht with
    | quoted ht =>
      cases hs
      have := length_of_quoted ht
      omega
    | group ht =>
      rw [List.length_cons, List.length_append] at ih ⊢
      have := ih _ _ (by omega) ht s hs
      omega
    | keyword ht => cases ht <;> cases hs
    | number ht => cases ht <;> cases hs
    | list | tuple | mapping => cases hs

theorem length_of_read {text inner : String} (h : read text = .ok (.str inner)) :
    inner.length + 2 ≤ text.length :=
  length_of_spells (readChars_eq_ok_iff.1 h)

theorem exists_read_str (s : String) : ∃ text, read text = .ok (.str s) := by
  obtain ⟨t, ht⟩ := exists_quoted s
  refine ⟨String.ofList t, ?_⟩
  unfold read
  rw [String.toList_ofList]
  exact readChars_eq_ok_iff.2 (spells_of_renders (.of_written (.str ht)))

theorem body_raw_append {quote : Char} (cs : List Char) {s ds : List Char}
    (hcs : ∀ c ∈ cs, c ≠ quote ∧ c ≠ '\\' ∧ c ≠ '\n') (hs : Body quote s ds) :
    Body quote (cs ++ s) (cs ++ ds) := by
  induction cs with
  | nil => exact hs
  | cons c cs ih =>
    obtain ⟨hquote, hback, hline⟩ := hcs c List.mem_cons_self
    have htail := ih fun d hd => hcs d (List.mem_cons_of_mem _ hd)
    exact .cons (w := [c]) (.raw hquote hback hline) htail

end Literal

namespace Clause

open Literal (Body Spells Writes body_raw_append readChars_eq_ok_iff spells_of_renders)

/-! ## Layers -/

/-- A wire value in layers of quoting: each is a text that spells what is in it. -/
inductive Wraps : Nat → Json → Json → Prop
  | bare (v : Json) : Wraps 0 v v
  | quoted {layers : Nat} {text : String} {v bare : Json} :
      Literal.read text = .ok v → Wraps layers v bare → Wraps (layers + 1) (.str text) bare

theorem ofRaw_str (text : String) :
    ofRaw (.str text) =
      match Literal.read text with
      | .error e => .error (.clause text (.literal e))
      | .ok inner => ofRaw inner := by
  rw [ofRaw]
  split <;> rename_i h <;> rw [h]

theorem Wraps.ofRaw_eq {layers : Nat} {v bare : Json} (h : Wraps layers v bare) :
    ofRaw v = ofRaw bare := by
  induction h with
  | bare => rfl
  | quoted hread _ ih => rw [ofRaw_str, hread, ← ih]

theorem exists_wraps (text : String) (layers : Nat) :
    ∃ outer, Wraps layers (.str outer) (.str text) := by
  induction layers with
  | zero => exact ⟨text, .bare _⟩
  | succ layers ih =>
    obtain ⟨inner, hinner⟩ := ih
    obtain ⟨outer, houter⟩ := Literal.exists_read_str inner
    exact ⟨outer, .quoted houter hinner⟩

/-! ## Depth -/

/-- The clauses of a wire value when at most `depth` texts are read, one inside the other. -/
def ofRawWithin : Nat → Json → Option (Except Error (List Clause))
  | _, .null => some (.ok [])
  | 0, .str _ => none
  | depth + 1, .str text =>
    match Literal.read text with
    | .error e => some (.error (.clause text (.literal e)))
    | .ok inner => ofRawWithin depth inner
  | _, .obj entries => some (.ok (entries.map fun (k, v) => ⟨k, v⟩))
  | _, .arr items => some (items.mapM ofPair)
  | _, other => some (.error (.clause other.text .notPairs))

theorem ofRawWithin_of_not_text (depth : Nat) {v : Json} (h : v.str? = none) :
    ofRawWithin depth v = some (ofRaw v) := by
  cases v with
  | str => cases h
  | _ => cases depth <;> simp [ofRawWithin, ofRaw]

theorem ofRawWithin_str {depth : Nat} {text : String} (h : text.length / 2 < depth) :
    ofRawWithin depth (.str text) = some (ofRaw (.str text)) := by
  induction depth generalizing text with
  | zero => omega
  | succ depth ih =>
    rw [ofRawWithin, ofRaw_str]
    cases hread : Literal.read text with
    | error e => rfl
    | ok inner =>
      cases inner with
      | str inner =>
        have := Literal.length_of_read hread
        exact ih (by omega)
      | _ => exact ofRawWithin_of_not_text depth rfl

/-- A text that spells another is at least two characters longer, so reading the clauses of a text
ends after as many readings as half its length, and one more. However many layers of quoting the
text has, its clauses are those of what is inside, and every text of clauses can be put into any
number of layers. -/
theorem text_unwraps (text : String) :
    (∀ inner : String, Literal.read text = .ok (.str inner) → inner.length + 2 ≤ text.length) ∧
      (∀ depth, text.length / 2 < depth →
        ofRawWithin depth (.str text) = some (ofText text)) ∧
      (∀ layers bare, Wraps layers (.str text) bare → ofText text = ofRaw bare) ∧
      ∀ layers, ∃ outer, Wraps layers (.str outer) (.str text) ∧ ofText outer = ofText text := by
  refine ⟨fun inner => Literal.length_of_read, fun depth => ofRawWithin_str,
    fun layers bare h => h.ofRaw_eq, fun layers => ?_⟩
  obtain ⟨outer, houter⟩ := exists_wraps text layers
  exact ⟨outer, houter, houter.ofRaw_eq⟩

/-- A list of one clause in two layers: an apostrophe by its code, escaped ones, and brackets. -/
theorem text_unwraps_twice :
    let bare := "[('a', 1)]"
    let inner := "'[(\\'a\\', 1)]'"
    let outer := "(\"\\u0027[(\\\\'a\\\\', 1)]\\u0027\")"
    Literal.read outer = .ok (.str inner) ∧ Literal.read inner = .ok (.str bare) ∧
      inner.length + 2 ≤ outer.length ∧ ofRawWithin 20 (.str outer) = some (ofText bare) ∧
      ofText outer = ofText bare := by
  intro bare inner outer
  have hcode : Writes '"' "\\u0027".toList '\'' := .code rfl rfl rfl rfl rfl
  have hback : Writes '"' "\\\\".toList '\\' := .escape (by decide)
  have hescape : Writes '\'' "\\'".toList '\'' := .escape (by decide)
  have houterBody :
      Body '"' "\\u0027[(\\\\'a\\\\', 1)]\\u0027".toList "'[(\\'a\\', 1)]'".toList :=
    .cons hcode (body_raw_append ['[', '('] (by simp)
      (.cons hback (body_raw_append ['\'', 'a'] (by simp)
        (.cons hback (body_raw_append ['\'', ',', ' ', '1', ')', ']'] (by simp)
          (.cons hcode .nil))))))
  have hinnerBody : Body '\'' "[(\\'a\\', 1)]".toList "[('a', 1)]".toList :=
    body_raw_append ['[', '('] (by simp)
      (.cons hescape (body_raw_append ['a'] (by simp)
        (.cons hescape (body_raw_append [',', ' ', '1', ')', ']'] (by simp) .nil))))
  have houterText : Spells "(\"\\u0027[(\\\\'a\\\\', 1)]\\u0027\")".toList (.str inner) :=
    spells_of_renders (.of_written (.group (.of_written (.str (.mk (.inr rfl) houterBody)))))
  have hinnerText : Spells "'[(\\'a\\', 1)]'".toList (.str bare) :=
    spells_of_renders (.of_written (.str (.mk (.inl rfl) hinnerBody)))
  have houter : Literal.read outer = .ok (.str inner) := readChars_eq_ok_iff.2 houterText
  have hinner : Literal.read inner = .ok (.str bare) := readChars_eq_ok_iff.2 hinnerText
  obtain ⟨hlength, hdepth, hclauses, -⟩ := text_unwraps outer
  have heq : ofText outer = ofText bare :=
    hclauses 2 (.str bare) (.quoted houter (.quoted hinner (.bare _)))
  exact ⟨houter, hinner, hlength inner houter, heq ▸ hdepth 20 (by decide), heq⟩

end Clause

end GardenMap
