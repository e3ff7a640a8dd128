import GardenMap.Error
import GardenMap.Literal.Weight
import GardenMap.Record.Update

/-!
# Clauses

A clause is a key and a value; `!` in front of the key negates it. Clauses come as a list of pairs,
as a mapping, or as text that spells either. Quoting may be nested: text that spells a text is read
again, which ends because the inner text is shorter.
-/

namespace GardenMap

/-- A condition on one field. -/
structure Clause where
  key : String
  value : Json

namespace Clause

/-- The mark in front of a key that negates its clause. -/
def negationMark : Char := '!'

/-- The key without mark, and whether it is negated. -/
def target (q : Clause) : String × Bool := splitMark negationMark q.key

def text (q : Clause) : String := "(" ++ Text.messageQuoted q.key ++ ", " ++ q.value.text ++ ")"

def ofPair (v : Json) : Except Error Clause :=
  match v with
  | .arr [.str key, value] => .ok ⟨key, value⟩
  | v => .error (.clause v.text .notPair)

def ofRaw (v : Json) : Except Error (List Clause) :=
  match v with
  | .null => .ok []
  | .str text =>
    match _ : Literal.read text with
    | .error e => .error (.clause text (.literal e))
    | .ok inner => ofRaw inner
  | .obj entries => .ok (entries.map fun (k, v) => ⟨k, v⟩)
  | .arr items => items.mapM ofPair
  | other => .error (.clause other.text .notPairs)
termination_by v.weight
decreasing_by exact Literal.weight_lt_of_read (by assumption)

def ofText (text : String) : Except Error (List Clause) := ofRaw (.str text)

end Clause

end GardenMap
