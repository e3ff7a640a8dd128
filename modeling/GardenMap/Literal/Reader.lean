import GardenMap.Json.Printer
import GardenMap.Literal.Scan
import GardenMap.Text.Blank

/-!
# Reading literals

A literal is a keyword, a number, quoted text, a list in square brackets, a tuple in round ones or
a mapping in curly ones. A tuple of one element without a comma is just that element. Mapping keys
are text, numbers or truth values, and become text; the last of equal keys stays. Nothing else is
read: no names, calls or operators.
-/

namespace GardenMap

/-- Why a text is no literal. -/
inductive LiteralError where
  /-- There is nothing but blanks. -/
  | empty
  /-- What stands at an offset, counted in bytes, cannot stand there. -/
  | malformed (offset : Nat) (snippet : String)
deriving DecidableEq

def LiteralError.message : LiteralError → String
  | .empty => "empty literal"
  | .malformed offset snippet =>
    "invalid literal at offset " ++ toString offset ++ ": `" ++ snippet ++ "`"

namespace Literal

def keyText? : Json → Option String
  | .str s => some s
  | .int i => some (Json.int i).text
  | .float x => some (Json.float x).text
  | .bool b => some (Json.bool b).text
  | _ => none

/-- An entry of a mapping: a key, a colon and a value. -/
def entry (item : List Char → Outcome Json) (s : List Char) : Outcome (String × Json) :=
  (item s).andThen fun key rest =>
    match keyText? key with
    | none => .failed s
    | some k =>
      match rest with
      | ':' :: t => (item t).map fun v => (k, v)
      | _ => .missed rest

def list (item : List Char → Outcome Json) (s : List Char) : Outcome Json :=
  (enclosed item ']' s).map fun (vs, _) => .arr vs

/-- A tuple, or a single element in brackets: the brackets opened. -/
def tuple (item : List Char → Outcome Json) (s : List Char) : Outcome Json :=
  (enclosed item ')' s).map fun (vs, trailing) =>
    match vs, trailing with
    | [v], false => v
    | vs, _ => .arr vs

def mapping (item : List Char → Outcome Json) (s : List Char) : Outcome Json :=
  (enclosed (entry item) '\x7d' s).map fun (es, _) => .obj (Table.ofList es)

/-- A missed form as a miss at the start of the literal. -/
def missedAt (s : List Char) (o : Outcome Json) : Outcome Json :=
  match o with
  | .missed _ => .missed s
  | o => o

/-- A literal with no gap around it, `item` reading the literals inside. -/
def core (item : List Char → Outcome Json) (s : List Char) : Outcome Json :=
  match s with
  | '[' :: t => missedAt s (list item t)
  | '(' :: t => missedAt s (tuple item t)
  | '\x7b' :: t => mapping item t
  | '\'' :: _ => (quoted s).map .str
  | '"' :: _ => (quoted s).map .str
  | s =>
    match keyword? s with
    | some (v, rest) => .found v rest
    | none => number s

/-- A literal with gaps around it, nested at most `depth - 1` deep. -/
def literal : Nat → List Char → Outcome Json
  | 0, s => .missed s
  | depth + 1, s =>
    (core (literal depth) (skipGap s)).andThen fun v rest => .found v (skipGap rest)

def byteCount : List Char → Nat
  | [] => 0
  | c :: s => c.utf8Size + byteCount s

/-- The error at a place, which is an end of a text. -/
def errorAt (text place : List Char) : LiteralError :=
  .malformed (byteCount text - byteCount place) (String.ofList (place.take 24))

/-- Read a whole text as a literal. A literal is nested no deeper than the text is long. -/
def readChars (s : List Char) : Except LiteralError Json :=
  if s.all Text.isBlank then .error .empty
  else
    match literal (s.length + 1) s with
    | .found v [] => .ok v
    | .found _ rest => .error (errorAt s rest)
    | .missed place => .error (errorAt s place)
    | .failed place => .error (errorAt s place)

def read (text : String) : Except LiteralError Json := readChars text.toList

end Literal

end GardenMap
