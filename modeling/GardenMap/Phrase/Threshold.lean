import GardenMap.Phrase.Error
import GardenMap.Text.Letters

/-!
# Numeric thresholds

A threshold is `at least N` or `at most N`, in any case and with Unicode case folding; blanks
between the words do not matter.
-/

namespace GardenMap

/-- On which side of its number a threshold looks. -/
inductive Bound where
  | atLeast
  | atMost
deriving DecidableEq

/-- A bound on a number. -/
structure Threshold where
  bound : Bound
  value : Float

namespace Phrase

open Text Decimal

/-- Whether a word is a decimal number with digits on both sides of any point. -/
def isDecimal (word : List Char) : Bool :=
  let (_, s) := spanSign word
  let (whole, s) := spanDigits s
  let (fraction, s) :=
    match s with
    | '.' :: t => spanDigits t
    | t => (['0'], t)
  !whole.isEmpty && !fraction.isEmpty && (spanExponent s).2.isEmpty

/-- The threshold that a text is, if it is one. -/
def readThreshold (s : List Char) : Except PhraseError (Option Threshold) :=
  match words s with
  | [a, b, n] =>
    if spells "at" a && (spells "least" b || spells "most" b) && isDecimal n then
      match (readFloat n).filter isFinite with
      | some x => .ok (some ⟨if lower b == "least".toList then .atLeast else .atMost, x⟩)
      | none => .error (.invalidNumber (String.ofList n))
    else .ok none
  | _ => .ok none

end Phrase

end GardenMap
