import GardenMap.Phrase.Offset

/-!
# Date expressions

A date expression is an instant after an optional `before` or `after`. The instant is `now`, a
relative offset, or an absolute instant in strict form. Keywords are recognised in any case, with
Unicode case folding; blanks between the words do not matter.
-/

namespace GardenMap

/-- On which side of its instant a date expression looks. -/
inductive Qualifier where
  | before
  | after
deriving DecidableEq

/-- The instant of a date expression. -/
inductive Moment where
  | now
  | offset (span : Span)
  | absolute (t : Instant)
deriving DecidableEq

/-- The instant that a moment denotes at a given time, if the calendar has it. -/
def Moment.resolve? (now : Instant) : Moment → Option Instant
  | .now => some now
  | .offset span => now.add? span
  | .absolute t => some t

/-- A date expression. -/
structure DateExpr where
  qualifier : Option Qualifier
  moment : Moment
deriving DecidableEq

namespace Phrase

open Text Time

/-- Whether a word has letters only, case folded. -/
def isFoldedName (word : List Char) : Bool := !word.isEmpty && word.all isLetter

def either (a b : Char) : Reader Unit := fun s =>
  match s with
  | c :: s => if c = a || c = b then some ((), s) else none
  | [] => none

/-- The form of an absolute instant, whatever its numbers. -/
def absoluteForm : Reader Unit := do
  let _ ← number 4 4
  literal '-'
  let _ ← number 2 2
  literal '-'
  let _ ← number 2 2
  either 'T' 't'
  let _ ← number 2 2
  literal ':'
  let _ ← number 2 2
  literal ':'
  let _ ← number 2 2
  let _ ← fraction
  either 'Z' 'z'

/-- What kind of instant the words of a phrase spell. -/
inductive MomentForm where
  | now
  | relative
  | absolute

def MomentForm.ofWords? : List (List Char) → Option MomentForm
  | [w] =>
    if spells "now" w then some .now
    else if (whole absoluteForm w).isSome then some .absolute
    else none
  | [a, b, c] =>
    if (spells "in" a && isCount b && isFoldedName c)
        || (isCount a && isFoldedName b && spells "ago" c) then some .relative
    else none
  | _ => none

/-- The instant that a phrase of a known kind spells. -/
def readMoment (form : MomentForm) (body : List Char) : Except PhraseError Moment :=
  match form with
  | .now => .ok .now
  | .absolute => (Instant.parse (String.ofList (upper body))).map .absolute
  | .relative => do
    match ← readOffset body with
    | some span => .ok (.offset span)
    | none => .error (.invalidInstant (String.ofList body))

def qualifier? (w : List Char) : Option Qualifier :=
  if spells "before" w then some .before
  else if spells "after" w then some .after
  else none

/-- An optional qualifier in front of more words, and the phrase after it. -/
def splitQualifier (s : List Char) : Option Qualifier × List Char :=
  match words s with
  | w :: _ :: _ =>
    match qualifier? w with
    | some q => (some q, trimStart (s.drop w.length))
    | none => (none, s)
  | _ => (none, s)

/-- The date expression that a text is, if it is one. -/
def readDateExpr (s : List Char) : Except PhraseError (Option DateExpr) :=
  let (qualifier, body) := splitQualifier (trim s)
  match MomentForm.ofWords? (words body) with
  | none => .ok none
  | some form => (readMoment form body).map fun m => some ⟨qualifier, m⟩

end Phrase

end GardenMap
