import GardenMap.Phrase.Error
import GardenMap.Text.Letters
import GardenMap.Time.Unit

/-!
# Relative offsets

An offset is `now`, `in N unit` or `N unit ago`; blanks between the words and the case of ASCII
letters do not matter. Dates take `today`, `yesterday`, `tomorrow` and offsets in calendar units.
-/

namespace GardenMap.Phrase

open Text

def isCount (word : List Char) : Bool := !word.isEmpty && word.all Char.isDigit

/-- Whether a word has lower-case ASCII letters only. -/
def isName (word : List Char) : Bool := !word.isEmpty && word.all Char.isLower

/-- Count, unit and direction of an offset. -/
structure Relative where
  count : List Char
  unit : List Char
  /-- Whether it points to the past. -/
  ago : Bool

/-- The parts of an offset given as lower-case words. -/
def Relative.ofWords? : List (List Char) → Option Relative
  | [a, b, c] =>
    if a == "in".toList && isCount b && isName c then some ⟨b, c, false⟩
    else if isCount a && isName b && c == "ago".toList then some ⟨a, b, true⟩
    else none
  | _ => none

/-- The span of an offset. `phrase` is its text in messages. -/
def Relative.span (r : Relative) (phrase : String) : Except PhraseError Span :=
  match TimeUnit.ofWord? r.unit with
  | none => .error (.unknownUnit (String.ofList r.unit))
  | some unit =>
    match (Decimal.readInt r.count).bind fun n => unit.times? (if r.ago then -n else n) with
    | some span => .ok span
    | none => .error (.offsetRange phrase)

def normalWords (s : List Char) : List (List Char) := (words s).map lower

def phraseText (ws : List (List Char)) : String := String.ofList (unwords ws)

/-- The span of an offset from now, or nothing when the text is no offset. -/
def readOffset (s : List Char) : Except PhraseError (Option Span) :=
  let ws := normalWords s
  if ws == ["now".toList] then .ok (some .zero)
  else
    match Relative.ofWords? ws with
    | none => .ok none
    | some r => (r.span (phraseText ws)).map some

/-- The span of an offset from today, or nothing when the text is no offset. -/
def readDayOffset (s : List Char) : Except PhraseError (Option Span) :=
  let ws := normalWords s
  if ws == ["today".toList] then .ok (some .zero)
  else if ws == ["yesterday".toList] then .ok (some ⟨-86400⟩)
  else if ws == ["tomorrow".toList] then .ok (some ⟨86400⟩)
  else
    match Relative.ofWords? ws with
    | none => .ok none
    | some r =>
      if (TimeUnit.ofWord? r.unit).any fun u => !u.isCalendar then
        .error (.unknownUnit (String.ofList r.unit))
      else (r.span (phraseText ws)).map some

end GardenMap.Phrase
