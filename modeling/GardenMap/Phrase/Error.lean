import GardenMap.Decimal.Reader
import GardenMap.Decimal.Style
import GardenMap.Time.Reader

/-!
# Phrases that cannot be read

Text that has the form of a time or a number and yet denotes none. `Instant.parse`, `Date.parse`
and `Instant.ofTimestamp` are the readings that say so.
-/

namespace GardenMap

/-- Why a phrase has no meaning. -/
inductive PhraseError where
  /-- The unit of an offset is no unit of time. -/
  | unknownUnit (unit : String)
  /-- The span of an offset is out of range. -/
  | offsetRange (phrase : String)
  | invalidInstant (text : String)
  | invalidDate (text : String)
  | invalidNumber (text : String)
deriving DecidableEq

namespace PhraseError

def message : PhraseError → String
  | unknownUnit unit => "unknown time unit `" ++ unit ++ "`"
  | offsetRange phrase => "time offset `" ++ phrase ++ "` is out of range"
  | invalidInstant text => "invalid instant `" ++ text ++ "`"
  | invalidDate text => "invalid date `" ++ text ++ "`"
  | invalidNumber text => "invalid number `" ++ text ++ "`"

end PhraseError

def Instant.parse (s : String) : Except PhraseError Instant :=
  match Instant.read? s.toList with
  | some t => .ok t
  | none => .error (.invalidInstant (String.ofList (Text.trim s.toList)))

def Date.parse (s : String) : Except PhraseError Date :=
  match Date.read? s.toList with
  | some d => .ok d
  | none => .error (.invalidDate (String.ofList (Text.trim s.toList)))

/-- The magnitude from which a timestamp counts milliseconds instead of seconds. -/
def Instant.millisFrom : Float := 10000000000.0

/-- The instant of a timestamp: seconds since 1970-01-01T00:00:00Z, or milliseconds when it is
large, rounded to milliseconds with a half away from zero. -/
def Instant.ofTimestamp (x : Float) : Except PhraseError Instant :=
  let millis := if x.abs < Instant.millisFrom then x * 1000.0 else x
  match (Decimal.roundAway millis).bind Instant.ofMillis? with
  | some t => .ok t
  | none => .error (.invalidInstant (Decimal.NumberStyle.plain.text x))

end GardenMap
