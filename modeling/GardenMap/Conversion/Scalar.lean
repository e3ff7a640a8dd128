import GardenMap.Conversion.Error
import GardenMap.Literal.Weight

/-!
# Conversion of single values

Text that is meant for a truth value or a number is read as a literal first. A quoted literal is
then read as the text form of that kind: `'10'` is the whole number 10. Absent payloads become the
absent value under every shape.
-/

namespace GardenMap

namespace Payload

def literal (text : String) : Except ConvertError Json :=
  match Literal.read text with
  | .ok v => .ok v
  | .error e => .error (.here (.literal text e))

/-- A payload that is no text, or the literal that a text payload spells. -/
def spelled (v : Json) : Except ConvertError Json :=
  match v with
  | .str text => literal text
  | v => .ok v

/-- Something else was expected. -/
def unexpected {α : Type} (what : String) (got : Json) : Except ConvertError α :=
  .error (.here (.expected what got))

end Payload

namespace Scalar

/-- A truth value: numbers are true unless zero, quoted text unless empty. -/
def toBool (v : Json) : Except ConvertError Value :=
  match v with
  | .null => .ok .null
  | .bool b => .ok (.bool b)
  | .int i => .ok (.bool (i ≠ 0))
  | .float x => .ok (.bool (x != 0.0))
  | .str inner => .ok (.bool (inner ≠ ""))
  | v => Payload.unexpected "bool" v

/-- A whole number: fractions are cut towards zero. -/
def toInt (v : Json) : Except ConvertError Value :=
  match v with
  | .null => .ok .null
  | .bool b => .ok (.int (if b then 1 else 0))
  | .int i => if Decimal.fitsInt i then .ok (.int i) else .error (.here (.outOfRange v))
  | .float x =>
    match (Decimal.truncate x).filter Decimal.fitsInt with
    | some i => .ok (.int i)
    | none => .error (.here (.outOfRange v))
  | .str inner =>
    match Decimal.readInt (Text.trim inner.toList) with
    | some i => .ok (.int i)
    | none => .error (.here (.notInt inner))
  | v => Payload.unexpected "int" v

def toFloat (v : Json) : Except ConvertError Value :=
  match v with
  | .null => .ok .null
  | .bool b => .ok (.float (Value.numberOfBool b))
  | .int i => .ok (.float (Decimal.ofInt i))
  | .float x => .ok (.float x)
  | .str inner =>
    match Value.numberOfText inner with
    | some x => .ok (.float x)
    | none => .error (.here (.notFloat inner))
  | v => Payload.unexpected "float" v

/-- Text: numbers and truth values are spelt out. -/
def toStr (v : Json) : Except ConvertError Value :=
  match v with
  | .null => .ok .null
  | .str s => .ok (.str s)
  | .bool b => .ok (.str (Json.bool b).text)
  | .int i => .ok (.str (Json.int i).text)
  | .float x => .ok (.str (Json.float x).text)
  | v => Payload.unexpected "str" v

/-- Change the value of a reading, or say that the phrase cannot be read. -/
def ofPhrase {α : Type} (f : α → Value) : Except PhraseError α → Except ConvertError Value
  | .ok a => .ok (f a)
  | .error e => .error (.here (.phrase e))

/-- A date: blank text is absent, numbers are timestamps. -/
def toDate (v : Json) : Except ConvertError Value :=
  match v with
  | .null => .ok .null
  | .str s => if Text.isBlankText s then .ok .null else ofPhrase .date (Date.parse s)
  | .int i => ofPhrase (fun t => .date t.date) (Instant.ofTimestamp (Decimal.ofInt i))
  | .float x => ofPhrase (fun t => .date t.date) (Instant.ofTimestamp x)
  | v => Payload.unexpected "date" v

/-- An instant: blank text is absent, numbers are timestamps. -/
def toDatetime (v : Json) : Except ConvertError Value :=
  match v with
  | .null => .ok .null
  | .str s => if Text.isBlankText s then .ok .null else ofPhrase .datetime (Instant.parse s)
  | .int i => ofPhrase .datetime (Instant.ofTimestamp (Decimal.ofInt i))
  | .float x => ofPhrase .datetime (Instant.ofTimestamp x)
  | v => Payload.unexpected "datetime" v

/-- The value of a payload under the shape of a single value. -/
def convert (kind : Scalar) (v : Json) : Except ConvertError Value :=
  match kind with
  | any => .ok (match v with | .null => .null | v => .raw v)
  | bool => Payload.spelled v >>= toBool
  | int => Payload.spelled v >>= toInt
  | float => Payload.spelled v >>= toFloat
  | str => toStr v
  | date => toDate v
  | datetime => toDatetime v

end Scalar

/-- The key that a value is, or an error about its kind. -/
def Value.toKey (v : Value) : Except ConvertError MapKey :=
  match v.toKey? with
  | some k => .ok k
  | none => .error (.here (.notKey v.kind))

/-- The key that the text of a key is under the shape of a single value. -/
def Scalar.convertKey (kind : Scalar) (key : String) : Except ConvertError MapKey :=
  kind.convert (.str key) >>= Value.toKey

end GardenMap
