import GardenMap.Literal.Reader
import GardenMap.Schema.Family

/-!
# What goes wrong in conversions

A shape may have no converter, and a payload may not fit its shape. The second kind of error says
where in the payload it happened.
-/

namespace GardenMap

/-- Why a shape has no converter. -/
inductive ShapeFault where
  /-- The null shape stands outside a union. -/
  | bareNull
  /-- A union has more than one member that is not null. -/
  | manyMembers
  /-- The key shape of a mapping is no key. -/
  | badKey (key : Shape)
  /-- The shape is part of itself. -/
  | selfContaining

/-- A shape without a converter. -/
structure ShapeError where
  shape : Shape
  fault : ShapeFault

def ShapeFault.message : ShapeFault → String
  | bareNull => "null is only valid inside a union"
  | manyMembers => "union with more than one non-null member"
  | badKey key => "`" ++ key.text ++ "` cannot key a mapping"
  | selfContaining => "shape contains itself"

def ShapeError.message (e : ShapeError) : String :=
  "cannot resolve shape `" ++ e.shape.text ++ "`: " ++ e.fault.message

/-- Why a payload does not fit a shape. -/
inductive Misfit where
  /-- Text that had to be a literal is none. -/
  | literal (text : String) (error : LiteralError)
  /-- Something else was expected. -/
  | expected (what : String) (got : Json)
  /-- Quoted text does not spell a whole number. -/
  | notInt (text : String)
  /-- Quoted text does not spell a number. -/
  | notFloat (text : String)
  /-- A number is no whole number of 64 bits. -/
  | outOfRange (number : Json)
  /-- A date, an instant or a timestamp cannot be read. -/
  | phrase (error : PhraseError)
  /-- A value of this kind is no key. -/
  | notKey (kind : String)
  /-- A value cannot be appended. -/
  | append (error : AppendError)
  /-- The metadata field holds a value of this kind. -/
  | bucket (field kind : String)
  /-- A shape has no converter. -/
  | unresolved (error : ShapeError)

def Misfit.message : Misfit → String
  | literal text error => "`" ++ text ++ "` is not a literal: " ++ error.message
  | expected what got => "expected " ++ what ++ ", got " ++ got.text
  | notInt text => "`" ++ text ++ "` is not an int"
  | notFloat text => "`" ++ text ++ "` is not a float"
  | outOfRange number => number.text ++ " is out of integer range"
  | phrase error => error.message
  | notKey kind => kind ++ " cannot be used as a mapping key"
  | append error => error.message
  | bucket field kind => "metadata field `" ++ field ++ "` holds " ++ kind
  | unresolved error => error.message

/-- A payload that does not fit its shape, with the place. -/
structure ConvertError where
  /-- Fields, positions and keys from the whole payload down to the place. -/
  path : List String
  reason : Misfit
  /-- The schema that a tag sent the payload to. -/
  schema : Option String

namespace ConvertError

def here (reason : Misfit) : ConvertError := ⟨[], reason, none⟩

def under (e : ConvertError) (segment : String) : ConvertError := ⟨segment :: e.path, e.reason, none⟩

/-- The error of a payload that was sent to a schema. -/
def within (e : ConvertError) (schema : String) : ConvertError := { e with schema := some schema }

def message (e : ConvertError) : String :=
  match e.path with
  | [] => e.reason.message
  | path => "at `" ++ ".".intercalate path ++ "`: " ++ e.reason.message

end ConvertError

end GardenMap
