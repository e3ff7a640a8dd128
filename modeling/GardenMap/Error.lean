import GardenMap.Conversion.Error

/-!
# Errors

What the operations of the library report, and the message of each error.
-/

namespace GardenMap

/-- Why a wire value is rejected. -/
inductive Rejection where
  /-- It does not fit the shape. -/
  | misfit (error : ConvertError)
  /-- A record was wanted, and it is no mapping. -/
  | notMapping
  /-- A list of records was wanted. -/
  | notList
  /-- It names a field that the schema does not declare. -/
  | undeclared (field schema : String)
  /-- The value that a predicate reads cannot be compared. -/
  | incomparable (field what : String)
  /-- Something of another kind came out. -/
  | wrongKind (kind : String)

def Rejection.message : Rejection → String
  | misfit error => error.message
  | notMapping => "expected a mapping"
  | notList => "expected a list"
  | undeclared field schema => "`" ++ field ++ "` is not a field of " ++ schema
  | incomparable field what => "`" ++ field ++ "` is not " ++ what
  | wrongKind kind => "got " ++ kind

/-- Why clauses cannot be compiled. -/
inductive ClauseFault where
  /-- The text of the clauses is no literal. -/
  | literal (error : LiteralError)
  /-- The clauses are neither a list nor a mapping. -/
  | notPairs
  /-- A clause is no pair of a text and a value. -/
  | notPair
  | emptyKey
  /-- The phrase of a clause has no meaning. -/
  | phrase (error : PhraseError)
  /-- The value of a clause does not fit the field. -/
  | misfit (shape : Shape) (error : ConvertError)

def ClauseFault.message : ClauseFault → String
  | literal error => error.message
  | notPairs => "expected a list of (key, value) pairs"
  | notPair => "expected a (key, value) pair with a text key"
  | emptyKey => "empty key"
  | phrase error => error.message
  | misfit shape error => "value does not fit `" ++ shape.text ++ "`: " ++ error.message

/-- An error of the library. -/
inductive Error where
  /-- A shape has no converter. -/
  | unresolved (error : ShapeError)
  /-- A wire value is no record of a schema, or no value of a shape. -/
  | rejected (schema : String) (payload : Json) (why : Rejection)
  /-- A clause, given by its text, cannot be compiled. -/
  | clause (source : String) (why : ClauseFault)
  /-- The point service failed. -/
  | transport (text : String)
  /-- A relative date leaves the calendar. -/
  | outOfCalendar

def Error.message : Error → String
  | unresolved error => error.message
  | rejected schema payload why =>
    "failed to deserialize " ++ schema ++ " from " ++ payload.text ++ ": " ++ why.message
  | clause source why => "invalid query clause " ++ source ++ ": " ++ why.message
  | transport text => text
  | outOfCalendar => "date out of range"

end GardenMap
