import GardenMap.Json.Printer
import GardenMap.Phrase.Error
import GardenMap.Schema.Shape

/-!
# Typed values and records

A value is what a wire value becomes under a shape. A record holds a value for every field that
its schema declares, `null` when absent, and the undeclared keys of its payload apart from them.
-/

namespace GardenMap

/-- A key of a mapping. -/
inductive MapKey where
  | bool (b : Bool)
  | int (i : Int)
  | str (s : String)
  | date (d : Date)
  | datetime (t : Instant)
deriving DecidableEq

namespace MapKey

/-- The place of the kind of a key in the order of keys. -/
def rank : MapKey → Nat
  | bool _ => 0
  | int _ => 1
  | str _ => 2
  | date _ => 3
  | datetime _ => 4

instance : Ord MapKey where
  compare
    | bool a, bool b => compare a b
    | int a, int b => compare a b
    | str a, str b => compare a b
    | date a, date b => compare a b
    | datetime a, datetime b => compare a b
    | a, b => compare a.rank b.rank

def text : MapKey → String
  | bool b => Json.boolText b
  | int i => Decimal.intText i
  | str s => s
  | date d => d.text
  | datetime t => t.text

end MapKey

mutual

/-- A typed value. -/
inductive Value where
  /-- The absent value. -/
  | null
  | bool (b : Bool)
  /-- A whole number of 64 bits with sign. -/
  | int (i : Int)
  | float (x : Float)
  | str (s : String)
  | date (d : Date)
  | datetime (t : Instant)
  | list (items : List Value)
  /-- A table of entries. -/
  | map (entries : List (MapKey × Value))
  | record (r : Record)
  /-- A wire value in a place without a type. -/
  | raw (v : Json)

/-- A record: two tables, of declared fields and of undeclared keys. -/
structure Record where
  schema : SchemaId
  fields : List (String × Value)
  extra : List (String × Value)

end

instance : Inhabited Value := ⟨.null⟩

instance : Inhabited Record := ⟨⟨⟨"", 0⟩, [], []⟩⟩

namespace Value

def kind : Value → String
  | null => "null"
  | bool _ => "bool"
  | int _ => "int"
  | float _ => "float"
  | str _ => "str"
  | date _ => "date"
  | datetime _ => "datetime"
  | list _ => "list"
  | map _ => "map"
  | record _ => "record"
  | raw _ => "raw"

def isNull : Value → Bool
  | null => true
  | raw v => v.isNull
  | _ => false

def bool? : Value → Option Bool
  | bool b => some b
  | raw v => v.bool?
  | _ => none

def int? : Value → Option Int
  | int i => some i
  | raw v => v.int?
  | _ => none

def str? : Value → Option String
  | str s => some s
  | raw v => v.str?
  | _ => none

def items? : Value → Option (List Value)
  | list items => some items
  | _ => none

def entries? : Value → Option (List (MapKey × Value))
  | map entries => some entries
  | _ => none

def record? : Value → Option Record
  | record r => some r
  | _ => none

/-- The number that text spells, blanks at its ends aside. -/
def numberOfText (s : String) : Option Float := Decimal.readFloat (Text.trim s.toList)

def numberOfBool (b : Bool) : Float := if b then 1.0 else 0.0

/-- The number that a value can be read as: numbers, truth values and text that spells one. -/
def toFloat? : Value → Option Float
  | bool b => some (numberOfBool b)
  | int i => some (Decimal.ofInt i)
  | float x => some x
  | str s => numberOfText s
  | raw (.bool b) => some (numberOfBool b)
  | raw (.str s) => numberOfText s
  | raw v => v.float?
  | _ => none

/-- The instant that a value can be read as: instants, dates at midnight, text that spells an
instant, and numbers as timestamps. -/
def toInstant? : Value → Option Instant
  | datetime t => some t
  | date d => some (Instant.ofDate d)
  | str s => (Instant.parse s).toOption
  | int i => (Instant.ofTimestamp (Decimal.ofInt i)).toOption
  | float x => (Instant.ofTimestamp x).toOption
  | raw (.str s) => (Instant.parse s).toOption
  | raw v => v.float?.bind fun x => (Instant.ofTimestamp x).toOption
  | _ => none

def toKey? : Value → Option MapKey
  | bool b => some (.bool b)
  | int i => some (.int i)
  | str s => some (.str s)
  | date d => some (.date d)
  | datetime t => some (.datetime t)
  | raw (.str s) => some (.str s)
  | _ => none

end Value

/-! ## Wire form -/

mutual

/-- The wire form of a value: canonical texts for dates and instants, objects for mappings and
records. -/
def Value.toRaw : Value → Json
  | .null => .null
  | .bool b => .bool b
  | .int i => .int i
  | .float x => Json.ofFloat x
  | .str s => .str s
  | .date d => .str d.text
  | .datetime t => .str t.text
  | .list items => .arr (rawItems items)
  | .map entries => .obj (Table.ofList (rawEntries entries))
  | .record r => r.toRaw
  | .raw v => v

/-- The wire form of a record: the extra keys, and the declared fields over them. -/
def Record.toRaw : Record → Json
  | ⟨_, fields, extra⟩ => .obj (Table.putAll (Table.ofList (rawFields extra)) (rawFields fields))

def rawItems : List Value → List Json
  | [] => []
  | v :: vs => v.toRaw :: rawItems vs

/-- The wire forms of the entries of a mapping. -/
def rawEntries : List (MapKey × Value) → List (String × Json)
  | [] => []
  | (k, v) :: es => (k.text, v.toRaw) :: rawEntries es

def rawFields : List (String × Value) → List (String × Json)
  | [] => []
  | (k, v) :: es => (k, v.toRaw) :: rawFields es

end

/-- The text of a record in messages: its schema and its wire text. -/
def Record.text (r : Record) : String := r.schema.name ++ r.toRaw.text

/-! ## Equality -/

mutual

/-- Whether two values have the same content: records count as equal when their schemas, fields and
extra keys do. -/
def Value.same : Value → Value → Bool
  | .null, .null => true
  | .bool a, .bool b => a == b
  | .int a, .int b => a == b
  | .float a, .float b => a == b
  | .str a, .str b => a == b
  | .date a, .date b => a == b
  | .datetime a, .datetime b => a == b
  | .list as, .list bs => sameItems as bs
  | .map as, .map bs => sameEntries as bs
  | .record a, .record b => a.same b
  | .raw a, .raw b => a == b
  | _, _ => false

def Record.same : Record → Record → Bool
  | ⟨schema, fields, extra⟩, r =>
    schema == r.schema && sameFields fields r.fields && sameFields extra r.extra

def sameItems : List Value → List Value → Bool
  | [], [] => true
  | a :: as, b :: bs => a.same b && sameItems as bs
  | _, _ => false

/-- Whether two mappings have the same content. -/
def sameEntries : List (MapKey × Value) → List (MapKey × Value) → Bool
  | [], [] => true
  | (k, a) :: as, (l, b) :: bs => k == l && a.same b && sameEntries as bs
  | _, _ => false

/-- Whether two tables of fields have the same content. -/
def sameFields : List (String × Value) → List (String × Value) → Bool
  | [], [] => true
  | (k, a) :: as, (l, b) :: bs => k == l && a.same b && sameFields as bs
  | _, _ => false

end

mutual

def Value.isPlain : Value → Bool
  | .list items => arePlain items
  | .map entries => arePlainEntries entries
  | .record _ => false
  | _ => true

/-- Whether the elements of a list are free of records. -/
def arePlain : List Value → Bool
  | [] => true
  | v :: vs => v.isPlain && arePlain vs

/-- Whether the entries of a mapping are free of records. -/
def arePlainEntries : List (MapKey × Value) → Bool
  | [] => true
  | (_, v) :: es => v.isPlain && arePlainEntries es

end

/-- Whether two separate values are equal. A record is equal to itself only, so values that hold
records never are. -/
def Value.equal (a b : Value) : Bool := a.isPlain && b.isPlain && a.same b

/-! ## Appending -/

/-- Why a value cannot be appended. -/
inductive AppendError where
  /-- The sum of whole numbers does not fit. -/
  | overflow
  /-- The sum of numbers is not finite. -/
  | notFinite
  /-- The kinds do not go together. -/
  | kinds (addend current : String)
  /-- The wire values do not go together. -/
  | payloads (addend current : Json)

def AppendError.message : AppendError → String
  | overflow => "integer overflow"
  | notFinite => "numeric sum is not finite"
  | kinds addend current => "cannot append " ++ addend ++ " to " ++ current
  | payloads addend current => "cannot append " ++ addend.text ++ " to " ++ current.text

/-- The sum of whole numbers, if it fits 64 bits. -/
def checkedSum (a b : Int) : Option Int := if Decimal.fitsInt (a + b) then some (a + b) else none

/-- The sum of wire numbers: whole when both are and it fits, otherwise binary. -/
def Json.sum (a b : Json) : Except AppendError Json :=
  match (do checkedSum (← a.int?) (← b.int?)) with
  | some i => .ok (.int i)
  | none =>
    let nan : Float := 0.0 / 0.0
    let x := a.float?.getD nan + b.float?.getD nan
    if Decimal.isFinite x then .ok (.float x) else .error .notFinite

/-- Append a wire value to another: add numbers, join texts and lists. -/
def Json.append (current addend : Json) : Except AppendError Json :=
  match current, addend with
  | .null, v => .ok v
  | .int a, .int b => Json.sum (.int a) (.int b)
  | .int a, .float b => Json.sum (.int a) (.float b)
  | .float a, .int b => Json.sum (.float a) (.int b)
  | .float a, .float b => Json.sum (.float a) (.float b)
  | .str a, .str b => .ok (.str (a ++ b))
  | .arr a, .arr b => .ok (.arr (a ++ b))
  | a, b => .error (.payloads b a)

/-- Append a value to another: add numbers, join texts and lists. Anything may be appended to the
absent value. -/
def Value.append (current addend : Value) : Except AppendError Value :=
  match current, addend with
  | .null, v => .ok v
  | .raw .null, v => .ok v
  | .int a, .int b =>
    match checkedSum a b with
    | some i => .ok (.int i)
    | none => .error .overflow
  | .int a, .float b => .ok (.float (Decimal.ofInt a + b))
  | .float a, .int b => .ok (.float (a + Decimal.ofInt b))
  | .float a, .float b => .ok (.float (a + b))
  | .str a, .str b => .ok (.str (a ++ b))
  | .list a, .list b => .ok (.list (a ++ b))
  | .raw a, .raw b => (a.append b).map .raw
  | a, b => .error (.kinds b.kind a.kind)

end GardenMap
