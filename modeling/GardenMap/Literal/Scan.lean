import GardenMap.Json.Basic

/-!
# Scanning literals

The tokens of the literal grammar, and lists of elements between commas. A scanner looks at the
rest of a text. It finds its form, misses it, so that another form may be tried, or fails, which
settles that the whole text is no literal; the last two say where.
-/

namespace GardenMap.Literal

/-- What a scanner makes of a text. -/
inductive Outcome (α : Type) where
  /-- A value, and the text after it. -/
  | found (value : α) (rest : List Char)
  /-- The form is not here. -/
  | missed (place : List Char)
  /-- No form can be here. -/
  | failed (place : List Char)

namespace Outcome

variable {α β : Type}

def map (f : α → β) : Outcome α → Outcome β
  | found v rest => found (f v) rest
  | missed p => missed p
  | failed p => failed p

def andThen (o : Outcome α) (f : α → List Char → Outcome β) : Outcome β :=
  match o with
  | found v rest => f v rest
  | missed p => missed p
  | failed p => failed p

end Outcome

/-- Space, tab, carriage return or line feed: what may stand between tokens. -/
def isGap (c : Char) : Bool := c = ' ' || c = '\t' || c = '\r' || c = '\n'

def skipGap (s : List Char) : List Char := s.dropWhile isGap

/-! ## Keywords and numbers -/

def keywords : List (String × Json) :=
  [("None", .null), ("null", .null), ("True", .bool true), ("true", .bool true),
    ("False", .bool false), ("false", .bool false)]

/-- A character that a keyword must not be followed by. -/
def continuesWord (c : Char) : Bool := c.isAlphanum || c = '_'

def word? (w s : List Char) : Option (List Char) :=
  if w.isPrefixOf s && !(s.drop w.length).head?.any continuesWord then some (s.drop w.length)
  else none

def keyword? (s : List Char) : Option (Json × List Char) :=
  keywords.findSome? fun (w, v) => (word? w.toList s).map fun rest => (v, rest)

/-- The number that a token spells: a binary one when it has a point or an exponent, otherwise a
whole one. A token out of range spells none. -/
def numberOf? (token : List Char) (n : Decimal.Numeral) : Option Json :=
  if token.any fun c => c = '.' || c = 'e' || c = 'E' then
    let x := n.toFloat
    if Decimal.isFinite x then some (.float x) else none
  else
    let i : Int := if n.negative then -(n.digits : Int) else n.digits
    if Decimal.fitsWord i then some (.int i) else none

def number (s : List Char) : Outcome Json :=
  match Decimal.spanNumeral? s with
  | none => .missed s
  | some (n, rest) =>
    match numberOf? (s.take (s.length - rest.length)) n with
    | some v => .found v rest
    | none => .failed s

/-! ## Quoted text -/

/-- The character that an escape of one letter stands for. -/
def escape? : Char → Option Char
  | 'n' => some '\n'
  | 't' => some '\t'
  | 'r' => some '\r'
  | '0' => some '\x00'
  | '\\' => some '\\'
  | '\'' => some '\''
  | '"' => some '"'
  | _ => none

def hexDigit? (c : Char) : Option Nat :=
  if '0' ≤ c && c ≤ '9' then some (c.toNat - 48)
  else if 'a' ≤ c && c ≤ 'f' then some (c.toNat - 87)
  else if 'A' ≤ c && c ≤ 'F' then some (c.toNat - 55)
  else none

/-- The character with a code point of four hexadecimal digits. -/
def codePoint? (a b c d : Char) : Option Char := do
  let code := (((← hexDigit? a) * 16 + (← hexDigit? b)) * 16 + (← hexDigit? c)) * 16
    + (← hexDigit? d)
  if h : code.isValidChar then some (Char.ofNatAux code h) else none

/-- The text up to the closing quote. `start` is the text from the opening quote on. -/
def quotedBody (quote : Char) (start : List Char) : List Char → Outcome (List Char)
  | [] => .failed start
  | c :: s =>
    if c = quote then .found [] s
    else if c = '\n' then .failed (c :: s)
    else if c = '\\' then
      match s with
      | 'u' :: h1 :: h2 :: h3 :: h4 :: t =>
        match codePoint? h1 h2 h3 h4 with
        | some x => (quotedBody quote start t).map (x :: ·)
        | none => .failed (c :: s)
      | e :: t =>
        match escape? e with
        | some x => (quotedBody quote start t).map (x :: ·)
        | none => .failed (c :: s)
      | [] => .failed (c :: s)
    else (quotedBody quote start s).map (c :: ·)

def quoted (s : List Char) : Outcome String :=
  match s with
  | q :: t => if q = '\'' || q = '"' then (quotedBody q s t).map String.ofList else .missed s
  | [] => .missed s

/-! ## Elements between commas -/

variable {α : Type}

/-- The text after a comma at its start, a gap before it aside. -/
def comma? (s : List Char) : Option (List Char) :=
  match skipGap s with
  | ',' :: t => some t
  | _ => none

/-- The elements that follow one: each after a comma. A comma with no element after it is left. -/
def moreElements (item : List Char → Outcome α) (s : List Char) : Outcome (List α) :=
  match comma? s with
  | none => .found [] s
  | some t =>
    match item t with
    | .found v rest =>
      if rest.length < s.length then (moreElements item rest).map (v :: ·) else .found [] s
    | .missed _ => .found [] s
    | .failed p => .failed p
termination_by s.length

def elements (item : List Char → Outcome α) (s : List Char) : Outcome (List α) :=
  match item s with
  | .found v rest => (moreElements item rest).map (v :: ·)
  | .missed _ => .found [] s
  | .failed p => .failed p

def bracketEnd (bracket : Char) (s : List Char) : Outcome Unit :=
  match skipGap s with
  | c :: rest => if c = bracket then .found () rest else .missed (c :: rest)
  | [] => .missed []

/-- A closing bracket after an optional comma: whether there was one. -/
def closing (bracket : Char) (s : List Char) : Outcome Bool :=
  match comma? s with
  | some t => (bracketEnd bracket t).map fun _ => true
  | none => (bracketEnd bracket s).map fun _ => false

/-- Elements up to a closing bracket, and whether a comma stands before the bracket. -/
def enclosed (item : List Char → Outcome α) (bracket : Char) (s : List Char) :
    Outcome (List α × Bool) :=
  (elements item s).andThen fun vs rest => (closing bracket rest).map fun trailing => (vs, trailing)

end GardenMap.Literal
