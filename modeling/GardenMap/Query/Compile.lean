import GardenMap.Phrase.DateExpr
import GardenMap.Phrase.Threshold
import GardenMap.Query.Plan

/-!
# Compiling clauses

A clause is about a declared field, or about an undeclared key, which is looked for in the metadata
of a point. Text is read as a date expression or a threshold first:

| value              | plain clause               | negated clause |
|--------------------|----------------------------|----------------|
| `before INSTANT`   | tested here, `<`           | `>=`           |
| `after INSTANT`    | tested here, `>`           | `<=`           |
| `INSTANT`          | filtered by canonical text | `!=`           |
| `at least NUMBER`  | tested here, `>=`          | `<`            |
| `at most NUMBER`   | tested here, `<=`          | `>`            |
| anything else      | filtered                   | `!=`           |

The tag of the target is written into the filter last.
-/

namespace GardenMap

/-- What the text of a clause says. -/
inductive Meaning where
  /-- A comparison, of the clause without negation. -/
  | comparison (op : Comparison) (operand : Operand)
  /-- A value. -/
  | literal (v : Json)

def Qualifier.comparison : Qualifier → Comparison
  | before => .lt
  | after => .gt

def Bound.comparison : Bound → Comparison
  | atLeast => .ge
  | atMost => .le

namespace Clause

def refuse {α : Type} (q : Clause) (why : ClauseFault) : Except Error α :=
  .error (.clause q.text why)

/-- What the value of a clause says, at a given time. -/
def meaning (now : Instant) (q : Clause) : Except Error Meaning :=
  match q.value with
  | .str text =>
    match Phrase.readDateExpr text.toList with
    | .error e => q.refuse (.phrase e)
    | .ok (some expr) =>
      match expr.moment.resolve? now, expr.qualifier with
      | none, _ => .error .outOfCalendar
      | some t, none => .ok (.literal (.str t.text))
      | some t, some side => .ok (.comparison side.comparison (.instant t))
    | .ok none =>
      match Phrase.readThreshold text.toList with
      | .error e => q.refuse (.phrase e)
      | .ok (some bound) => .ok (.comparison bound.bound.comparison (.number bound.value))
      | .ok none => .ok (.literal q.value)
  | v => .ok (.literal v)

/-- The value of a clause under the shape of its field. -/
def typed (d : Domain) (q : Clause) (declared : Option Field) (v : Json) : Except Error Value :=
  match declared with
  | none => .ok (.raw v)
  | some f =>
    match d.catalog.converter f.shape with
    | .error e => .error (.unresolved e)
    | .ok conv =>
      match d.apply conv v with
      | .ok typed => .ok typed
      | .error e => q.refuse (.misfit f.shape e)

end Clause

/-- What has been compiled so far. -/
structure Draft where
  /-- The filter of declared fields. -/
  filter : Object
  /-- The filter of undeclared keys. -/
  metadata : Object
  predicates : List Predicate

namespace Draft

def empty : Draft := ⟨[], [], []⟩

def test (draft : Draft) (field : FieldRef) (test : Test) : Draft :=
  { draft with predicates := draft.predicates ++ [⟨field, test⟩] }

def add (d : Domain) (target : SchemaId) (now : Instant) (draft : Draft) (q : Clause) :
    Except Error Draft := do
  let (key, negated) := q.target
  if key.isEmpty then q.refuse .emptyKey
  let declared := d.catalog.field? target key
  let field : FieldRef := if declared.isSome then .field key else .metadata key
  match ← q.meaning now with
  | .comparison op operand =>
    return draft.test field (.compare (if negated then op.negate else op) operand)
  | .literal v =>
    let typed ← q.typed d declared v
    if negated then return draft.test field (.notEqual typed)
    else if declared.isSome || (d.catalog.metadataField? target).isNone then
      return { draft with filter := Table.put draft.filter key v }
    else return { draft with metadata := Table.put draft.metadata key v }

/-- The filter with the undeclared keys put into the metadata field. -/
def merged (draft : Draft) (metadataField : Option String) : Object :=
  match metadataField with
  | none => draft.filter
  | some field =>
    if draft.metadata.isEmpty then draft.filter
    else
      match Table.get? draft.filter field with
      | some (.obj entries) =>
        Table.put draft.filter field (.obj (Table.putAll entries draft.metadata))
      | _ => Table.put draft.filter field (.obj draft.metadata)

def tagged (c : Catalog) (target : SchemaId) (filter : Object) : Object :=
  match c.family? target with
  | some family => Table.put filter family.discriminator (.str (family.tagOf target))
  | none => filter

end Draft

namespace Plan

/-- The plan of clauses about records of a schema. Relative dates are resolved now. -/
def compile (d : Domain) (target : SchemaId) (now : Instant) (clauses : List Clause) :
    Except Error Plan := do
  let draft ← clauses.foldlM (Draft.add d target now) .empty
  let filter := draft.merged (d.catalog.metadataField? target)
  return ⟨target, Draft.tagged d.catalog target filter, draft.predicates⟩

def compileRaw (d : Domain) (target : SchemaId) (now : Instant) (v : Json) : Except Error Plan := do
  compile d target now (← Clause.ofRaw v)

def compileText (d : Domain) (target : SchemaId) (now : Instant) (text : String) :
    Except Error Plan := do
  compile d target now (← Clause.ofText text)

end Plan

end GardenMap
