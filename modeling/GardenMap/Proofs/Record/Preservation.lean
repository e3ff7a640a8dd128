import GardenMap.Proofs.Conversion.Typing
import GardenMap.Record.Update

/-!
# Updates keep the shapes of fields

The declared fields of a record stay of their shapes through any calls of `apply`, whether they
succeed or fail (`Record.Typed.after`). An append that is refused leaves an absent value, which is
of every shape.

Proof. An update finds its field as the newest declaration of a name, while a record is built with
the last one; where names are declared once these agree (`mem_allFields_of_field?`). The value that
comes in has the shape of the field by conversion, what it is appended to has it before, and the
mapping of undeclared keys holds wire values only. So one update keeps the shapes, and with them a
list of updates and a run of calls.
-/

namespace GardenMap

/-- No schema in the lineage declares one name with two shapes. -/
def Catalog.NamesOnce (c : Catalog) (id : SchemaId) : Prop :=
  ∀ t ∈ c.lineage id, ∀ f ∈ t.fields, ∀ g ∈ t.fields, f.name = g.name → f = g

/-- A record after calls of `apply`, each at its own time, whether they succeed or fail. -/
def Record.after (d : Domain) (r : Record) (calls : List (Instant × List (String × Json))) :
    Record :=
  calls.foldl (fun r call => (r.apply d call.1 call.2).1) r

/-! ## The field of a name -/

namespace Catalog

theorem mem_addField {fields : List Field} {f g : Field} (hg : g ∈ fields)
    (hne : g.name ≠ f.name) : g ∈ addField fields f := by
  unfold addField
  split
  · exact List.mem_map.2 ⟨g, hg, if_neg hne⟩
  · exact List.mem_append_left _ hg

theorem mem_addField_self (fields : List Field) (f : Field) : f ∈ addField fields f := by
  unfold addField
  split
  · next hany =>
    obtain ⟨g, hg, hname⟩ := List.any_eq_true.1 hany
    exact List.mem_map.2 ⟨g, hg, if_pos (of_decide_eq_true hname)⟩
  · simp

theorem mem_foldl_addField {fs fields : List Field} {f : Field} (hf : f ∈ fields ∨ f ∈ fs)
    (hsame : ∀ g ∈ fs, f.name = g.name → f = g) : f ∈ fs.foldl addField fields := by
  induction fs generalizing fields with
  | nil => exact hf.resolve_right List.not_mem_nil
  | cons g fs ih =>
    obtain ⟨hg, hrest⟩ := List.forall_mem_cons.1 hsame
    refine ih ?_ hrest
    by_cases hname : f.name = g.name
    · rw [hg hname]
      exact .inl (mem_addField_self fields g)
    · rcases hf with hf | hf
      · exact .inl (mem_addField hf hname)
      · rcases List.mem_cons.1 hf with rfl | hf
        · exact absurd rfl hname
        · exact .inr hf

/-- The field that an update goes to is the declared one, where names are declared once. -/
theorem mem_allFields_of_field? {c : Catalog} {id : SchemaId} (hnames : c.NamesOnce id)
    {name : String} {f : Field} (h : c.field? id name = some f) :
    f ∈ c.allFields id ∧ f.name = name := by
  unfold field? at h
  obtain ⟨newer, t, older, hlineage, hfind, hnewer⟩ := List.findSome?_eq_some_iff.1 h
  have hname : f.name = name := by simpa using List.find?_some hfind
  have hmem : f ∈ t.fields := List.mem_of_find?_eq_some hfind
  rw [List.reverse_eq_iff, List.reverse_append, List.reverse_cons, List.append_assoc] at hlineage
  refine ⟨?_, hname⟩
  unfold allFields
  rw [hlineage, List.flatMap_append, List.foldl_append]
  refine mem_foldl_addField (.inr (by simp [hmem])) fun g hg hfg => ?_
  obtain ⟨u, hu, hgu⟩ := List.mem_flatMap.1 hg
  simp only [List.cons_append, List.nil_append, List.mem_cons, List.mem_reverse] at hu
  rcases hu with rfl | hu
  · exact hnames u (by rw [hlineage]; simp) f hmem g hgu hfg
  · have hnone := List.find?_eq_none.1 (hnewer u hu) g hgu
    rw [← hfg, hname] at hnone
    simp at hnone

end Catalog

/-! ## Mappings -/

namespace Domain.HasShape

variable {d : Domain} {key value : Shape} {kind : Scalar} {entries : List (MapKey × Value)}

theorem put (h : d.HasShape (.map key value) (.map entries)) (hkey : key.scalar? = some kind)
    {k : MapKey} (hk : kind.HoldsKey k) {v : Value} (hv : d.HasShape value v) :
    d.HasShape (.map key value) (.map (Table.put entries k v)) := by
  cases h with
  | single hs => cases hs
  | map hkey' hkeys h =>
    cases hkey.symm.trans hkey'
    refine .map hkey (fun e he => ?_) fun e he => ?_
    · rcases Table.mem_of_mem_put he with rfl | he
      · exact hk
      · exact hkeys e he
    · rcases Table.mem_of_mem_put he with rfl | he
      · exact hv
      · exact h e he

theorem erase (h : d.HasShape (.map key value) (.map entries)) (k : MapKey) :
    d.HasShape (.map key value) (.map (Table.erase entries k)) := by
  cases h with
  | single hs => cases hs
  | map hkey hkeys h =>
    exact .map hkey (fun e he => hkeys e (Table.mem_of_mem_erase he))
      fun e he => h e (Table.mem_of_mem_erase he)

theorem getD (h : d.HasShape (.map key value) (.map entries)) (k : MapKey) :
    d.HasShape value ((Table.get? entries k).getD .null) := by
  cases h with
  | single hs => cases hs
  | map _ _ h =>
    cases hget : Table.get? entries k with
    | none => exact .null value
    | some v => exact h (k, v) (Table.mem_of_get? hget)

theorem updateBucket (h : d.HasShape (.map .str .any) (.map entries)) (k : String) (v : Json)
    (append : Bool) :
    d.HasShape (.map .str .any) (.map (Record.updateBucket entries (.str k) v append).1) := by
  have hv : d.HasShape .any (.raw v) := .single rfl (.any v)
  unfold Record.updateBucket
  split
  · split
    · next sum hsum => exact h.put rfl (.str k) ((h.getD _).append hv hsum)
    · exact h.erase _
  · split
    · exact h.erase _
    · exact h.put rfl (.str k) hv

end Domain.HasShape

/-! ## One update -/

namespace Record.Typed

variable {d : Domain} {r : Record}

theorem put_field (hr : r.Typed d) {f : Field} (hf : f ∈ d.catalog.allFields r.schema) {v : Value}
    (hv : d.HasShape f.shape v) : (r.put f.name v).Typed d := by
  refine hr.put fun g hg hname => ?_
  rw [Catalog.eq_of_name_eq hg hf hname]
  exact hv

theorem updateField (hr : r.Typed d) (hregular : d.RegularWithin (.record r.schema)) {f : Field}
    (hf : f ∈ d.catalog.allFields r.schema) (v : Json) (append : Bool) :
    (r.updateField d f v append).1.Typed d := by
  unfold Record.updateField
  split
  · exact hr
  next conv hconv =>
  split
  · exact hr
  next typed happly =>
  have htyped : d.HasShape f.shape typed :=
    Domain.types conv v _ typed (Catalog.converter_eq_ok.1 hconv)
      (hregular.part (Domain.part_field hf)) happly
  split
  · obtain ⟨current, hcurrent, hshape⟩ := hr f hf
    rw [hcurrent, Option.getD_some]
    split
    · next sum hsum => exact hr.put_field hf (hshape.append htyped hsum)
    · exact hr.put_field hf (.null _)
  · exact hr.put_field hf htyped

theorem updateMetadata (hr : r.Typed d) (hregular : d.Regular r.schema) (key : String) (v : Json)
    (append : Bool) : (r.updateMetadata d.catalog key v append).1.Typed d := by
  unfold Record.updateMetadata
  split
  · exact hr.setExtra _
  next field hfield =>
  -- what the bucket holds matters only where it is a declared field
  have hheld : ∀ f ∈ d.catalog.allFields r.schema, f.name = field →
      f.shape = .map .str .any ∧ d.HasShape (.map .str .any) ((r.get? field).getD .null) := by
    rintro f hf rfl
    obtain ⟨w, hw, hshape⟩ := hr f hf
    have hbucket := hregular.bucket f hf hfield
    rw [hbucket] at hshape
    rw [hw]
    exact ⟨hbucket, hshape⟩
  simp only
  generalize (r.get? field).getD .null = held at hheld
  have hmap : d.HasShape (.map .str .any) held →
      d.HasShape (.map .str .any) (if held.isNull then .map [] else held) := by
    intro h
    split
    · exact .map rfl (by simp) (by simp)
    · exact h
  generalize (if held.isNull then Value.map [] else held) = bucket at hmap
  split
  · refine hr.put fun f hf hname => ?_
    obtain ⟨hshape, hf⟩ := hheld f hf hname
    rw [hshape]
    exact (hmap hf).updateBucket key v append
  · refine hr.put fun f hf hname => ?_
    obtain ⟨hshape, hf⟩ := hheld f hf hname
    rw [hshape]
    exact hmap hf

theorem update (hr : r.Typed d) (hregular : d.RegularWithin (.record r.schema))
    (hnames : d.catalog.NamesOnce r.schema) (now : Instant) (marked : String) (v : Json) :
    (r.update d now marked v).1.Typed d := by
  unfold Record.update
  simp only
  split
  · exact hr
  split
  · next f hfield =>
    exact hr.updateField hregular (Catalog.mem_allFields_of_field? hnames hfield).1 _ _
  · exact hr.updateMetadata (hregular _ .refl) _ _ _

end Record.Typed

/-! ## Schemas stay -/

namespace Record

variable (d : Domain) (r : Record)

theorem schema_updateField (f : Field) (v : Json) (append : Bool) :
    (r.updateField d f v append).1.schema = r.schema := by
  unfold updateField
  split
  · rfl
  split
  · rfl
  split
  · split <;> rfl
  · rfl

theorem schema_updateMetadata (c : Catalog) (key : String) (v : Json) (append : Bool) :
    (r.updateMetadata c key v append).1.schema = r.schema := by
  unfold updateMetadata
  split
  · rfl
  · simp only
    split <;> rfl

theorem schema_update (now : Instant) (marked : String) (v : Json) :
    (r.update d now marked v).1.schema = r.schema := by
  unfold update
  simp only
  split
  · rfl
  split
  · exact schema_updateField d r _ _ _
  · exact schema_updateMetadata r _ _ _ _

theorem apply_keeps_of_mem {P : Record → Prop} {now : Instant} {updates : List (String × Json)}
    (hstep : ∀ u ∈ updates, ∀ r, P r → P (r.update d now u.1 u.2).1) {r : Record} (hr : P r) :
    P (r.apply d now updates).1 := by
  induction updates generalizing r with
  | nil => exact hr
  | cons u updates ih =>
    obtain ⟨marked, v⟩ := u
    obtain ⟨hfirst, hrest⟩ := List.forall_mem_cons.1 hstep
    have hnext := hfirst r hr
    rw [apply]
    split
    · next r' hu =>
      rw [hu] at hnext
      exact ih hrest hnext
    · next r' e hu =>
      rw [hu] at hnext
      exact hnext

theorem apply_keeps {P : Record → Prop} {now : Instant}
    (hstep : ∀ r marked v, P r → P (r.update d now marked v).1) {r : Record} (hr : P r)
    (updates : List (String × Json)) : P (r.apply d now updates).1 :=
  apply_keeps_of_mem d (fun u _ r => hstep r u.1 u.2) hr

end Record

/-! ## Runs -/

namespace Record.Typed

variable {d : Domain} {r : Record}

theorem apply (hr : r.Typed d) (hregular : d.RegularWithin (.record r.schema))
    (hnames : d.catalog.NamesOnce r.schema) (now : Instant) (updates : List (String × Json)) :
    (r.apply d now updates).1.Typed d ∧ (r.apply d now updates).1.schema = r.schema := by
  refine apply_keeps d (P := fun r' => r'.Typed d ∧ r'.schema = r.schema) ?_ ⟨hr, rfl⟩ updates
  rintro r' marked v ⟨htyped, hschema⟩
  rw [← hschema] at hregular hnames
  exact ⟨htyped.update hregular hnames now marked v,
    (r'.schema_update d now marked v).trans hschema⟩

theorem after (hr : r.Typed d) (hregular : d.RegularWithin (.record r.schema))
    (hnames : d.catalog.NamesOnce r.schema) (calls : List (Instant × List (String × Json))) :
    (r.after d calls).Typed d ∧ (r.after d calls).schema = r.schema := by
  induction calls generalizing r with
  | nil => exact ⟨hr, rfl⟩
  | cons call calls ih =>
    obtain ⟨htyped, hschema⟩ := hr.apply hregular hnames call.1 call.2
    rw [← hschema] at hregular hnames ⊢
    exact ih htyped hregular hnames

end Record.Typed

end GardenMap
