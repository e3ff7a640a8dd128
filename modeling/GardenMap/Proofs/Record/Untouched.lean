import GardenMap.Proofs.Record.Wholeness

/-!
# What updates leave alone

An update writes to the field of its key, to the field for undeclared keys, or to the extra keys
where a schema has no such field. So fields that no update names stay as they are through any calls
of `apply`, whether they succeed or fail, and where undeclared keys have a field of their own, so do
the extra keys (`Untouched.after`).
-/

namespace GardenMap

theorem Catalog.name_of_field? {c : Catalog} {id : SchemaId} {name : String} {f : Field}
    (h : c.field? id name = some f) : f.name = name := by
  obtain ⟨t, -, hfind⟩ := List.exists_of_findSome?_eq_some h
  simpa using List.find?_some hfind

namespace Record

/-- The second record has the schema, the extra keys and these fields of the first one. -/
structure Untouched (ks : List String) (r r' : Record) : Prop where
  schema : r'.schema = r.schema
  extra : r'.extra = r.extra
  field : ∀ k ∈ ks, r'.get? k = r.get? k

namespace Untouched

variable {d : Domain} {ks : List String} {r r' r'' : Record}

theorem refl (ks : List String) (r : Record) : Untouched ks r r := ⟨rfl, rfl, fun _ _ => rfl⟩

theorem trans (h : Untouched ks r r') (h' : Untouched ks r' r'') : Untouched ks r r'' :=
  ⟨h'.schema.trans h.schema, h'.extra.trans h.extra,
    fun k hk => (h'.field k hk).trans (h.field k hk)⟩

theorem put {name : String} (hname : name ∉ ks) (v : Value) : Untouched ks r (r.put name v) := by
  refine ⟨rfl, rfl, fun k hk => ?_⟩
  unfold Record.get? Record.put
  rw [Table.get?_put, if_neg]
  rintro rfl
  exact hname hk

theorem updateField {f : Field} (hf : f.name ∉ ks) (v : Json) (append : Bool) :
    Untouched ks r (r.updateField d f v append).1 := by
  unfold Record.updateField
  split
  · exact refl ks r
  split
  · exact refl ks r
  split
  · split <;> exact put hf _
  · exact put hf _

theorem updateMetadata {c : Catalog} {bucket : String}
    (hbucket : c.metadataField? r.schema = some bucket) (hks : bucket ∉ ks) (key : String)
    (v : Json) (append : Bool) : Untouched ks r (r.updateMetadata c key v append).1 := by
  unfold Record.updateMetadata
  rw [hbucket]
  simp only
  split <;> exact put hks _

theorem update {bucket : String} (hbucket : d.catalog.metadataField? r.schema = some bucket)
    (hks : bucket ∉ ks) (now : Instant) {marked : String}
    (hmarked : (splitMark appendMark marked).1 ∉ ks) (v : Json) :
    Untouched ks r (r.update d now marked v).1 := by
  unfold Record.update
  simp only
  split
  · exact refl ks r
  split
  · next f hf =>
    rw [← Catalog.name_of_field? hf] at hmarked
    exact updateField hmarked _ _
  · exact updateMetadata hbucket hks _ _ _

/-- Updates that name none of the fields leave them as they are. -/
theorem apply {bucket : String} (hbucket : d.catalog.metadataField? r.schema = some bucket)
    (hks : bucket ∉ ks) (now : Instant) {updates : List (String × Json)}
    (h : ∀ u ∈ updates, (splitMark appendMark u.1).1 ∉ ks) :
    Untouched ks r (r.apply d now updates).1 := by
  refine apply_keeps_of_mem d (P := Untouched ks r) (fun u hu r' hr' => ?_) (refl ks r)
  exact hr'.trans (update (hr'.schema ▸ hbucket) hks now (h u hu) u.2)

/-- The same of calls, each at its own time. -/
theorem after {bucket : String} (hbucket : d.catalog.metadataField? r.schema = some bucket)
    (hks : bucket ∉ ks) {calls : List (Instant × List (String × Json))}
    (h : ∀ call ∈ calls, ∀ u ∈ call.2, (splitMark appendMark u.1).1 ∉ ks) :
    Untouched ks r (r.after d calls) := by
  induction calls generalizing r with
  | nil => exact refl ks r
  | cons call calls ih =>
    obtain ⟨hcall, hcalls⟩ := List.forall_mem_cons.1 h
    have hstep := apply hbucket hks call.1 hcall
    exact hstep.trans (ih (hstep.schema ▸ hbucket) hcalls)

end Untouched

theorem Whole.after {d : Domain} {r : Record} (hr : r.Whole d.catalog)
    (hbucket : d.catalog.BucketDeclared r.schema)
    (calls : List (Instant × List (String × Json))) : (r.after d calls).Whole d.catalog := by
  induction calls generalizing r with
  | nil => exact hr
  | cons call calls ih =>
    obtain ⟨hwhole, hschema⟩ := hr.apply hbucket call.1 call.2
    exact ih hwhole (hschema ▸ hbucket)

end Record

end GardenMap
