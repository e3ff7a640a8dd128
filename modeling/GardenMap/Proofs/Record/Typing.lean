import GardenMap.Proofs.Conversion.Scalars
import GardenMap.Proofs.Record.Assembly
import Mathlib.Data.List.Nodup
import Mathlib.Logic.Relation

/-!
# Values of a shape

`Domain.HasShape` says which values a shape has. An absent value has every shape; a list has the
shape of its items, a mapping those of its keys and values, and a record has every declared field,
each with its own shape. Shapes are kept by what updates are made of: appending a value to another
(`HasShape.append`) and putting a value into a field of a record (`Record.Typed.put`).
-/

namespace GardenMap

/-! ## Single values and keys -/

namespace Scalar

/-- The values of a kind that are not absent. A wire value may be null. -/
inductive Holds : Scalar → Value → Prop
  | any (w : Json) : Holds .any (.raw w)
  | bool (b : Bool) : Holds .bool (.bool b)
  | int (i : Int) (h : Decimal.fitsInt i = true) : Holds .int (.int i)
  | float (x : Float) : Holds .float (.float x)
  | str (s : String) : Holds .str (.str s)
  | date (d : Date) : Holds .date (.date d)
  | datetime (t : Instant) : Holds .datetime (.datetime t)

/-- The keys of a kind. Keys of no particular kind are texts. -/
inductive HoldsKey : Scalar → MapKey → Prop
  | any (s : String) : HoldsKey .any (.str s)
  | bool (b : Bool) : HoldsKey .bool (.bool b)
  | int (i : Int) (h : Decimal.fitsInt i = true) : HoldsKey .int (.int i)
  | str (s : String) : HoldsKey .str (.str s)
  | date (d : Date) : HoldsKey .date (.date d)
  | datetime (t : Instant) : HoldsKey .datetime (.datetime t)

variable {kind : Scalar}

theorem Has.holds {v : Value} (h : kind.Has v) : v = .null ∨ kind.Holds v := by
  cases h with
  | null => exact .inl rfl
  | raw w => exact .inr (.any w)
  | bool b => exact .inr (.bool b)
  | int i hi => exact .inr (.int i hi)
  | float x => exact .inr (.float x)
  | str s => exact .inr (.str s)
  | date d => exact .inr (.date d)
  | datetime t => exact .inr (.datetime t)

theorem holdsKey_of_convertKey {key : String} {k : MapKey} (h : kind.convertKey key = .ok k) :
    kind.HoldsKey k := by
  obtain ⟨v, hv, hk⟩ := ok_of_bind h
  cases has_of_convert hv with
  | null | float x => cases hk
  | raw w =>
    cases w with
    | str s =>
      cases hk
      exact .any s
    | _ => cases hk
  | bool b =>
    cases hk
    exact .bool b
  | int i hi =>
    cases hk
    exact .int i hi
  | str s =>
    cases hk
    exact .str s
  | date d =>
    cases hk
    exact .date d
  | datetime t =>
    cases hk
    exact .datetime t

end Scalar

/-! ## Shapes -/

/-- The second schema is in the index of the family that the first one is the base of. -/
def Domain.Member (d : Domain) (id member : SchemaId) : Prop :=
  ∃ f, d.catalog.rootedFamily? id = some f ∧ member ∈ (d.indexOf f).map (·.2)

/-- The values of a shape. A record of a schema may be one of a member of its family, and so on
where the member is the base of a family of its own. -/
inductive Domain.HasShape (d : Domain) : Shape → Value → Prop
  | null (s : Shape) : HasShape d s .null
  | single {s : Shape} {kind : Scalar} {v : Value} (hs : s.scalar? = some kind)
      (h : kind.Holds v) : HasShape d s v
  | optional {inner : Shape} {v : Value} (h : HasShape d inner v) : HasShape d (.optional inner) v
  | union {members : List Shape} {only : Shape} {v : Value}
      (hm : Shape.concrete members = [only]) (h : HasShape d only v) :
      HasShape d (.union members) v
  | list {item : Shape} {items : List Value} (h : ∀ v ∈ items, HasShape d item v) :
      HasShape d (.list item) (.list items)
  | map {key value : Shape} {kind : Scalar} {entries : List (MapKey × Value)}
      (hkey : key.scalar? = some kind) (hkeys : ∀ e ∈ entries, kind.HoldsKey e.1)
      (h : ∀ e ∈ entries, HasShape d value e.2) : HasShape d (.map key value) (.map entries)
  | record {id : SchemaId} {r : Record} (hid : Relation.ReflTransGen d.Member id r.schema)
      (hdeclared : ∀ f ∈ d.catalog.allFields r.schema, (r.get? f.name).isSome = true)
      (h : ∀ f ∈ d.catalog.allFields r.schema, ∀ v, r.get? f.name = some v →
        HasShape d f.shape v) : HasShape d (.record id) (.record r)

/-- Every declared field of a record is there and has its shape. -/
def Record.Typed (d : Domain) (r : Record) : Prop :=
  ∀ f ∈ d.catalog.allFields r.schema, ∃ v, r.get? f.name = some v ∧ d.HasShape f.shape v

namespace Domain

variable {d : Domain}

theorem hasShape_record_iff {id : SchemaId} {r : Record} :
    d.HasShape (.record id) (.record r) ↔
      Relation.ReflTransGen d.Member id r.schema ∧ r.Typed d := by
  constructor
  · intro h
    cases h with
    | single hs _ => cases hs
    | record hid hdeclared h =>
      refine ⟨hid, fun f hf => ?_⟩
      obtain ⟨v, hv⟩ := Option.isSome_iff_exists.1 (hdeclared f hf)
      exact ⟨v, hv, h f hf v hv⟩
  · rintro ⟨hid, htyped⟩
    refine .record hid (fun f hf => ?_) fun f hf v hv => ?_
    · obtain ⟨v, hv, -⟩ := htyped f hf
      rw [hv]
      rfl
    · obtain ⟨w, hw, hshape⟩ := htyped f hf
      rw [hw, Option.some.injEq] at hv
      exact hv ▸ hshape

theorem HasShape.of_single {s : Shape} {kind : Scalar} {v : Value} (h : d.HasShape s v)
    (hs : s.scalar? = some kind) : v = .null ∨ kind.Holds v := by
  cases h with
  | null => exact .inl rfl
  | single hs' h =>
    cases hs.symm.trans hs'
    exact .inr h
  | optional | union | list | map | record => cases hs

/-! ## Appending -/

theorem eq_null_of_append_null {a c : Value} (h : a.append .null = .ok c) : c = .null := by
  cases a with
  | null =>
    cases h
    rfl
  | raw w =>
    cases w with
    | null =>
      cases h
      rfl
    | _ => cases h
  | _ => cases h

theorem fitsInt_of_checkedSum {a b i : Int} (h : checkedSum a b = some i) :
    Decimal.fitsInt i = true := by
  unfold checkedSum at h
  split at h
  · next hfits =>
    cases h
    exact hfits
  · cases h

theorem holds_append {kind : Scalar} {a b c : Value} (ha : kind.Holds a) (hb : kind.Holds b)
    (h : a.append b = .ok c) : kind.Holds c := by
  cases ha with
  | any v =>
    obtain ⟨w⟩ := hb
    cases hv : v.isNull with
    | true =>
      cases v with
      | null =>
        cases h
        exact .any w
      | _ => cases hv
    | false =>
      have hmap : (v.append w).map Value.raw = .ok c := by
        cases v with
        | null => cases hv
        | _ => exact h
      cases hsum : v.append w with
      | error e =>
        rw [hsum] at hmap
        cases hmap
      | ok x =>
        rw [hsum] at hmap
        cases hmap
        exact .any x
  | int i _ =>
    obtain ⟨j, -⟩ := hb
    simp only [Value.append] at h
    split at h
    · next k hsum =>
      cases h
      exact .int k (fitsInt_of_checkedSum hsum)
    · cases h
  | float x =>
    obtain ⟨y⟩ := hb
    cases h
    exact .float _
  | str s =>
    obtain ⟨t⟩ := hb
    cases h
    exact .str _
  | bool | date | datetime =>
    cases hb
    cases h

/-- What is appended to a value of a shape, and has that shape, leaves a value of that shape. -/
theorem HasShape.append {s : Shape} {a b c : Value} (ha : d.HasShape s a) (hb : d.HasShape s b)
    (h : a.append b = .ok c) : d.HasShape s c := by
  by_cases hnull : b = .null
  · subst hnull
    rw [eq_null_of_append_null h]
    exact .null s
  -- both values are of one form now, since `b` is not absent
  induction ha with
  | null s =>
    cases h
    exact hb
  | single hs ha =>
    obtain rfl | hb := hb.of_single hs
    · exact absurd rfl hnull
    exact .single hs (holds_append ha hb h)
  | optional _ ih =>
    cases hb with
    | null => exact absurd rfl hnull
    | single hs => cases hs
    | optional hb => exact .optional (ih hb h)
  | union hm _ ih =>
    cases hb with
    | null => exact absurd rfl hnull
    | single hs => cases hs
    | union hm' hb =>
      cases hm.symm.trans hm'
      exact .union hm (ih hb h)
  | list ha =>
    cases hb with
    | null => exact absurd rfl hnull
    | single hs => cases hs
    | list hb =>
      cases h
      exact .list fun v hv => (List.mem_append.1 hv).elim (ha v) (hb v)
  | map =>
    cases hb with
    | null => exact absurd rfl hnull
    | single hs => cases hs
    | map => cases h
  | record =>
    cases hb with
    | null => exact absurd rfl hnull
    | single hs => cases hs
    | record => cases h

end Domain

/-! ## Fields of records -/

theorem Catalog.eq_of_name_eq {c : Catalog} {id : SchemaId} {f g : Field}
    (hf : f ∈ c.allFields id) (hg : g ∈ c.allFields id) (h : f.name = g.name) : f = g :=
  List.inj_on_of_nodup_map (c.nodup_allFields id) hf hg h

namespace Record.Typed

variable {d : Domain} {r : Record} {name : String} {v : Value}

theorem put (hr : r.Typed d)
    (hv : ∀ f ∈ d.catalog.allFields r.schema, f.name = name → d.HasShape f.shape v) :
    (r.put name v).Typed d := by
  intro f hf
  obtain ⟨w, hw, hshape⟩ := hr f hf
  have hget : (r.put name v).get? f.name = if f.name = name then some v else r.get? f.name :=
    Table.get?_put r.fields name f.name v
  rw [hget]
  split
  · next hname => exact ⟨v, rfl, hv f hf hname⟩
  · exact ⟨w, hw, hshape⟩

theorem fill (hr : r.Typed d)
    (hv : ∀ f ∈ d.catalog.allFields r.schema, f.name = name → d.HasShape f.shape v) :
    (r.fill name v).Typed d := by
  unfold Record.fill
  split
  · split
    · exact hr.put hv
    · exact hr
  · exact hr

theorem setExtra (hr : r.Typed d) (extra : List (String × Value)) :
    Record.Typed d { r with extra := extra } := hr

end Record.Typed

end GardenMap
