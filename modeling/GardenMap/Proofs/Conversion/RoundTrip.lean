import GardenMap.Proofs.Conversion.Scalars
import GardenMap.Proofs.Conversion.Success

/-!
# Values on the wire and back

A converter restores when every finite value that it gives is restored from its wire form. Scalars
restore, and so do the other forms around converters that do, records aside.

Proof. Lists go element by element. A mapping may lose entries on the wire, where keys that differ
below the millisecond have one text; the table of the texts is what is read back, and its entries
are those of the table that comes out.
-/

namespace GardenMap

namespace Domain

variable {d : Domain}

/-- Every finite value that the converter gives is restored from its wire form. -/
def Restores (d : Domain) (conv : Converter) : Prop :=
  ∀ r v, r.Sorted → d.apply conv r = .ok v → v.IsFinite → v.RestoredBy (d.apply conv)

theorem restoredBy_scalar {kind : Scalar} {v : Value} (h : kind.Has v) (hfin : v.IsFinite) :
    v.RestoredBy (d.apply (.scalar kind)) := by
  rw [apply_scalar]
  exact h.restoredBy hfin

theorem restores_scalar (kind : Scalar) : d.Restores (.scalar kind) := by
  intro r v _ h hfin
  rw [apply_scalar] at h
  exact restoredBy_scalar (Scalar.has_of_convert h) hfin

theorem restoredBy_null (conv : Converter) : Value.null.RestoredBy (d.apply conv) :=
  .same (apply_null conv)

theorem restores_absent : d.Restores .absent := by
  intro r v _ h _
  rw [apply_absent] at h
  cases h
  exact restoredBy_null _

/-! ## Optional values -/

theorem eq_null_of_isNone {r : Json} {v : Value} (hfin : v.IsFinite)
    (hr : Payload.isNone r = false) (hv : Payload.isNone v.toRaw = true) :
    ∀ conv, d.apply conv r = .ok v → v = .null
  | .scalar kind, h => by
    rw [apply_scalar] at h
    exact Scalar.eq_null_of_isNone h hfin hr hv
  | .absent, h => by
    rw [apply_absent] at h
    cases h
    rfl
  | .nullable inner, h => by
    rw [apply_nullable, hr] at h
    exact eq_null_of_isNone hfin hr hv inner h
  | .list item, h => by
    rcases of_apply_list h with rfl | ⟨vs, xs, -, -, rfl⟩
    · rfl
    · cases hv
  | .map key value, h => by
    rcases of_apply_map h with rfl | ⟨es, t, -, -, rfl⟩
    · rfl
    · cases hv
  | .record id fs, h => by
    rcases of_apply_record h with rfl | ⟨es, target, typed, -, -, -, rfl⟩
    · rfl
    · rw [toRaw_record] at hv
      cases hv

theorem Restores.nullable {inner : Converter} (hinner : d.Restores inner) :
    d.Restores (.nullable inner) := by
  intro r v hr h hfin
  rw [apply_nullable] at h
  split at h
  · cases h
    exact restoredBy_null _
  · next hnone =>
    obtain ⟨w, hw, hraw, hwhole⟩ := hinner r v hr h hfin
    cases hv : Payload.isNone v.toRaw with
    | true =>
      rw [eq_null_of_isNone hfin (Bool.eq_false_iff.2 hnone) hv inner h]
      exact restoredBy_null _
    | false =>
      refine ⟨w, ?_, hraw, hwhole⟩
      rw [apply_nullable, hv]
      exact hw

/-! ## Lists -/

theorem items_rawItems {item : Converter} {xs : List Value}
    (h : ∀ x ∈ xs, x.RestoredBy (d.apply item)) (position : Nat) :
    ∃ ys, d.items item (rawItems xs) position = .ok ys ∧ rawItems ys = rawItems xs ∧
      ((∀ x ∈ xs, x.IsWhole) → ys = xs) := by
  induction xs generalizing position with
  | nil =>
    refine ⟨[], ?_, rfl, fun _ => rfl⟩
    unfold items
    rw [rawItems, Conversion.convertItems]
  | cons x xs ih =>
    obtain ⟨⟨y, hy, hyraw, hywhole⟩, hxs⟩ := List.forall_mem_cons.1 h
    obtain ⟨ys, hys, hysraw, hyswhole⟩ := ih hxs (position + 1)
    refine ⟨y :: ys, ?_, ?_, fun hwhole => ?_⟩
    · rw [rawItems, items_cons, hy, hys]
      rfl
    · rw [rawItems, rawItems, hyraw, hysraw]
    · obtain ⟨hx, hxs⟩ := List.forall_mem_cons.1 hwhole
      rw [hywhole hx, hyswhole hxs]

theorem Restores.list {item : Converter} (hitem : d.Restores item) : d.Restores (.list item) := by
  intro r v hr h hfin
  rcases of_apply_list h with rfl | ⟨vs, xs, hvs, hxs, rfl⟩
  · exact restoredBy_null _
  have hitems : ∀ x ∈ xs, x.RestoredBy (d.apply item) := by
    intro x hx
    obtain ⟨w, hw, hwx⟩ := of_items hxs x hx
    exact hitem w x (Payload.sorted_of_items hr hvs w hw) hwx (allItems_iff.1 hfin x hx)
  obtain ⟨ys, hys, hraw, hwhole⟩ := items_rawItems hitems 0
  refine ⟨.list ys, ?_, ?_, fun h => ?_⟩
  · rw [Value.toRaw]
    exact apply_list_arr hys
  · rw [Value.toRaw, Value.toRaw, hraw]
  · rw [hwhole (allItems_iff.1 h)]

/-! ## Mappings -/

section Mappings

variable {key : Scalar} {value : Converter} {t t' : List (MapKey × Value)}

theorem mem_ofList_rawEntries {f : String × Json} (h : f ∈ Table.ofList (rawEntries t)) :
    ∃ e ∈ t, e.1.text = f.1 ∧ e.2.toRaw = f.2 := by
  have hmem := Table.mem_of_mem_ofList h
  rw [rawEntries_eq] at hmem
  obtain ⟨e, he, rfl⟩ := List.mem_map.1 hmem
  exact ⟨e, he, rfl, rfl⟩

theorem rawEntries_entries (hkey : ∀ e ∈ t, e.1.RereadBy key)
    (hvalue : ∀ e ∈ t, e.2.RereadBy (d.apply value))
    (h : d.entries key value (Table.ofList (rawEntries t)) [] = .ok t') :
    Table.ofList (rawEntries t') = Table.ofList (rawEntries t) := by
  have hsorted := Table.sorted_ofList (rawEntries t)
  have hto : ∀ e ∈ t', (e.1.text, e.2.toRaw) ∈ Table.ofList (rawEntries t) := by
    intro e he
    rcases of_entries h e he with he | ⟨f, hf, hfk, hfx⟩
    · cases he
    obtain ⟨e₀, he₀, htext, hraw⟩ := mem_ofList_rawEntries hf
    obtain ⟨k, hk, hktext⟩ := hkey e₀ he₀
    obtain ⟨x, hx, hxraw⟩ := hvalue e₀ he₀
    rw [htext, hfk] at hk
    rw [hraw, hfx] at hx
    cases hk
    cases hx
    rw [hktext, htext, hxraw, hraw]
    exact hf
  refine Table.ofList_of_mem_iff hsorted fun f => ?_
  rw [rawEntries_eq t']
  constructor
  · intro hf
    obtain ⟨e, he, rfl⟩ := List.mem_map.1 hf
    exact hto e he
  · intro hf
    obtain ⟨k, hk, hhas⟩ := (has_entries h).2 f hf
    obtain ⟨x, hx⟩ := Option.isSome_iff_exists.1 hhas
    have he := Table.mem_of_get? hx
    obtain ⟨e₀, he₀, htext, -⟩ := mem_ofList_rawEntries hf
    obtain ⟨l, hl, hltext⟩ := hkey e₀ he₀
    rw [htext, hk] at hl
    cases hl
    -- the texts are keys of a table, so the entry at this one is the one that was read
    have hmem := hto _ he
    rw [hltext, htext] at hmem
    have hget := Table.get?_of_mem hsorted hmem
    rw [Table.get?_of_mem hsorted hf] at hget
    exact List.mem_map.2 ⟨_, he, Prod.ext (hltext.trans htext) (Option.some.inj hget).symm⟩

theorem entries_eq_of_whole (ht : Table.Sorted t) (hkey : ∀ e ∈ t, e.1.RestoredBy key)
    (hvalue : ∀ e ∈ t, e.2.RestoredBy (d.apply value))
    (hwhole : ∀ e ∈ t, e.1.IsWhole ∧ e.2.IsWhole)
    (h : d.entries key value (Table.ofList (rawEntries t)) [] = .ok t') : t' = t := by
  have hto : ∀ e ∈ t', e ∈ t := by
    intro e he
    rcases of_entries h e he with he | ⟨f, hf, hfk, hfx⟩
    · cases he
    obtain ⟨e₀, he₀, htext, hraw⟩ := mem_ofList_rawEntries hf
    obtain ⟨k, hk, -, hksame⟩ := hkey e₀ he₀
    obtain ⟨x, hx, -, hxsame⟩ := hvalue e₀ he₀
    rw [htext, hfk] at hk
    rw [hraw, hfx] at hx
    cases hk
    cases hx
    have heq : e = e₀ := Prod.ext (hksame (hwhole e₀ he₀).1) (hxsame (hwhole e₀ he₀).2)
    rw [heq]
    exact he₀
  refine Table.eq_of_mem_iff (sorted_entries h Table.sorted_nil) ht fun e => ⟨hto e, fun he => ?_⟩
  have hraw : (e.1.text, e.2.toRaw) ∈ rawEntries t := by
    rw [rawEntries_eq]
    exact List.mem_map.2 ⟨e, he, rfl⟩
  obtain ⟨j, hj⟩ := Table.exists_mem_ofList hraw
  obtain ⟨k, hk, hhas⟩ := (has_entries h).2 _ hj
  obtain ⟨l, hl, -, hlsame⟩ := hkey e he
  rw [hl] at hk
  cases hk
  rw [hlsame (hwhole e he).1] at hhas
  obtain ⟨x, hx⟩ := Option.isSome_iff_exists.1 hhas
  have hmem := Table.mem_of_get? hx
  have hget := Table.get?_of_mem ht (hto _ hmem)
  rw [Table.get?_of_mem ht he] at hget
  cases hget
  exact hmem

theorem reread_map (hkey : ∀ e ∈ t, e.1.RereadBy key)
    (hvalue : ∀ e ∈ t, e.2.RereadBy (d.apply value)) :
    ∃ t', d.entries key value (Table.ofList (rawEntries t)) [] = .ok t' ∧
      Table.ofList (rawEntries t') = Table.ofList (rawEntries t) := by
  have hread : ∀ f ∈ Table.ofList (rawEntries t),
      ∃ k x, key.convertKey f.1 = .ok k ∧ d.apply value f.2 = .ok x := by
    intro f hf
    obtain ⟨e, he, htext, hraw⟩ := mem_ofList_rawEntries hf
    obtain ⟨k, hk, -⟩ := hkey e he
    obtain ⟨x, hx, -⟩ := hvalue e he
    exact ⟨k, x, htext ▸ hk, hraw ▸ hx⟩
  obtain ⟨t', ht'⟩ := exists_entries hread []
  exact ⟨t', ht', rawEntries_entries hkey hvalue ht'⟩

theorem Restores.map (hval : d.Restores value) : d.Restores (.map key value) := by
  intro r v hr h hfin
  rcases of_apply_map h with rfl | ⟨es, t, hes, ht, rfl⟩
  · exact restoredBy_null _
  have hparts : ∀ e ∈ t, e.1.RestoredBy key ∧ e.2.RestoredBy (d.apply value) := by
    intro e he
    rcases of_entries ht e he with he' | ⟨f, hf, hfk, hfx⟩
    · cases he'
    · exact ⟨Scalar.restoredBy_of_convertKey hfk, hval f.2 e.2
        ((Payload.sorted_of_entries hr hes).value hf) hfx (allEntries_iff.1 hfin e he).2⟩
  have hkey := fun e he => (hparts e he).1
  have hvalue := fun e he => (hparts e he).2
  obtain ⟨t', ht', hraw⟩ := reread_map (fun e he => (hkey e he).reread)
    fun e he => (hvalue e he).reread
  refine ⟨.map t', ?_, ?_, fun hwhole => ?_⟩
  · rw [Value.toRaw]
    exact apply_map_obj ht'
  · rw [Value.toRaw, Value.toRaw, hraw]
  · rw [entries_eq_of_whole (sorted_entries ht Table.sorted_nil) hkey hvalue
      (allEntries_iff.1 hwhole) ht']

end Mappings

end Domain

end GardenMap
