import GardenMap.Farm.Schemas
import GardenMap.Proofs.Conversion.Caches
import GardenMap.Proofs.Conversion.WellFormed
import Mathlib.Data.List.Induction
import Mathlib.Data.List.Nodup
import Mathlib.Logic.Relation

/-!
# Shapes are built once

A desk builds no shape twice between two resets, whatever is asked of it: the number of builds is
the number of shapes that it keeps, and the number of different shapes built since the last reset. A
shape is kept together with all that it is built from, so it resolves on its own too, and resolving
it again changes nothing (`Desk.built_once`).

Proof. A registry grows by one shape at a time, one that it does not keep yet and whose parts it
keeps (`Registry.Grows`). Resolution grows a registry, also when it fails half-way, and builds no
shape that is in progress: such a shape is refused, so it is still missing when its parts are there
and it is kept itself (`Registry.resolve_grows`). Conversions grow the registry through the members
that they are sent to, and a call is made of resolutions and conversions. Everything that is said
about a kept shape holds of what has grown from the empty registry.
-/

namespace GardenMap

open Relation

namespace Registry

variable {c : Catalog}

/-- Whether there is a converter for a shape. -/
def Keeps (r : Registry) (s : Shape) : Prop := (r.find? s).isSome = true

/-- The second registry is the first one with shapes built, in order, each when its parts were kept
and it was not. -/
inductive Grows (c : Catalog) (r : Registry) : List Shape → Registry → Prop
  | refl : Grows c r [] r
  | keep {r' : Registry} {built : List Shape} {s : Shape} (conv : Converter)
      (h : Grows c r built r') (hnew : ¬r'.Keeps s) (hparts : ∀ p, Shape.Part c p s → r'.Keeps p) :
      Grows c r (built ++ [s]) (r'.keep s conv)

theorem keeps_keep (r : Registry) (s t : Shape) (conv : Converter) :
    (r.keep s conv).Keeps t ↔ r.Keeps t ∨ t = s := by
  unfold Keeps
  rw [find?_keep]
  by_cases h : t = s <;> simp [h]

theorem not_keeps_empty (s : Shape) : ¬empty.Keeps s := fun h => by cases h

namespace Grows

variable {r r' r'' : Registry} {built more : List Shape} {s : Shape}

theorem trans (h : Grows c r built r') (h' : Grows c r' more r'') :
    Grows c r (built ++ more) r'' := by
  induction h' with
  | refl => rw [List.append_nil]; exact h
  | keep conv _ hnew hparts ih =>
    rw [← List.append_assoc]
    exact ih.keep conv hnew hparts

theorem keeps_iff (h : Grows c r built r') (s : Shape) : r'.Keeps s ↔ r.Keeps s ∨ s ∈ built := by
  induction h with
  | refl => simp
  | keep conv _ _ _ ih =>
    rw [keeps_keep, ih, List.mem_append, List.mem_singleton, or_assoc]

theorem mono (h : Grows c r built r') (hs : r.Keeps s) : r'.Keeps s := (h.keeps_iff s).2 (.inl hs)

theorem builds_eq (h : Grows c r built r') : r'.builds = r.builds + built.length := by
  induction h with
  | refl => rfl
  | keep conv _ _ _ ih =>
    rw [List.length_append]
    exact congrArg (· + 1) ih

theorem cached_eq (h : Grows c r built r') : r'.cached = r.cached + built.length := by
  induction h with
  | refl => rfl
  | keep conv _ _ _ ih =>
    rw [List.length_append]
    exact congrArg (· + 1) ih

theorem nodup (h : Grows c r built r') : built.Nodup := by
  induction h with
  | refl => exact List.nodup_nil
  | keep conv h hnew _ ih =>
    rw [List.nodup_append]
    refine ⟨ih, List.nodup_singleton _, fun t ht u hu htu => hnew ?_⟩
    rw [← List.mem_singleton.1 hu, ← htu]
    exact (h.keeps_iff t).2 (.inr ht)

theorem keeps_part (h : Grows c empty built r) (hs : r.Keeps s) {p : Shape}
    (hp : ReflTransGen (Shape.Part c) p s) : r.Keeps p := by
  have hclosed : ∀ s p, r.Keeps s → Shape.Part c p s → r.Keeps p := by
    clear hs hp
    induction h with
    | refl => exact fun s _ hs => absurd hs (not_keeps_empty s)
    | keep conv _ _ hparts ih =>
      intro s p hs hp
      rw [keeps_keep] at hs ⊢
      rcases hs with hs | rfl
      · exact .inl (ih s p hs hp)
      · exact .inl (hparts p hp)
  induction hp using ReflTransGen.head_induction_on with
  | refl => exact hs
  | head hp _ ih => exact hclosed _ _ ih hp

end Grows

/-! ## Resolution -/

/-- The second registry has grown from the first, and no shape of the stack was built. -/
def GrowsBeside (c : Catalog) (stack : List Shape) (r r' : Registry) : Prop :=
  ∃ built, Grows c r built r' ∧ ∀ t ∈ stack, t ∉ built

theorem GrowsBeside.refl (stack : List Shape) (r : Registry) : GrowsBeside c stack r r :=
  ⟨[], .refl, fun _ _ => List.not_mem_nil⟩

theorem GrowsBeside.trans {stack : List Shape} {r r' r'' : Registry}
    (h : GrowsBeside c stack r r') (h' : GrowsBeside c stack r' r'') : GrowsBeside c stack r r'' := by
  obtain ⟨built, hbuilt, hstack⟩ := h
  obtain ⟨more, hmore, hstack'⟩ := h'
  exact ⟨built ++ more, hbuilt.trans hmore, fun t ht hmem =>
    (List.mem_append.1 hmem).elim (hstack t ht) (hstack' t ht)⟩

/-- The registry grows beside the stack, and a shape that is resolved is kept. -/
structure ResolveGrows (c : Catalog) (stack : List Shape) (s : Shape) (r : Registry)
    (out : Except ShapeError Converter × Registry) : Prop where
  grows : GrowsBeside c stack r out.2
  kept : ∀ conv, out.1 = .ok conv → out.2.Keeps s

theorem resolveAll_grows {stack parts : List Shape}
    (ih : ∀ p ∈ parts, ∀ r, ResolveGrows c stack p r (resolve c stack p r)) (r : Registry) :
    GrowsBeside c stack r (resolveAll c stack parts r).2 ∧
      ∀ convs, (resolveAll c stack parts r).1 = .ok convs →
        ∀ p ∈ parts, (resolveAll c stack parts r).2.Keeps p := by
  induction parts generalizing r with
  | nil => exact ⟨.refl stack r, fun _ _ p hp => absurd hp List.not_mem_nil⟩
  | cons p parts ihp =>
    obtain ⟨hgrows, hkept⟩ := ih p (by simp) r
    simp only [resolveAll]
    generalize resolve c stack p r = out at hgrows hkept ⊢
    rcases out with ⟨_ | conv, r₁⟩
    · exact ⟨hgrows, fun convs h => by cases h⟩
    · obtain ⟨hrest, hall⟩ := ihp (fun q hq => ih q (by simp [hq])) r₁
      simp only
      generalize resolveAll c stack parts r₁ = rest at hrest hall ⊢
      rcases rest with ⟨_ | convs, r₂⟩
      · exact ⟨hgrows.trans hrest, fun convs h => by cases h⟩
      · refine ⟨hgrows.trans hrest, fun _ _ q hq => ?_⟩
        rcases List.mem_cons.1 hq with rfl | hq
        · obtain ⟨built, hbuilt, -⟩ := hrest
          exact hbuilt.mono (hkept conv rfl)
        · exact hall convs rfl q hq

/-- Resolution grows a registry, whether it succeeds or fails. -/
theorem resolve_grows (stack : List Shape) (s : Shape) :
    ∀ r, ResolveGrows c stack s r (resolve c stack s r) := by
  induction stack, s using resolve_induction (c := c) with
  | step stack s ih =>
    intro r
    rw [resolve_eq]
    cases hf : r.find? s with
    | some found => exact ⟨.refl stack r, fun _ _ => by rw [Keeps, hf]; rfl⟩
    | none =>
      by_cases hs : s ∈ stack
      · simp only [if_pos hs]
        exact ⟨.refl stack r, fun conv h => by cases h⟩
      simp only [if_neg hs]
      cases hm : s.recipe c with
      | error fault => exact ⟨.refl stack r, fun conv h => by cases h⟩
      | ok made =>
        obtain ⟨⟨built, hbuilt, hstack⟩, hall⟩ := resolveAll_grows (ih hs made hm) r
        simp only
        generalize resolveAll c (s :: stack) made.parts r = all at hbuilt hall ⊢
        have hbeside : ∀ t ∈ stack, t ∉ built := fun t ht => hstack t (List.mem_cons_of_mem s ht)
        rcases all with ⟨_ | convs, r₁⟩
        · exact ⟨⟨built, hbuilt, hbeside⟩, fun conv h => by cases h⟩
        · -- the shape was in progress while its parts were built, so it is still missing
          have hnew : ¬r₁.Keeps s := by
            rw [hbuilt.keeps_iff]
            rintro (hkept | hmem)
            · rw [Keeps, hf] at hkept
              cases hkept
            · exact hstack s List.mem_cons_self hmem
          have hparts : ∀ p, Shape.Part c p s → r₁.Keeps p := by
            rintro p ⟨made', hm', hp⟩
            cases hm.symm.trans hm'
            exact hall convs rfl p hp
          refine ⟨⟨built ++ [s], hbuilt.keep _ hnew hparts, fun t ht hmem => ?_⟩, fun _ _ => ?_⟩
          · rcases List.mem_append.1 hmem with hmem | hmem
            · exact hbeside t ht hmem
            · exact hs (List.mem_singleton.1 hmem ▸ ht)
          · exact (keeps_keep r₁ s s _).2 (.inr rfl)

theorem resolve_of_keeps {r : Registry} {s : Shape} (h : r.Keeps s) (stack : List Shape) :
    (resolve c stack s r).2 = r := by
  obtain ⟨found, hfound⟩ := Option.isSome_iff_exists.1 h
  rw [resolve_eq, hfound]

end Registry

/-! ## Conversions -/

namespace Cache

variable {c : Catalog}

/-- The registry of the second cache has grown from that of the first. -/
def Grown (c : Catalog) (m m' : Cache) : Prop := ∃ built, m.registry.Grows c built m'.registry

theorem Grown.refl (c : Catalog) (m : Cache) : Grown c m m := ⟨[], .refl⟩

theorem Grown.trans {m m' m'' : Cache} (h : Grown c m m') (h' : Grown c m' m'') :
    Grown c m m'' := by
  obtain ⟨built, hbuilt⟩ := h
  obtain ⟨more, hmore⟩ := h'
  exact ⟨built ++ more, hbuilt.trans hmore⟩

theorem grown_resolve (m : Cache) (s : Shape) : Grown c m (m.resolve c s).2 := by
  obtain ⟨built, hbuilt, -⟩ := (Registry.resolve_grows (c := c) [] s m.registry).grows
  exact ⟨built, hbuilt⟩

theorem grown_convert (m : Cache) (conv : Converter) (v : Json) :
    Grown c m (Conversion.convert c (source c) conv v m).2 := by
  have hagree : (source c).Agree c (source c) fun m₁ m₂ => m₁ = m₂ ∧ Grown c m m₁ := by
    refine ⟨fun id f tag m₁ m₂ _ h => ?_, fun id m₁ m₂ h => ?_⟩
    · obtain ⟨rfl, h⟩ := h
      exact ⟨_, _, _, rfl, rfl, rfl, h⟩
    · obtain ⟨rfl, h⟩ := h
      exact ⟨_, _, _, rfl, rfl, rfl, h.trans (grown_resolve m₁ (.record id))⟩
  obtain ⟨x, m₁, m₂, hx, -, -, h⟩ := Conversion.convert_agree hagree conv v m m ⟨rfl, .refl c m⟩
  rw [hx]
  exact h

theorem grown_read (m : Cache) (s : Shape) (v : Json) : Grown c m (m.read c s v).2 := by
  have hresolve := grown_resolve (c := c) m s
  unfold read
  generalize m.resolve c s = out at hresolve ⊢
  rcases out with ⟨_ | conv, m₁⟩
  · exact hresolve
  · exact hresolve.trans (grown_convert m₁ conv v)

end Cache

/-! ## Calls -/

namespace Desk

variable {c : Catalog}

def registry (m : Desk) : Registry := m.cache.registry

theorem grows_answer (m : Desk) {call : Call} (hcall : call ≠ .reset) :
    ∃ built, m.registry.Grows c built (m.answer c call).2.registry := by
  have hroster : ∀ f r, m.registry.Grows c [] (m.setRoster c f r).registry := fun f r => by
    rw [registry, registry, registry_setRoster]
    exact .refl
  cases call with
  | resolve s => exact m.cache.grown_resolve s
  | convert conv v => exact m.cache.grown_convert conv v
  | deserialize s v => exact m.cache.grown_read s v
  | record schema v => exact m.cache.grown_read (.record schema) v
  | reset => exact absurd rfl hcall
  | register f schema => exact ⟨[], hroster f _⟩
  | clear f => exact ⟨[], hroster f _⟩
  | subtype f tag => exact ⟨[], hroster f _⟩
  | members f => exact ⟨[], hroster f _⟩

theorem after_concat (c : Catalog) (calls : List Call) (call : Call) :
    after c (calls ++ [call]) = ((after c calls).answer c call).2 := by
  unfold after
  rw [List.foldl_concat]

/-- The shapes that some calls built since the last reset among them, in order. -/
inductive BuiltSinceReset (c : Catalog) : List Call → List Shape → Prop
  | nothing : BuiltSinceReset c [] []
  | reset {calls : List Call} {built : List Shape} (h : BuiltSinceReset c calls built) :
      BuiltSinceReset c (calls ++ [.reset]) []
  | call {calls : List Call} {call : Call} {built more : List Shape}
      (h : BuiltSinceReset c calls built) (hcall : call ≠ .reset)
      (hmore : (after c calls).registry.Grows c more (after c (calls ++ [call])).registry) :
      BuiltSinceReset c (calls ++ [call]) (built ++ more)

theorem BuiltSinceReset.grows {calls : List Call} {built : List Shape}
    (h : BuiltSinceReset c calls built) :
    Registry.empty.Grows c built (after c calls).registry := by
  induction h with
  | nothing => exact .refl
  | reset =>
    rw [after_concat]
    exact .refl
  | call _ _ hmore ih => exact ih.trans hmore

theorem exists_builtSinceReset (c : Catalog) (calls : List Call) :
    ∃ built, BuiltSinceReset c calls built := by
  induction calls using List.reverseRecOn with
  | nil => exact ⟨[], .nothing⟩
  | append_singleton calls call ih =>
    obtain ⟨built, hbuilt⟩ := ih
    by_cases hcall : call = .reset
    · subst hcall
      exact ⟨[], hbuilt.reset⟩
    · obtain ⟨more, hmore⟩ := grows_answer (c := c) (after c calls) hcall
      rw [← after_concat] at hmore
      exact ⟨built ++ more, hbuilt.call hcall hmore⟩

/-- After any calls, a desk has built as many shapes as it keeps: those built since the last reset,
which are all different. When a shape is resolved, it is kept with all that it is built from. A
shape that is kept resolves at a new desk too, and changes nothing when it is resolved again. -/
theorem built_once (c : Catalog) (calls : List Call) :
    (∃ built, BuiltSinceReset c calls built ∧ built.Nodup ∧
      (after c calls).registry.builds = built.length ∧
      (after c calls).registry.cached = built.length ∧
      ∀ s, (after c calls).registry.Keeps s ↔ s ∈ built) ∧
    (∀ s conv, ((after c calls).answer c (.resolve s)).1 = .converter (.ok conv) →
      ∀ p, ReflTransGen (Shape.Part c) p s →
        ((after c calls).answer c (.resolve s)).2.registry.Keeps p) ∧
    ∀ s, (after c calls).registry.Keeps s →
      (∃ conv, (empty.answer c (.resolve s)).1 = .converter (.ok conv)) ∧
        ((after c calls).answer c (.resolve s)).2 = after c calls := by
  obtain ⟨built, hbuilt⟩ := exists_builtSinceReset c calls
  have hgrows := hbuilt.grows
  refine ⟨⟨built, hbuilt, hgrows.nodup, ?_, ?_, fun s => ?_⟩, fun s conv h p hp => ?_,
    fun s hs => ⟨?_, ?_⟩⟩
  · rw [hgrows.builds_eq]
    exact Nat.zero_add _
  · rw [hgrows.cached_eq]
    exact Nat.zero_add _
  · rw [hgrows.keeps_iff, or_iff_right (Registry.not_keeps_empty s)]
  · obtain ⟨more, hmore⟩ :=
      grows_answer (c := c) (after c calls) (show Call.resolve s ≠ .reset by simp)
    refine (hgrows.trans hmore).keeps_part ?_ hp
    exact (Registry.resolve_grows [] s (after c calls).registry).kept conv (Answer.converter.inj h)
  · obtain ⟨found, hfound⟩ := Option.isSome_iff_exists.1 hs
    have hb := (valid_after c calls).1 s found hfound
    exact ⟨found, congrArg Answer.converter (Catalog.converter_eq_ok.2 hb)⟩
  · exact congrArg (fun r => Desk.mk ⟨r, (after c calls).cache.rosters⟩ (after c calls).spare)
      (Registry.resolve_of_keeps (c := c) hs [])

/-- A desk of the garden that resolved a list before it was reset, and then resolves places: these are
kept with the numbers that they are made of, and are not built again. -/
theorem built_once_places :
    let calls : List Call := [.resolve (.list .int), .reset, .resolve (.record Farm.Id.coordinate)]
    let desk := after Farm.schemas calls
    desk.registry.builds = desk.registry.cached ∧
      desk.registry.Keeps (.record Farm.Id.coordinate) ∧ desk.registry.Keeps .int ∧
      (∃ conv, (empty.answer Farm.schemas (.resolve .int)).1 = .converter (.ok conv)) ∧
      (desk.answer Farm.schemas (.resolve (.record Farm.Id.coordinate))).2 = desk := by
  intro calls desk
  have hint : ∀ g ∈ Farm.schemas.allFields Farm.Id.coordinate, g.shape = .int := by decide
  have hwell : (Shape.record Farm.Id.coordinate).WellFormed Farm.schemas :=
    .record fun g hg => hint g hg ▸ .single rfl
  obtain ⟨conv, hb⟩ := exists_builds_iff.2 hwell
  have hresolve : ((after Farm.schemas [.resolve (.list .int), .reset]).answer Farm.schemas
      (.resolve (.record Farm.Id.coordinate))).1 = .converter (.ok conv) := by
    rw [((valid_after Farm.schemas _).answer (.resolve _)).1]
    exact congrArg Answer.converter (Catalog.converter_eq_ok.2 hb)
  have hkept : ∀ p, ReflTransGen (Shape.Part Farm.schemas) p (.record Farm.Id.coordinate) →
      desk.registry.Keeps p := by
    obtain ⟨-, hkept, -⟩ := built_once Farm.schemas [.resolve (.list .int), .reset]
    exact hkept _ conv hresolve
  obtain ⟨⟨built, -, -, hbuilds, hcached, -⟩, -, hagain⟩ := built_once Farm.schemas calls
  have hplace := hkept _ .refl
  have hnumber := hkept .int (.single ⟨_, rfl, by decide⟩)
  exact ⟨hbuilds.trans hcached.symm, hplace, hnumber, (hagain .int hnumber).1,
    (hagain _ hplace).2⟩

end Desk

end GardenMap
