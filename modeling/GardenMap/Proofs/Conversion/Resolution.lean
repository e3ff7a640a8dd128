import GardenMap.Proofs.Conversion.Recipe

/-!
# Resolution

What a registry answers, and that what it already keeps does not show.

`Builds c s conv` says, without a registry, that the recipe of `s` makes `conv` out of the
converters of its parts. A registry is sound when everything it keeps is built in this sense.

Proof.  Resolving keeps a registry sound and answers with what is built (`resolve_sound`). The other
way round, a shape that can be built has no infinite descent into its parts, so it is never met
again while it is being resolved, and the stack does not stop it (`resolve_of_builds`). Two sound
registries thus give the same answer, refusals included: where one of them keeps the shape, the
other builds it, and otherwise both follow the same recipe (`resolve_congr`).
-/

namespace GardenMap

/-- The recipe of the shape makes the converter out of the converters of the parts. -/
inductive Builds (c : Catalog) : Shape → Converter → Prop
  | intro {s : Shape} {made : Recipe} {convs : List Converter} (hr : s.recipe c = .ok made)
      (hlen : convs.length = made.parts.length)
      (hp : ∀ x ∈ made.parts.zip convs, Builds c x.1 x.2) : Builds c s (made.assemble convs)

/-- Every converter kept is built. -/
def Registry.Sound (c : Catalog) (r : Registry) : Prop :=
  ∀ s conv, r.find? s = some conv → Builds c s conv

/-- The first shape is a part of the second. -/
def Shape.Part (c : Catalog) (p s : Shape) : Prop := ∃ made, s.recipe c = .ok made ∧ p ∈ made.parts

/-! ## What is built -/

theorem eq_of_zip {parts : List Shape} {convs convs' : List Converter}
    {R : Shape → Converter → Prop}
    (hlen : convs.length = parts.length) (hlen' : convs'.length = parts.length)
    (h : ∀ x ∈ parts.zip convs, ∀ conv', R x.1 conv' → x.2 = conv')
    (h' : ∀ x ∈ parts.zip convs', R x.1 x.2) : convs = convs' := by
  induction parts generalizing convs convs' with
  | nil => rw [List.length_eq_zero_iff.1 hlen, List.length_eq_zero_iff.1 hlen']
  | cons p parts ih =>
    obtain ⟨conv, convs, rfl⟩ := List.exists_cons_of_length_eq_add_one hlen
    obtain ⟨conv', convs', rfl⟩ := List.exists_cons_of_length_eq_add_one hlen'
    simp only [List.zip_cons_cons, List.forall_mem_cons] at h h'
    rw [h.1 conv' h'.1, ih (by simpa using hlen) (by simpa using hlen') h.2 h'.2]

theorem Builds.det {c : Catalog} {s : Shape} {conv conv' : Converter} (h : Builds c s conv)
    (h' : Builds c s conv') : conv = conv' := by
  induction h generalizing conv' with
  | intro hr hlen _ ih =>
    obtain ⟨hr', hlen', hp'⟩ := h'
    cases hr.symm.trans hr'
    rw [eq_of_zip hlen hlen' (fun x hx _ h => ih x hx h) hp']

theorem exists_zip {parts : List Shape} {convs : List Converter} {p : Shape}
    (hlen : convs.length = parts.length) (hp : p ∈ parts) :
    ∃ conv, (p, conv) ∈ parts.zip convs := by
  rw [← List.map_fst_zip (Nat.le_of_eq hlen.symm)] at hp
  obtain ⟨⟨_, conv⟩, hx, rfl⟩ := List.mem_map.1 hp
  exact ⟨conv, hx⟩

theorem exists_zip_snd {parts : List Shape} {convs : List Converter} {conv : Converter}
    (hlen : convs.length = parts.length) (hconv : conv ∈ convs) :
    ∃ p, (p, conv) ∈ parts.zip convs := by
  rw [← List.map_snd_zip (Nat.le_of_eq hlen)] at hconv
  obtain ⟨⟨p, _⟩, hx, rfl⟩ := List.mem_map.1 hconv
  exact ⟨p, hx⟩

theorem Builds.acc {c : Catalog} {s : Shape} {conv : Converter} (h : Builds c s conv) :
    Acc (Shape.Part c) s := by
  induction h with
  | intro hr hlen _ ih =>
    refine ⟨_, fun p hp => ?_⟩
    obtain ⟨made, hr', hp⟩ := hp
    cases hr.symm.trans hr'
    obtain ⟨conv, hx⟩ := exists_zip hlen hp
    exact ih _ hx

theorem not_transGen_self_of_acc {α : Type} {r : α → α → Prop} {a : α} (h : Acc r a) :
    ¬ Relation.TransGen r a a := by
  have hacc := h.transGen
  clear h
  induction hacc with
  | intro a _ ih => exact fun ha => ih a ha ha

theorem Builds.not_transGen_self {c : Catalog} {s : Shape} {conv : Converter}
    (h : Builds c s conv) : ¬ Relation.TransGen (Shape.Part c) s s :=
  not_transGen_self_of_acc h.acc

namespace Registry

open Shape

/-! ## Soundness -/

theorem sound_empty (c : Catalog) : Sound c .empty := fun _ _ h => by cases h

theorem find?_keep (r : Registry) (s t : Shape) (conv : Converter) :
    (r.keep s conv).find? t = if t = s then some conv else r.find? t := by
  unfold keep find?
  rw [List.lookup_cons]
  by_cases h : t = s
  · simp [h]
  · simp [h, beq_eq_false_iff_ne.2 h]

theorem Sound.keep {c : Catalog} {r : Registry} {s : Shape} {conv : Converter} (h : Sound c r)
    (hb : Builds c s conv) : Sound c (r.keep s conv) := by
  intro t conv' ht
  rw [find?_keep] at ht
  split at ht
  · next heq =>
    cases ht
    exact heq ▸ hb
  · exact h t conv' ht

/-- The answer is built, and the registry stays sound. -/
def Resolves (c : Catalog) (s : Shape) (out : Except ShapeError Converter × Registry) : Prop :=
  Sound c out.2 ∧ ∀ conv, out.1 = .ok conv → Builds c s conv

theorem resolveAll_sound {c : Catalog} {stack : List Shape} {parts : List Shape}
    (ih : ∀ p ∈ parts, ∀ r, Sound c r → Resolves c p (resolve c stack p r)) (r : Registry)
    (hr : Sound c r) :
    Sound c (resolveAll c stack parts r).2 ∧
      ∀ convs, (resolveAll c stack parts r).1 = .ok convs →
        convs.length = parts.length ∧ ∀ x ∈ parts.zip convs, Builds c x.1 x.2 := by
  induction parts generalizing r with
  | nil =>
    refine ⟨hr, fun convs h => ?_⟩
    cases h
    exact ⟨rfl, fun x hx => by cases hx⟩
  | cons p parts ihp =>
    obtain ⟨hr₁, hp⟩ := ih p (by simp) r hr
    simp only [resolveAll]
    generalize resolve c stack p r = out at hr₁ hp ⊢
    rcases out with ⟨_ | conv, r₁⟩
    · exact ⟨hr₁, fun convs h => by cases h⟩
    · obtain ⟨hr₂, hps⟩ := ihp (fun q hq => ih q (by simp [hq])) r₁ hr₁
      simp only
      generalize resolveAll c stack parts r₁ = rest at hr₂ hps ⊢
      rcases rest with ⟨_ | convs, r₂⟩
      · exact ⟨hr₂, fun convs h => by cases h⟩
      · refine ⟨hr₂, fun convs' h => ?_⟩
        cases h
        obtain ⟨hlen, hzip⟩ := hps convs rfl
        refine ⟨by simp [hlen], fun x hx => ?_⟩
        rcases List.mem_cons.1 hx with rfl | hx
        · exact hp conv rfl
        · exact hzip x hx

/-- Resolving keeps a registry sound and answers with what is built. -/
theorem resolve_sound {c : Catalog} (stack : List Shape) (s : Shape) :
    ∀ r, Sound c r → Resolves c s (resolve c stack s r) := by
  induction stack, s using resolve_induction (c := c) with
  | step stack s ih =>
    intro r hr
    rw [resolve_eq]
    cases hf : r.find? s with
    | some found =>
      refine ⟨hr, fun conv h => ?_⟩
      cases h
      exact hr s _ hf
    | none =>
      by_cases hs : s ∈ stack
      · simp only [if_pos hs]
        exact ⟨hr, fun conv h => by cases h⟩
      simp only [if_neg hs]
      cases hm : s.recipe c with
      | error fault => exact ⟨hr, fun conv h => by cases h⟩
      | ok made =>
        obtain ⟨hr₁, hall⟩ := resolveAll_sound (ih hs made hm) r hr
        simp only
        generalize resolveAll c (s :: stack) made.parts r = all at hr₁ hall ⊢
        rcases all with ⟨_ | convs, r₁⟩
        · exact ⟨hr₁, fun conv h => by cases h⟩
        · obtain ⟨hlen, hzip⟩ := hall convs rfl
          have hb : Builds c s (made.assemble convs) := .intro hm hlen hzip
          refine ⟨hr₁.keep hb, fun conv h => ?_⟩
          cases h
          exact hb

/-! ## What can be built is resolved -/

/-- Everything on the stack has the shape as a part, however deep. -/
def Above (c : Catalog) (stack : List Shape) (s : Shape) : Prop :=
  ∀ t ∈ stack, Relation.TransGen (Part c) s t

theorem Above.part {c : Catalog} {stack : List Shape} {s p : Shape} (h : Above c stack s)
    (hp : Part c p s) : Above c (s :: stack) p := by
  intro t ht
  rcases List.mem_cons.1 ht with rfl | ht
  · exact .single hp
  · exact .trans (.single hp) (h t ht)

theorem Above.not_mem {c : Catalog} {stack : List Shape} {s : Shape} {conv : Converter}
    (h : Above c stack s) (hb : Builds c s conv) : s ∉ stack :=
  fun hs => hb.not_transGen_self (h s hs)

theorem resolveAll_of_builds {c : Catalog} {stack : List Shape} {parts : List Shape}
    {convs : List Converter}
    (ih : ∀ p ∈ parts, ∀ r conv, Sound c r → Builds c p conv → (resolve c stack p r).1 = .ok conv)
    (hlen : convs.length = parts.length) (hzip : ∀ x ∈ parts.zip convs, Builds c x.1 x.2)
    (r : Registry) (hr : Sound c r) : (resolveAll c stack parts r).1 = .ok convs := by
  induction parts generalizing r convs with
  | nil =>
    rw [List.length_eq_zero_iff.1 hlen]
    rfl
  | cons p parts ihp =>
    obtain ⟨conv, convs, rfl⟩ := List.exists_cons_of_length_eq_add_one hlen
    simp only [List.zip_cons_cons, List.forall_mem_cons] at hzip
    have hp := ih p (by simp) r conv hr hzip.1
    have hr₁ := (resolve_sound stack p r hr).1
    simp only [resolveAll]
    generalize resolve c stack p r = out at hp hr₁ ⊢
    obtain ⟨answer, r₁⟩ := out
    cases hp
    have hps := ihp (fun q hq => ih q (by simp [hq])) (by simpa using hlen) hzip.2 r₁ hr₁
    simp only
    generalize resolveAll c stack parts r₁ = rest at hps ⊢
    obtain ⟨answers, r₂⟩ := rest
    cases hps
    rfl

/-- A shape that can be built is resolved to what it is built to. -/
theorem resolve_of_builds {c : Catalog} (stack : List Shape) (s : Shape) :
    ∀ r conv, Above c stack s → Sound c r → Builds c s conv →
      (resolve c stack s r).1 = .ok conv := by
  induction stack, s using resolve_induction (c := c) with
  | step stack s ih =>
    intro r conv habove hr hb
    rw [resolve_eq]
    cases hf : r.find? s with
    | some found =>
      rw [(hr s found hf).det hb]
    | none =>
      have hs := habove.not_mem hb
      simp only [if_neg hs]
      obtain ⟨hm, hlen, hzip⟩ := hb
      rename_i made convs
      have hall : (resolveAll c (s :: stack) made.parts r).1 = .ok convs :=
        resolveAll_of_builds
          (fun p hp r conv => ih hs made hm p hp r conv (habove.part ⟨made, hm, hp⟩)) hlen hzip r hr
      simp only [hm]
      generalize resolveAll c (s :: stack) made.parts r = all at hall ⊢
      obtain ⟨answers, r₁⟩ := all
      cases hall
      rfl

/-! ## Sound registries agree -/

theorem resolveAll_congr {c : Catalog} {stack : List Shape} {parts : List Shape}
    (ih : ∀ p ∈ parts, ∀ r r', Sound c r → Sound c r' →
      (resolve c stack p r).1 = (resolve c stack p r').1)
    (r r' : Registry) (hr : Sound c r) (hr' : Sound c r') :
    (resolveAll c stack parts r).1 = (resolveAll c stack parts r').1 := by
  induction parts generalizing r r' with
  | nil => rfl
  | cons p parts ihp =>
    have hp := ih p (by simp) r r' hr hr'
    have hr₁ := (resolve_sound stack p r hr).1
    have hr₁' := (resolve_sound stack p r' hr').1
    simp only [resolveAll]
    generalize resolve c stack p r = out at hp hr₁ ⊢
    generalize resolve c stack p r' = out' at hp hr₁' ⊢
    obtain ⟨answer, r₁⟩ := out
    obtain ⟨answer', r₁'⟩ := out'
    cases hp
    cases answer with
    | error e => rfl
    | ok conv =>
      have hps := ihp (fun q hq => ih q (by simp [hq])) r₁ r₁' hr₁ hr₁'
      simp only
      generalize resolveAll c stack parts r₁ = rest at hps ⊢
      generalize resolveAll c stack parts r₁' = rest' at hps ⊢
      obtain ⟨answers, r₂⟩ := rest
      obtain ⟨answers', r₂'⟩ := rest'
      cases hps
      cases answers <;> rfl

theorem resolve_eq_of_find? {c : Catalog} {stack : List Shape} {s : Shape} {r r' : Registry}
    {found : Converter} (hf : r.find? s = some found) (habove : Above c stack s) (hr : Sound c r)
    (hr' : Sound c r') : (resolve c stack s r).1 = (resolve c stack s r').1 := by
  rw [resolve_of_builds stack s r' found habove hr' (hr s found hf), resolve_eq, hf]

/-- Sound registries give the same answers. -/
theorem resolve_congr {c : Catalog} (stack : List Shape) (s : Shape) :
    ∀ r r', Above c stack s → Sound c r → Sound c r' →
      (resolve c stack s r).1 = (resolve c stack s r').1 := by
  induction stack, s using resolve_induction (c := c) with
  | step stack s ih =>
    intro r r' habove hr hr'
    cases hf : r.find? s with
    | some found => exact resolve_eq_of_find? hf habove hr hr'
    | none =>
      cases hf' : r'.find? s with
      | some found => exact (resolve_eq_of_find? hf' habove hr' hr).symm
      | none =>
        rw [resolve_eq, resolve_eq, hf, hf']
        by_cases hs : s ∈ stack
        · simp only [if_pos hs]
          rfl
        simp only [if_neg hs]
        cases hm : s.recipe c with
        | error fault => rfl
        | ok made =>
          have hall : (resolveAll c (s :: stack) made.parts r).1 =
              (resolveAll c (s :: stack) made.parts r').1 :=
            resolveAll_congr
              (fun p hp r r' => ih hs made hm p hp r r' (habove.part ⟨made, hm, hp⟩)) r r' hr hr'
          simp only
          generalize resolveAll c (s :: stack) made.parts r = all at hall ⊢
          generalize resolveAll c (s :: stack) made.parts r' = all' at hall ⊢
          obtain ⟨answers, r₁⟩ := all
          obtain ⟨answers', r₁'⟩ := all'
          cases hall
          cases answers <;> rfl

theorem resolve_fst {c : Catalog} {r : Registry} (hr : Sound c r) (s : Shape) :
    (resolve c [] s r).1 = c.converter s :=
  resolve_congr [] s r .empty (fun _ ht => by cases ht) hr (sound_empty c)

end Registry

theorem Catalog.converter_eq_ok {c : Catalog} {s : Shape} {conv : Converter} :
    c.converter s = .ok conv ↔ Builds c s conv := by
  constructor
  · exact (Registry.resolve_sound [] s .empty (Registry.sound_empty c)).2 conv
  · exact Registry.resolve_of_builds [] s .empty conv (fun _ ht => by cases ht)
      (Registry.sound_empty c)

end GardenMap
