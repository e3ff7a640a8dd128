import GardenMap.Conversion.Registry

/-!
# How converters are put together

A recipe lists the parts of a shape, in the order in which they are resolved, and says how their
converters make up its own. With recipes the registry has one rule for all shapes (`resolve_eq`):
look the shape up, refuse it if it is on the stack, resolve its parts, put the converter together
and keep it. `resolve_induction` is the induction that goes with this rule.
-/

namespace GardenMap

/-- What a shape is built from. -/
structure Recipe where
  /-- The parts, in the order they are resolved. -/
  parts : List Shape
  /-- The converter made up from those of the parts. -/
  assemble : List Converter → Converter

def Recipe.around (part : Shape) (f : Converter → Converter) : Recipe :=
  ⟨[part], fun convs => f (convs.headD .absent)⟩

/-- The recipe of a shape, unless its form is refused. -/
def Shape.recipe (c : Catalog) : Shape → Except ShapeFault Recipe
  | .any => .ok ⟨[], fun _ => .scalar .any⟩
  | .null => .error .bareNull
  | .bool => .ok ⟨[], fun _ => .scalar .bool⟩
  | .int => .ok ⟨[], fun _ => .scalar .int⟩
  | .float => .ok ⟨[], fun _ => .scalar .float⟩
  | .str => .ok ⟨[], fun _ => .scalar .str⟩
  | .date => .ok ⟨[], fun _ => .scalar .date⟩
  | .datetime => .ok ⟨[], fun _ => .scalar .datetime⟩
  | .optional inner => .ok (.around inner .nullable)
  | .list item => .ok (.around item .list)
  | .map key value =>
    match key.key? with
    | none => .error (.badKey key)
    | some kind => .ok ⟨[key, value], fun convs => .map kind (convs.getLastD .absent)⟩
  | .union members =>
    match concrete members with
    | [] => .ok ⟨[], fun _ => .absent⟩
    | [only] => .ok (.around only (if hasNull members then .nullable else id))
    | _ => .error .manyMembers
  | .record schema =>
    .ok ⟨(c.allFields schema).map (·.shape),
      fun convs => .record schema (((c.allFields schema).map (·.name)).zip convs)⟩

namespace Registry

open Shape

/-- The converters of shapes, in order, up to the first that has none. -/
def resolveAll (c : Catalog) (stack : List Shape) :
    List Shape → Registry → Except ShapeError (List Converter) × Registry
  | [], r => (.ok [], r)
  | s :: ss, r =>
    match resolve c stack s r with
    | (.error e, r) => (.error e, r)
    | (.ok conv, r) =>
      match resolveAll c stack ss r with
      | (.error e, r) => (.error e, r)
      | (.ok convs, r) => (.ok (conv :: convs), r)

theorem resolveFields_eq (c : Catalog) (stack : List Shape) (fields : List Field) (r : Registry) :
    resolveFields c stack fields r =
      ((resolveAll c stack (fields.map (·.shape)) r).1.map (fields.map (·.name)).zip,
        (resolveAll c stack (fields.map (·.shape)) r).2) := by
  induction fields generalizing r with
  | nil => rw [resolveFields]; rfl
  | cons f fs ih =>
    rw [resolveFields]
    simp only [List.map_cons, resolveAll]
    rcases resolve c stack f.shape r with ⟨_ | conv, r₁⟩
    · rfl
    · simp only [ih r₁]
      generalize resolveAll c stack (fs.map (·.shape)) r₁ = rest
      rcases rest with ⟨_ | convs, r₂⟩ <;> rfl

theorem resolve_union (c : Catalog) (stack : List Shape) (members : List Shape) (r : Registry)
    (hr : r.find? (.union members) = none) (hs : .union members ∉ stack) :
    resolve c stack (.union members) r =
      match concrete members with
      | [] => wrap (.union members) id (.ok .absent, r)
      | [only] =>
        wrap (.union members) (if hasNull members then .nullable else id)
          (resolve c (.union members :: stack) only r)
      | _ => r.refuse (.union members) .manyMembers := by
  rw [resolve, hr]
  simp only [dif_neg hs]
  split <;> rename_i hm <;> simp only [hm]

/-- One rule for all shapes. -/
theorem resolve_eq (c : Catalog) (stack : List Shape) (s : Shape) (r : Registry) :
    resolve c stack s r =
      match r.find? s with
      | some found => (.ok found, r)
      | none =>
        if s ∈ stack then r.refuse s .selfContaining
        else
          match s.recipe c with
          | .error fault => r.refuse s fault
          | .ok made =>
            match resolveAll c (s :: stack) made.parts r with
            | (.error e, r) => (.error e, r)
            | (.ok convs, r) => (.ok (made.assemble convs), r.keep s (made.assemble convs)) := by
  cases hf : r.find? s with
  | some found => rw [resolve, hf]
  | none =>
    by_cases h : s ∈ stack
    · rw [resolve, hf]
      simp only [dif_pos h, if_pos h]
    simp only [if_neg h]
    cases s with
    | any | bool | int | float | str | date | datetime | null =>
      rw [resolve, hf]
      simp only [dif_neg h]
      rfl
    | optional inner =>
      rw [resolve, hf]
      simp only [dif_neg h, recipe, Recipe.around, resolveAll]
      rcases resolve c (.optional inner :: stack) inner r with ⟨_ | conv, r₁⟩ <;> rfl
    | list item =>
      rw [resolve, hf]
      simp only [dif_neg h, recipe, Recipe.around, resolveAll]
      rcases resolve c (.list item :: stack) item r with ⟨_ | conv, r₁⟩ <;> rfl
    | map key value =>
      rw [resolve, hf]
      simp only [dif_neg h, recipe]
      cases key.key? with
      | none => rfl
      | some kind =>
        simp only [resolveAll]
        rcases resolve c (.map key value :: stack) key r with ⟨_ | keyConv, r₁⟩
        · rfl
        · simp only
          rcases resolve c (.map key value :: stack) value r₁ with ⟨_ | conv, r₂⟩ <;> rfl
    | union members =>
      rw [resolve_union c stack members r hf h]
      rcases hm : concrete members with _ | ⟨only, _ | ⟨second, rest⟩⟩
      · simp only [recipe, hm]
        rfl
      · simp only [recipe, hm, Recipe.around, resolveAll]
        rcases resolve c (.union members :: stack) only r with ⟨_ | conv, r₁⟩ <;> rfl
      · simp only [recipe, hm]
    | record schema =>
      rw [resolve, hf]
      simp only [dif_neg h, recipe]
      split
      · next hs =>
        rw [Catalog.allFields_of_find?_eq_none hs]
        rfl
      · rw [resolveFields_eq]
        generalize resolveAll c (.record schema :: stack) _ r = all
        rcases all with ⟨_ | convs, r₁⟩ <;> rfl

/-! ## Induction -/

theorem part_lt {c : Catalog} {stack : List Shape} {s p : Shape} {made : Recipe}
    (hs : s ∉ stack) (hr : s.recipe c = .ok made) (hp : p ∈ made.parts) :
    Prod.Lex (· < ·) (· < ·) (unvisited c (s :: stack), sizeOf p)
      (unvisited c stack, sizeOf s) := by
  have hle := unvisited_cons_le c s stack
  have hstep : unvisited c (s :: stack) < unvisited c stack ∨ sizeOf p < sizeOf s := by
    cases s with
    | any | bool | int | float | str | date | datetime =>
      cases hr
      cases hp
    | null => cases hr
    | optional inner =>
      cases hr
      simp only [Recipe.around, List.mem_singleton] at hp
      subst hp
      exact .inr (by simp)
    | list item =>
      cases hr
      simp only [Recipe.around, List.mem_singleton] at hp
      subst hp
      exact .inr (by simp)
    | map key value =>
      simp only [recipe] at hr
      split at hr
      · cases hr
      · cases hr
        simp only [List.mem_cons, List.not_mem_nil, or_false] at hp
        rcases hp with rfl | rfl <;> exact .inr (by simp; try omega)
    | union members =>
      simp only [recipe] at hr
      split at hr
      · cases hr
        cases hp
      · next only hm =>
        cases hr
        simp only [Recipe.around, List.mem_singleton] at hp
        subst hp
        exact .inr (sizeOf_lt_of_concrete hm)
      · cases hr
    | record schema =>
      cases hr
      cases hf : c.find? schema with
      | none => simp [Catalog.allFields_of_find?_eq_none hf] at hp
      | some declared => exact .inl (unvisited_cons_lt hf hs)
  rw [Prod.lex_def]
  simp only
  omega

/-- To show something of every resolution, show it of a shape that is not on the stack when it holds
of its parts, on the stack with the shape. -/
theorem resolve_induction {c : Catalog} {motive : List Shape → Shape → Prop}
    (step : ∀ stack s, (s ∉ stack → ∀ made, s.recipe c = .ok made →
      ∀ p ∈ made.parts, motive (s :: stack) p) → motive stack s)
    (stack : List Shape) (s : Shape) : motive stack s :=
  step stack s fun _ _ _ p _ => resolve_induction step (s :: stack) p
termination_by (unvisited c stack, sizeOf s)
decreasing_by exact part_lt (by assumption) (by assumption) (by assumption)

end Registry

end GardenMap
