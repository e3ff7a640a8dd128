import GardenMap.Proofs.Conversion.Agreement

/-!
# Caches do not show

A desk is all that a program keeps between calls: the cache, whose rosters are those of the families
of the catalog, and the rosters of other families. Calls resolve, convert, build records, reset,
register, clear, look a tag up or list members, in any order.

Whatever the calls so far, the next one is answered as by a desk that has converted nothing and
knows no index, with the registrations in force (`answer_after`).

Proof. The registrations in force are those of the ledger, which follows the calls and keeps nothing
else. The invariant is `Desk.Valid`: the registry is sound, and every roster has the registrations
of the ledger and no index but theirs. A call keeps it, and from a valid desk the answer is one that
the ledger alone determines (`Desk.Valid.answer`).
-/

namespace GardenMap

/-- What is asked of a desk. -/
inductive Call where
  | resolve (shape : Shape)
  /-- Convert along a converter that was resolved before. -/
  | convert (conv : Converter) (payload : Json)
  | deserialize (shape : Shape) (payload : Json)
  | record (schema : SchemaId) (payload : Json)
  | reset
  | register (f : Family) (schema : SchemaId)
  | clear (f : Family)
  | subtype (f : Family) (tag : Option String)
  | members (f : Family)

/-- What a desk answers. -/
inductive Answer where
  | done
  | converter (found : Except ShapeError Converter)
  | converted (result : Except ConvertError Value)
  | value (result : Except Error Value)
  | record (result : Except Error Record)
  | member (schema : SchemaId)
  | members (schemas : List SchemaId)

/-! ## Desks -/

/-- The cache, and the rosters of families that the catalog does not know. -/
structure Desk where
  cache : Cache
  spare : Family → Roster

namespace Desk

def empty : Desk := ⟨.empty, fun _ => .empty⟩

def roster (c : Catalog) (m : Desk) (f : Family) : Roster :=
  if c.rootedFamily? f.base = some f then m.cache.rosters f.base else m.spare f

def setRoster (c : Catalog) (m : Desk) (f : Family) (r : Roster) : Desk :=
  if c.rootedFamily? f.base = some f then { m with cache := m.cache.setRoster f.base r }
  else { m with spare := fun g => if g = f then r else m.spare g }

/-- The answer to a call, and the desk after it. -/
def answer (c : Catalog) (m : Desk) : Call → Answer × Desk
  | .resolve shape =>
    let (found, cache) := m.cache.resolve c shape
    (.converter found, { m with cache := cache })
  | .convert conv v =>
    let (result, cache) := Conversion.convert c (Cache.source c) conv v m.cache
    (.converted result, { m with cache := cache })
  | .deserialize shape v =>
    let (result, cache) := m.cache.read c shape v
    (.value result, { m with cache := cache })
  | .record schema v =>
    let (result, cache) := m.cache.record c schema v
    (.record result, { m with cache := cache })
  | .reset => (.done, { m with cache := m.cache.reset })
  | .register f schema => (.done, m.setRoster c f ((m.roster c f).register schema))
  | .clear f => (.done, m.setRoster c f .empty)
  | .subtype f tag =>
    let (id, r) := (m.roster c f).resolve c f tag
    (.member id, m.setRoster c f r)
  | .members f =>
    let (ids, r) := (m.roster c f).members c f
    (.members ids, m.setRoster c f r)

def after (c : Catalog) (calls : List Call) : Desk :=
  calls.foldl (fun m call => (m.answer c call).2) empty

end Desk

/-! ## Ledgers -/

abbrev Ledger := Family → List SchemaId

namespace Ledger

def next (l : Ledger) : Call → Ledger
  | .register f schema => fun g => if g = f then Roster.enlist (l f) schema else l g
  | .clear f => fun g => if g = f then [] else l g
  | _ => l

/-- The registrations in force after some calls. -/
def after (calls : List Call) : Ledger := calls.foldl next fun _ => []

/-- The registrations in the family of a base. -/
def ofBase (c : Catalog) (l : Ledger) (base : SchemaId) : List SchemaId :=
  ((c.rootedFamily? base).map l).getD []

def domain (c : Catalog) (l : Ledger) : Domain := ⟨c, l.ofBase c⟩

/-- A desk with these registrations that has converted nothing and knows no index. -/
def fresh (c : Catalog) (l : Ledger) : Desk :=
  ⟨⟨.empty, fun base => ⟨l.ofBase c base, none⟩⟩, fun f => ⟨l f, none⟩⟩

/-- The answer that the registrations determine. -/
def answer (c : Catalog) (l : Ledger) : Call → Answer
  | .resolve shape => .converter (c.converter shape)
  | .convert conv v => .converted ((l.domain c).apply conv v)
  | .deserialize shape v => .value ((l.domain c).read shape v)
  | .record schema v => .record ((l.domain c).record schema v)
  | .reset | .register _ _ | .clear _ => .done
  | .subtype f tag => .member (f.select (f.indexOf c (l f)) tag)
  | .members f => .members ((f.indexOf c (l f)).map (·.2))

end Ledger

/-! ## The invariant -/

namespace Desk

/-- The registry is sound, and every roster knows its registrations in the ledger. -/
def Valid (c : Catalog) (l : Ledger) (m : Desk) : Prop :=
  m.cache.registry.Sound c ∧ ∀ f, (m.roster c f).Knows c f (l f)

variable {c : Catalog} {l : Ledger} {m : Desk}

theorem roster_setRoster (c : Catalog) (m : Desk) (f g : Family) (r : Roster) :
    (m.setRoster c f r).roster c g = if g = f then r else m.roster c g := by
  unfold setRoster roster
  by_cases hf : c.rootedFamily? f.base = some f <;> by_cases hgf : g = f
  · subst hgf
    simp [hf, Cache.setRoster]
  · rw [if_pos hf, if_neg hgf]
    by_cases hg : c.rootedFamily? g.base = some g
    · have hne : g.base ≠ f.base := by
        intro heq
        rw [heq, hf] at hg
        exact hgf (Option.some.inj hg).symm
      simp [hg, Cache.setRoster, hne]
    · simp [hg]
  · subst hgf
    simp [hf]
  · simp [hf, hgf]

theorem registry_setRoster (c : Catalog) (m : Desk) (f : Family) (r : Roster) :
    (m.setRoster c f r).cache.registry = m.cache.registry := by
  unfold setRoster
  split <;> rfl

theorem Valid.setRoster (h : m.Valid c l) {l' : Ledger} (f : Family) {r : Roster}
    (hf : r.Knows c f (l' f)) (hl : ∀ g, g ≠ f → l' g = l g) : (m.setRoster c f r).Valid c l' := by
  refine ⟨by rw [registry_setRoster]; exact h.1, fun g => ?_⟩
  rw [roster_setRoster]
  by_cases hgf : g = f
  · subst hgf
    rw [if_pos rfl]
    exact hf
  · rw [if_neg hgf, hl g hgf]
    exact h.2 g

theorem Valid.holds (h : m.Valid c l) : m.cache.Holds c (l.ofBase c) := by
  refine ⟨h.1, fun base f hf => ?_⟩
  have hbase := Cache.base_of_rootedFamily? hf
  subst hbase
  have hr := h.2 f
  rw [roster, if_pos hf] at hr
  rw [Ledger.ofBase, hf]
  exact hr

theorem Valid.setCache (h : m.Valid c l) {cache : Cache} (hc : cache.Holds c (l.ofBase c)) :
    Valid c l { m with cache := cache } := by
  refine ⟨hc.1, fun f => ?_⟩
  have hr := h.2 f
  unfold roster at hr ⊢
  by_cases hf : c.rootedFamily? f.base = some f
  · have hk := hc.2 f.base f hf
    rw [Ledger.ofBase, hf] at hk
    rw [if_pos hf]
    exact hk
  · rw [if_neg hf] at hr ⊢
    exact hr

theorem valid_fresh (c : Catalog) (l : Ledger) : (l.fresh c).Valid c l := by
  refine ⟨Registry.sound_empty c, fun f => ?_⟩
  unfold roster Ledger.fresh
  by_cases hf : c.rootedFamily? f.base = some f
  · rw [if_pos hf]
    simp only [Ledger.ofBase, hf, Option.map_some, Option.getD_some]
    exact Roster.knows_unindexed c f (l f)
  · rw [if_neg hf]
    exact Roster.knows_unindexed c f (l f)

theorem valid_empty (c : Catalog) : empty.Valid c fun _ => [] := by
  refine ⟨Registry.sound_empty c, fun f => ?_⟩
  unfold roster
  split <;> exact Roster.knows_unindexed c f []

/-! ## Calls -/

/-- From a valid desk the ledger determines the answer, and the desk stays valid. -/
theorem Valid.answer (h : m.Valid c l) (call : Call) :
    (m.answer c call).1 = l.answer c call ∧ (m.answer c call).2.Valid c (l.next call) := by
  cases call with
  | resolve shape =>
    obtain ⟨hx, hc⟩ := h.holds.resolve shape
    exact ⟨congrArg Answer.converter hx, h.setCache hc⟩
  | convert conv v =>
    obtain ⟨hx, hc⟩ := h.holds.convert conv v
    exact ⟨congrArg Answer.converted hx, h.setCache hc⟩
  | deserialize shape v =>
    obtain ⟨hx, hc⟩ := h.holds.read shape v
    exact ⟨congrArg Answer.value hx, h.setCache hc⟩
  | record schema v =>
    obtain ⟨hx, hc⟩ := h.holds.record schema v
    exact ⟨congrArg Answer.record hx, h.setCache hc⟩
  | reset => exact ⟨rfl, h.setCache ⟨Registry.sound_empty c, h.holds.2⟩⟩
  | register f schema =>
    refine ⟨rfl, h.setRoster f ?_ fun g hg => ?_⟩
    · simp only [Ledger.next, if_pos]
      exact (h.2 f).register schema
    · simp only [Ledger.next, if_neg hg]
  | clear f =>
    refine ⟨rfl, h.setRoster f ?_ fun g hg => ?_⟩
    · simp only [Ledger.next, if_pos]
      exact Roster.knows_unindexed c f []
    · simp only [Ledger.next, if_neg hg]
  | subtype f tag =>
    obtain ⟨hid, hr⟩ := (h.2 f).resolve tag
    exact ⟨congrArg Answer.member hid, h.setRoster f hr fun _ _ => rfl⟩
  | members f =>
    obtain ⟨hids, hr⟩ := (h.2 f).members
    exact ⟨congrArg Answer.members hids, h.setRoster f hr fun _ _ => rfl⟩

theorem valid_foldl {calls : List Call} (h : m.Valid c l) :
    (calls.foldl (fun m call => (m.answer c call).2) m).Valid c (calls.foldl Ledger.next l) := by
  induction calls generalizing m l with
  | nil => exact h
  | cons call calls ih => exact ih (h.answer call).2

theorem valid_after (c : Catalog) (calls : List Call) :
    (after c calls).Valid c (Ledger.after calls) := valid_foldl (valid_empty c)

/-- After any calls, the next one is answered as by a desk with the same registrations that has
converted nothing and knows no index. -/
theorem answer_after (c : Catalog) (calls : List Call) (call : Call) :
    ((after c calls).answer c call).1 = (((Ledger.after calls).fresh c).answer c call).1 := by
  rw [((valid_after c calls).answer call).1, ((valid_fresh c _).answer call).1]

end Desk

end GardenMap
