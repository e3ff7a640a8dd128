import GardenMap.Proofs.Conversion.Caches
import GardenMap.Proofs.Schema.Membership

/-!
# Where tags lead

Whatever was called before, the name of a candidate leads to it exactly when a chain of candidates
links it to the base of the family, and every other tag leads to the base (`subtype_after`). To
extend the base is not enough: a candidate whose chain goes through a schema that is no candidate is
missed (`candidate_without_its_base`).
-/

namespace GardenMap

namespace Family

variable {c : Catalog} {f : Family} {registered : List SchemaId}

theorem select_of_linked (hnames : f.NamesApart registered) {s : SchemaId}
    (h : Linked c f.base (f.declared ++ registered) s) (hs : s ≠ f.base) :
    f.select (f.indexOf c registered) (some s.name) = s := by
  rw [select, Option.bind_some, (get?_indexOf_iff hnames).2 ⟨rfl, hs, h⟩]
  rfl

theorem select_eq_base (hnames : f.NamesApart registered) {tag : String}
    (h : ∀ s, s.name = tag → s ≠ f.base → ¬Linked c f.base (f.declared ++ registered) s) :
    f.select (f.indexOf c registered) (some tag) = f.base := by
  rw [select, Option.bind_some]
  cases hget : Table.get? (f.indexOf c registered) tag with
  | none => rfl
  | some s =>
    obtain ⟨hname, hne, hlinked⟩ := (get?_indexOf_iff hnames).1 hget
    exact absurd hlinked (h s hname hne)

theorem select_of_not_linked (hnames : f.NamesApart registered) {s : SchemaId}
    (hs : s ∈ f.declared ++ registered) (h : ¬Linked c f.base (f.declared ++ registered) s) :
    f.select (f.indexOf c registered) (some s.name) = f.base := by
  refine select_eq_base hnames fun t hname hne hlinked => h ?_
  rwa [hnames s hs t (hlinked.mem_candidates hne) hname.symm]

end Family

namespace Desk

open Family

theorem subtype_eq_select (c : Catalog) (calls : List Call) (f : Family) (tag : Option String) :
    ((after c calls).answer c (.subtype f tag)).1 =
      .member (f.select (f.indexOf c (Ledger.after calls f)) tag) :=
  ((valid_after c calls).answer (.subtype f tag)).1

/-- After any calls that leave the candidates with names of their own, the name of a candidate that
extends the base leads to the candidate if it is linked, as it is when the schemas between are
candidates too, and else to the base. Any other tag leads to the base. -/
theorem subtype_after (c : Catalog) (hc : c.Grounded) (calls : List Call) (f : Family)
    (hnames : f.NamesApart (Ledger.after calls f)) :
    (∀ s ∈ f.declared ++ Ledger.after calls f, s ≠ f.base → c.extends? s f.base = true →
      (Linked c f.base (f.declared ++ Ledger.after calls f) s →
        ((after c calls).answer c (.subtype f (some s.name))).1 = .member s) ∧
      (¬Linked c f.base (f.declared ++ Ledger.after calls f) s →
        ((after c calls).answer c (.subtype f (some s.name))).1 = .member f.base) ∧
      ((∀ t, c.extends? s t = true → c.extends? t f.base = true → t ≠ f.base →
          t ∈ f.declared ++ Ledger.after calls f) →
        Linked c f.base (f.declared ++ Ledger.after calls f) s)) ∧
    (∀ tag, (∀ s ∈ f.declared ++ Ledger.after calls f, s ≠ f.base → c.extends? s f.base = true →
        s.name ≠ tag) →
      ((after c calls).answer c (.subtype f (some tag))).1 = .member f.base) ∧
    ((after c calls).answer c (.subtype f none)).1 = .member f.base := by
  refine ⟨fun s hs hne hext => ⟨fun hlinked => ?_, fun hlinked => ?_, linked_of_extends hc hext⟩,
    fun tag htag => ?_, ?_⟩
  · rw [subtype_eq_select, select_of_linked hnames hlinked hne]
  · rw [subtype_eq_select, select_of_not_linked hnames hs hlinked]
  · rw [subtype_eq_select, select_eq_base hnames]
    intro s hname hne hlinked
    exact htag s (hlinked.mem_candidates hne) hne (hlinked.extends hc hne) hname
  · rw [subtype_eq_select]
    rfl

end Desk

/-! ### A kennel -/

namespace Kennel

def animal : SchemaId := ⟨"Animal", 0⟩

def dog : SchemaId := ⟨"Dog", 0⟩

def puppy : SchemaId := ⟨"Puppy", 0⟩

def catalog : Catalog :=
  [⟨puppy, [dog], [⟨"toy", .str⟩], none, none, []⟩, ⟨dog, [animal], [], none, none, []⟩,
    ⟨animal, [], [⟨"kind", .str⟩], none, none, []⟩]

/-- A family of animals that declares puppies only. -/
def family : Family := ⟨animal, "kind", "GenericAnimal", [puppy]⟩

theorem not_linked_puppy : ¬Family.Linked catalog animal [puppy] puppy := by
  intro h
  obtain hbase | ⟨parent, hparent, hchild⟩ := Relation.ReflTransGen.cases_tail h
  · exact absurd hbase (by decide)
  · obtain ⟨t, ht, hmem⟩ := Catalog.directlyExtends?_iff.1 (Family.mem_children.1 hchild).2
    cases ht
    obtain rfl : parent = dog := List.mem_singleton.1 hmem
    exact absurd (Family.Linked.mem_candidates hparent (by decide)) (by decide)

theorem linked_puppy : Family.Linked catalog animal [puppy, dog] puppy :=
  .tail (.single (by decide : dog ∈ Family.children catalog [puppy, dog] animal)) (by decide)

end Kennel

namespace Desk

open Kennel

/-- With dogs registered, the tag of puppies leads to them, and an unknown tag to animals. -/
theorem subtype_after_registering_dogs :
    ((after catalog [.register family dog]).answer catalog (.subtype family (some "Puppy"))).1 =
        .member puppy ∧
      ((after catalog [.register family dog]).answer catalog (.subtype family (some "Cat"))).1 =
        .member animal := by
  obtain ⟨hmember, hbase, -⟩ := subtype_after catalog (by decide) [.register family dog] family
    (by decide)
  exact ⟨(hmember puppy (by decide) (by decide) (by decide)).1 linked_puppy,
    hbase "Cat" (by decide)⟩

/-- A candidate that extends the base is missed when a schema between them is no candidate. -/
theorem candidate_without_its_base :
    ¬∀ (c : Catalog) (calls : List Call) (f : Family), c.Grounded →
      f.NamesApart (Ledger.after calls f) →
      ∀ s ∈ f.declared ++ Ledger.after calls f, s ≠ f.base → c.extends? s f.base = true →
        ((after c calls).answer c (.subtype f (some s.name))).1 = .member s := by
  intro h
  have hpuppy := h catalog [] family (by decide) (by decide) puppy (by decide) (by decide)
    (by decide)
  rw [subtype_eq_select, Family.select_of_not_linked (by decide) (by decide) not_linked_puppy]
    at hpuppy
  exact absurd (Answer.member.inj hpuppy) (by decide)

end Desk

end GardenMap
