import GardenMap.Proofs.Schema.Descent
import GardenMap.Proofs.Tables
import GardenMap.Schema.Family
import Mathlib.Logic.Relation

/-!
# Members of a family

The index of a family has every candidate that a chain of candidates links to the base, and nothing
else, when no two candidates have one name (`get?_indexOf_iff`). A linked candidate extends the base
(`extends_of_linked`); one that extends the base is linked when the schemas between are candidates
too (`linked_of_extends`).

Proof. `Walked` is the invariant of the walk: what is indexed or queued is linked, and a schema that
has been taken from the queue has the names of its children in the index. Enrolling a child keeps it,
with the children still to enrol as an exception, and so does the walk. Once the queue is empty the
index is closed under direct extension, and chains of candidates do not leave it.
-/

namespace GardenMap.Family

open Relation

variable {c : Catalog} {base : SchemaId} {candidates : List SchemaId}

/-- A chain of candidates, each directly extending the one before it, leads from the base to a
schema. -/
def Linked (c : Catalog) (base : SchemaId) (candidates : List SchemaId) : SchemaId → Prop :=
  ReflTransGen (fun parent s => s ∈ children c candidates parent) base

theorem mem_children {parent s : SchemaId} :
    s ∈ children c candidates parent ↔ s ∈ candidates ∧ c.directlyExtends? s parent = true :=
  List.mem_filter

theorem Linked.mem_candidates {s : SchemaId} (h : Linked c base candidates s) (hs : s ≠ base) :
    s ∈ candidates := by
  rcases ReflTransGen.cases_tail h with rfl | ⟨parent, -, hchild⟩
  · exact absurd rfl hs
  · exact (mem_children.1 hchild).1

/-! ## Links and lineages -/

theorem Linked.extends (hc : c.Grounded) {s : SchemaId} (h : Linked c base candidates s)
    (hs : s ≠ base) : c.extends? s base = true := by
  induction h with
  | refl => exact absurd rfl hs
  | @tail parent s _ hchild ih =>
    obtain ⟨t, ht, hparent⟩ := Catalog.directlyExtends?_iff.1 (mem_children.1 hchild).2
    refine (hc.extends_iff ht).2 (.inr ⟨parent, hparent, ?_⟩)
    by_cases hbase : parent = base
    · subst hbase
      exact hc.extends_self (hc.isSome_of_mem_bases ht hparent)
    · exact ih hbase

/-- A schema that extends the base is linked when the schemas between them are candidates. -/
theorem linked_of_extends (hc : c.Grounded) {s : SchemaId} (h : c.extends? s base = true)
    (hbetween : ∀ t, c.extends? s t = true → c.extends? t base = true → t ≠ base →
      t ∈ candidates) : Linked c base candidates s := by
  have hfound : (c.find? s).isSome := by
    obtain ⟨t, ht, -⟩ := Catalog.extends?_iff.1 h
    obtain ⟨u, hu, -⟩ := hc.mem_lineage_iff.1 ht
    rw [hu]
    rfl
  revert h hbetween
  refine hc.induction (P := fun s => c.extends? s base = true →
    (∀ t, c.extends? s t = true → c.extends? t base = true → t ≠ base → t ∈ candidates) →
      Linked c base candidates s) (fun s hs ih h hbetween => ?_) hfound
  by_cases hne : s.id = base
  · rw [hne]
    exact .refl
  · obtain ⟨b, hb, hext⟩ := ((hc.extends_iff hs).1 h).resolve_left hne
    refine (ih b hb hext fun t ht => hbetween t ((hc.extends_iff hs).2 (.inr ⟨b, hb, ht⟩))).tail ?_
    refine mem_children.2 ⟨hbetween s.id (hc.extends_self (by rw [hs]; rfl)) h hne, ?_⟩
    exact Catalog.directlyExtends?_iff.2 ⟨s, hs, hb⟩

/-! ## The walk -/

/-- What the walk has done, with some children of a schema still to enrol. -/
structure Walked (c : Catalog) (base : SchemaId) (candidates : List SchemaId) (parent : SchemaId)
    (pending : List SchemaId) (index : FamilyIndex) (queue : List SchemaId) : Prop where
  sorted : Table.Sorted index
  indexed : ∀ e ∈ index, e.1 = e.2.name ∧ e.2 ≠ base ∧ Linked c base candidates e.2
  queued : ∀ s ∈ queue, Linked c base candidates s
  closed : ∀ t, t = base ∨ (t.name, t) ∈ index → t ∈ queue ∨
    ∀ s ∈ children c candidates t,
      s = base ∨ Table.has index s.name = true ∨ t = parent ∧ s ∈ pending

variable {parent s : SchemaId} {pending : List SchemaId} {index : FamilyIndex}
  {queue : List SchemaId}

theorem walked_start (c : Catalog) (base : SchemaId) (candidates : List SchemaId) :
    Walked c base candidates base [] [] [base] where
  sorted := Table.sorted_nil
  indexed := fun _ he => absurd he List.not_mem_nil
  queued := fun _ hs => List.mem_singleton.1 hs ▸ .refl
  closed := by
    rintro t (rfl | ht)
    · exact .inl List.mem_cons_self
    · cases ht

theorem Walked.take {old : SchemaId} (h : Walked c base candidates old [] index (parent :: queue)) :
    Walked c base candidates parent (children c candidates parent) index queue := by
  refine ⟨h.sorted, h.indexed, fun s hs => h.queued s (List.mem_cons_of_mem _ hs), fun t ht => ?_⟩
  rcases h.closed t ht with hq | hall
  · rcases List.mem_cons.1 hq with rfl | hq
    · exact .inr fun s hs => .inr (.inr ⟨rfl, hs⟩)
    · exact .inl hq
  · refine .inr fun s hs => (hall s hs).imp_right fun hs => .inl ?_
    exact hs.resolve_right fun hs => absurd hs.2 List.not_mem_nil

theorem Walked.enrol (h : Walked c base candidates parent (s :: pending) index queue)
    (hs : Linked c base candidates s) :
    Walked c base candidates parent pending (Family.enrol base (index, queue) s).1
      (Family.enrol base (index, queue) s).2 := by
  unfold Family.enrol
  split
  · next hskip =>
    -- the child is no longer pending, as it is the base or its name is in the index
    refine ⟨h.sorted, h.indexed, h.queued, fun t ht => (h.closed t ht).imp_right fun hall u hu => ?_⟩
    rcases hall u hu with hbase | hhas | ⟨rfl, hmem⟩
    · exact .inl hbase
    · exact .inr (.inl hhas)
    · rcases List.mem_cons.1 hmem with rfl | hmem
      · simp only [Bool.or_eq_true, decide_eq_true_eq] at hskip
        exact hskip.imp_right .inl
      · exact .inr (.inr ⟨rfl, hmem⟩)
  · next hnew =>
    simp only [Bool.or_eq_true, decide_eq_true_eq, not_or] at hnew
    refine ⟨Table.sorted_put h.sorted _ _, fun e he => ?_, fun t ht => ?_, fun t ht => ?_⟩
    · rcases Table.mem_of_mem_put he with rfl | he
      · exact ⟨rfl, hnew.1, hs⟩
      · exact h.indexed e he
    · rcases List.mem_append.1 ht with ht | ht
      · exact h.queued t ht
      · exact List.mem_singleton.1 ht ▸ hs
    · have hold : t = s ∨ t = base ∨ (t.name, t) ∈ index := by
        rcases ht with rfl | ht
        · exact .inr (.inl rfl)
        · rcases Table.mem_of_mem_put ht with heq | ht
          · exact .inl (congrArg Prod.snd heq)
          · exact .inr (.inr ht)
      rcases hold with rfl | hold
      · exact .inl (List.mem_append_right _ List.mem_cons_self)
      · refine (h.closed t hold).imp (List.mem_append_left _) fun hall u hu => ?_
        rcases hall u hu with hbase | hhas | ⟨rfl, hmem⟩
        · exact .inl hbase
        · exact .inr (.inl (by rw [Table.has_put, hhas, Bool.or_true]))
        · rcases List.mem_cons.1 hmem with rfl | hmem
          · exact .inr (.inl (by rw [Table.has_put, decide_eq_true rfl, Bool.true_or]))
          · exact .inr (.inr ⟨rfl, hmem⟩)

theorem Walked.enrolAll (h : Walked c base candidates parent pending index queue)
    (hp : ∀ s ∈ pending, Linked c base candidates s) :
    Walked c base candidates parent [] (pending.foldl (Family.enrol base) (index, queue)).1
      (pending.foldl (Family.enrol base) (index, queue)).2 := by
  induction pending generalizing index queue with
  | nil => exact h
  | cons s pending ih =>
    obtain ⟨hs, hp⟩ := List.forall_mem_cons.1 hp
    exact ih (h.enrol hs) hp

theorem exists_walked (c : Catalog) (base : SchemaId) (candidates : List SchemaId)
    (index : FamilyIndex) (queue : List SchemaId) :
    ∀ {parent}, Walked c base candidates parent [] index queue →
      ∃ last, Walked c base candidates last [] (walk c base candidates index queue) [] := by
  fun_induction walk c base candidates index queue with
  | case1 index => exact fun h => ⟨_, h⟩
  | case2 index first rest next =>
    rename_i ih
    intro parent h
    have hfirst := h.queued first List.mem_cons_self
    exact ih (h.take.enrolAll fun s hs => hfirst.tail hs)

/-! ## The index -/

variable {f : Family} {registered : List SchemaId}

theorem walked_indexOf (c : Catalog) (f : Family) (registered : List SchemaId) :
    ∃ last, Walked c f.base (f.declared ++ registered) last [] (f.indexOf c registered) [] :=
  exists_walked _ _ _ _ _ (walked_start c f.base (f.declared ++ registered))

theorem sorted_indexOf (c : Catalog) (f : Family) (registered : List SchemaId) :
    Table.Sorted (f.indexOf c registered) := (walked_indexOf c f registered).choose_spec.sorted

theorem linked_of_mem_indexOf {e : String × SchemaId} (h : e ∈ f.indexOf c registered) :
    e.1 = e.2.name ∧ e.2 ≠ f.base ∧ Linked c f.base (f.declared ++ registered) e.2 :=
  (walked_indexOf c f registered).choose_spec.indexed e h

/-- No two candidates of a family have one name. -/
def NamesApart (f : Family) (registered : List SchemaId) : Prop :=
  ∀ s ∈ f.declared ++ registered, ∀ t ∈ f.declared ++ registered, s.name = t.name → s = t

instance (f : Family) (registered : List SchemaId) : Decidable (f.NamesApart registered) :=
  inferInstanceAs (Decidable (∀ s ∈ f.declared ++ registered, ∀ t ∈ f.declared ++ registered,
    s.name = t.name → s = t))

theorem mem_indexOf_of_linked (hnames : f.NamesApart registered) {s : SchemaId}
    (h : Linked c f.base (f.declared ++ registered) s) (hs : s ≠ f.base) :
    (s.name, s) ∈ f.indexOf c registered := by
  obtain ⟨last, hwalked⟩ := walked_indexOf c f registered
  have hnamed : ∀ t ∈ f.declared ++ registered,
      Table.has (f.indexOf c registered) t.name = true → (t.name, t) ∈ f.indexOf c registered := by
    intro t ht hhas
    obtain ⟨⟨name, u⟩, hu, rfl⟩ := Table.has_iff.1 hhas
    obtain ⟨hname, hne, hlinked⟩ := hwalked.indexed _ hu
    have htu : t = u := hnames t ht u (hlinked.mem_candidates hne) hname
    rwa [← htu] at hu
  induction h with
  | refl => exact absurd rfl hs
  | @tail parent s hparent hchild ih =>
    have hclosed := hwalked.closed parent (Classical.or_iff_not_imp_left.2 ih)
    rcases hclosed.resolve_left List.not_mem_nil s hchild with hbase | hhas | ⟨-, hpending⟩
    · exact absurd hbase hs
    · exact hnamed s (mem_children.1 hchild).1 hhas
    · cases hpending

/-- The index has the linked candidates by name. -/
theorem get?_indexOf_iff (hnames : f.NamesApart registered) {tag : String} {s : SchemaId} :
    Table.get? (f.indexOf c registered) tag = some s ↔
      s.name = tag ∧ s ≠ f.base ∧ Linked c f.base (f.declared ++ registered) s := by
  rw [← Table.mem_iff_get? (sorted_indexOf c f registered)]
  constructor
  · intro h
    obtain ⟨hname, hs⟩ := linked_of_mem_indexOf h
    exact ⟨hname.symm, hs⟩
  · rintro ⟨rfl, hne, hlinked⟩
    exact mem_indexOf_of_linked hnames hlinked hne

end GardenMap.Family
