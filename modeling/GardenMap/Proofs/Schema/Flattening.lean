import GardenMap.Proofs.Record.Wholeness
import GardenMap.Proofs.Schema.Descent
import Mathlib.Data.Set.Finite.List
import Mathlib.Logic.Relation
import Mathlib.Order.WellFounded

/-!
# Flattening schemas

Schemas extend one another along an acyclic graph, with any number of bases, diamonds and repeated
bases. A catalog lists the schemas of such a graph so that bases are older, and every acyclic graph
can be listed like that (`IsInheritance.exists_grounded`). What a catalog says about a schema then
fits together (`IsInheritance.flattens`): the lineage is what the schema reaches through bases, each
schema once and after its bases, hooks run in that order, extending is a partial order, and the
flattened fields are those that look-ups by name find.

Proof. Reaching is compared with the lineage along `Grounded.induction`. The order of a lineage is
kept by `addNew`, one list of ancestors after another: a schema that is left out is already there,
and one that is put at the end has its bases in front of it (`BasesFirst`). Fields are compared
through the look-up by name, which finds the last declaration of the lineage.
-/

namespace GardenMap

open Relation

/-- The first schema names the second among its bases. -/
def Extends (g : List Schema) (s t : Schema) : Prop := s ∈ g ∧ t ∈ g ∧ t.id ∈ s.bases

/-- Schemas with identities of their own that extend only one another, and never, however far,
themselves. -/
structure IsInheritance (g : List Schema) : Prop where
  nodup : (g.map (·.id)).Nodup
  closed : ∀ s ∈ g, ∀ b ∈ s.bases, ∃ t ∈ g, t.id = b
  acyclic : ∀ s, ¬TransGen (Extends g) s s

theorem Extends.mono {g g' : List Schema} (h : g ⊆ g') {s t : Schema} (hst : Extends g s t) :
    Extends g' s t := ⟨h hst.1, h hst.2.1, hst.2.2⟩

namespace Catalog

variable {c : Catalog} {id : SchemaId} {s t : Schema}

/-! ## Graphs and catalogs -/

theorem Grounded.find?_of_mem (hc : c.Grounded) (hs : s ∈ c) : c.find? s.id = some s := by
  induction c with
  | nil => cases hs
  | cons t older ih =>
    rcases List.mem_cons.1 hs with rfl | hs
    · rw [find?_cons, if_pos rfl]
    · have hfound := ih hc.2.2 hs
      rw [hc.find?_cons_of_isSome (by rw [hfound]; rfl), hfound]

theorem mem_of_find? (h : c.find? id = some s) : s ∈ c := List.mem_of_find?_eq_some h

theorem find?_eq_none_iff : c.find? id = none ↔ id ∉ c.map (·.id) := by
  unfold find?
  simp

theorem Grounded.exists_extends (hc : c.Grounded) (hs : s ∈ c) {b : SchemaId} (hb : b ∈ s.bases) :
    ∃ u, c.find? b = some u ∧ Extends c s u := by
  obtain ⟨u, hu⟩ := Option.isSome_iff_exists.1 (hc.isSome_of_mem_bases (hc.find?_of_mem hs) hb)
  exact ⟨u, hu, hs, mem_of_find? hu, by rw [id_of_find? hu]; exact hb⟩

theorem Grounded.nodup (hc : c.Grounded) : (c.map (·.id)).Nodup := by
  induction c with
  | nil => exact List.nodup_nil
  | cons s older ih => exact List.nodup_cons.2 ⟨find?_eq_none_iff.1 hc.1, ih hc.2.2⟩

theorem Grounded.acc (hc : c.Grounded) (hs : s ∈ c) : Acc (fun u t => Extends c t u) s := by
  have hall : ∀ u, c.find? s.id = some u → Acc (fun u t => Extends c t u) u := by
    refine hc.induction (P := fun id => ∀ u, c.find? id = some u →
      Acc (fun u t => Extends c t u) u) (fun t ht ih u hu => ?_) (by rw [hc.find?_of_mem hs]; rfl)
    cases ht.symm.trans hu
    exact ⟨_, fun u htu => ih u.id htu.2.2 u (hc.find?_of_mem htu.2.1)⟩
  exact hall s (hc.find?_of_mem hs)

end Catalog

theorem IsInheritance.of_grounded {c : Catalog} (hc : c.Grounded) : IsInheritance c where
  nodup := hc.nodup
  closed s hs b hb := by
    obtain ⟨u, hu, hsu⟩ := hc.exists_extends hs hb
    exact ⟨u, hsu.2.1, Catalog.id_of_find? hu⟩
  acyclic s h := by
    obtain ⟨t, hst, -⟩ := TransGen.head'_iff.1 h
    exact not_transGen_self_of_acc (hc.acc hst.1) (transGen_swap.1 h)

namespace IsInheritance

variable {g : List Schema}

theorem exists_newest (hg : IsInheritance g) (hne : g ≠ []) : ∃ s ∈ g, ∀ t ∈ g, s.id ∉ t.bases := by
  have hfinite : Finite {s // s ∈ g} := (List.finite_toSet g).to_subtype
  let below (t s : {s // s ∈ g}) : Prop := TransGen (Extends g) t.1 s.1
  have htrans : IsTrans _ below := ⟨fun _ _ _ => TransGen.trans⟩
  have hirrefl : Std.Irrefl below := ⟨fun s => hg.acyclic s.1⟩
  obtain ⟨s₀, hs₀⟩ := List.exists_mem_of_ne_nil g hne
  obtain ⟨s, -, hs⟩ := (Finite.wellFounded_of_trans_of_irrefl below).has_min Set.univ
    ⟨⟨s₀, hs₀⟩, trivial⟩
  exact ⟨s.1, s.2, fun t ht hb => hs ⟨t, ht⟩ trivial (.single ⟨ht, s.2, hb⟩)⟩

theorem of_middle {s : Schema} {front back : List Schema}
    (hg : IsInheritance (front ++ s :: back))
    (hs : ∀ t ∈ front ++ s :: back, s.id ∉ t.bases) : IsInheritance (front ++ back) := by
  have hsub : front ++ back ⊆ front ++ s :: back := by
    intro t ht
    simp only [List.mem_append, List.mem_cons] at ht ⊢
    exact ht.imp_right .inr
  refine ⟨?_, fun t ht b hb => ?_, fun t h => ?_⟩
  · refine hg.nodup.sublist (List.Sublist.map _ ?_)
    exact List.Sublist.append_left (List.sublist_cons_self s back) front
  · obtain ⟨u, hu, rfl⟩ := hg.closed t (hsub ht) b hb
    refine ⟨u, ?_, rfl⟩
    have hne : u ≠ s := fun heq => hs t (hsub ht) (heq ▸ hb)
    simp only [List.mem_append, List.mem_cons] at hu ⊢
    exact hu.imp_right fun hu => hu.resolve_left hne
  · exact hg.acyclic t (TransGen.mono (fun _ _ => Extends.mono hsub) t t h)

/-- The schemas of an acyclic graph can be listed so that bases are older. -/
theorem exists_grounded (hg : IsInheritance g) : ∃ c : Catalog, c.Perm g ∧ c.Grounded := by
  induction hn : g.length generalizing g with
  | zero => exact ⟨[], by rw [List.length_eq_zero_iff.1 hn], trivial⟩
  | succ n ih =>
    -- the newest schema is listed first, and the others are listed by induction
    obtain ⟨s, hs, hnewest⟩ := hg.exists_newest (by rintro rfl; cases hn)
    obtain ⟨front, back, rfl⟩ := List.append_of_mem hs
    have hlen : (front ++ back).length = n := by
      simp only [List.length_append, List.length_cons] at hn ⊢
      omega
    obtain ⟨older, hperm, holder⟩ := ih (hg.of_middle hnewest) hlen
    have hnodup := hg.nodup
    rw [(List.perm_middle.map Schema.id).nodup_iff, List.map_cons, List.nodup_cons] at hnodup
    refine ⟨s :: older, (hperm.cons s).trans List.perm_middle.symm, ?_, fun b hb => ?_, holder⟩
    · rw [Catalog.find?_eq_none_iff, (hperm.map (·.id)).mem_iff]
      exact hnodup.1
    · obtain ⟨t, ht, rfl⟩ := hg.closed s hs b hb
      have hts : t ≠ s := fun heq => hnewest s hs (heq ▸ hb)
      have ht : t ∈ older := by
        rw [hperm.mem_iff]
        simp only [List.mem_append, List.mem_cons] at ht ⊢
        exact ht.imp_right fun ht => ht.resolve_left hts
      rw [holder.find?_of_mem ht]
      rfl

end IsInheritance

namespace Catalog

variable {c : Catalog} {id : SchemaId} {s t : Schema}

/-! ## Lineages -/

theorem Grounded.mem_lineage_iff_reaches (hc : c.Grounded) (hs : s ∈ c) :
    t ∈ c.lineage s.id ↔ ReflTransGen (Extends c) s t := by
  constructor
  · have hall : ∀ u, c.find? s.id = some u → ∀ t ∈ c.lineage s.id, ReflTransGen (Extends c) u t := by
      refine hc.induction (P := fun id => ∀ u, c.find? id = some u →
        ∀ t ∈ c.lineage id, ReflTransGen (Extends c) u t) (fun s hs ih u hu t ht => ?_)
        (by rw [hc.find?_of_mem hs]; rfl)
      cases hs.symm.trans hu
      obtain ⟨u, hu, ht⟩ := hc.mem_lineage_iff.1 ht
      cases hs.symm.trans hu
      rcases ht with rfl | ⟨b, hb, ht⟩
      · exact .refl
      · obtain ⟨v, hv, hsv⟩ := hc.exists_extends (mem_of_find? hs) hb
        exact .head hsv (ih b hb v hv t ht)
    exact hall s (hc.find?_of_mem hs) t
  · intro h
    induction h using ReflTransGen.head_induction_on with
    | refl => exact hc.mem_lineage_iff.2 ⟨t, hc.find?_of_mem hs, .inl rfl⟩
    | head hst _ ih =>
      exact hc.mem_lineage_iff.2 ⟨_, hc.find?_of_mem hst.1, .inr ⟨_, hst.2.2, ih hst.2.1⟩⟩

/-- Every schema of a list has its bases in front of it. -/
def BasesFirst (ss : List Schema) : Prop :=
  ∀ front t back, ss = front ++ t :: back → ∀ b ∈ t.bases, b ∈ front.map (·.id)

theorem basesFirst_nil : BasesFirst [] := fun front t back h => by
  cases front <;> cases h

theorem mem_ids_addNew {seen : List Schema} :
    id ∈ (addNew seen s).map (·.id) ↔ id ∈ seen.map (·.id) ∨ id = s.id := by
  unfold addNew
  split
  · next hany =>
    obtain ⟨u, hu, hid⟩ := List.any_eq_true.1 hany
    refine (or_iff_left_of_imp fun h => ?_).symm
    exact List.mem_map.2 ⟨u, hu, (of_decide_eq_true hid).trans h.symm⟩
  · simp

theorem mem_ids_foldl_addNew {ss seen : List Schema} :
    id ∈ (ss.foldl addNew seen).map (·.id) ↔ id ∈ seen.map (·.id) ∨ id ∈ ss.map (·.id) := by
  induction ss generalizing seen with
  | nil => simp
  | cons s ss ih => rw [List.foldl_cons, ih, mem_ids_addNew, List.map_cons, List.mem_cons, or_assoc]

theorem BasesFirst.addNew {seen : List Schema} (hseen : BasesFirst seen)
    (hs : ∀ b ∈ s.bases, b ∈ seen.map (·.id)) : BasesFirst (addNew seen s) := by
  unfold Catalog.addNew
  split
  · exact hseen
  · intro front t back h
    rcases List.eq_nil_or_concat back with rfl | ⟨back, u, rfl⟩
    · obtain ⟨rfl, hst⟩ := List.append_inj' h rfl
      cases hst
      exact hs
    · rw [List.concat_eq_append, ← List.cons_append, ← List.append_assoc] at h
      exact hseen front t back (List.append_inj' h rfl).1

theorem BasesFirst.foldl_addNew {seen done rest : List Schema} (hseen : BasesFirst seen)
    (hrest : BasesFirst (done ++ rest)) (hdone : ∀ t ∈ done, t.id ∈ seen.map (·.id)) :
    BasesFirst (rest.foldl Catalog.addNew seen) := by
  induction rest generalizing seen done with
  | nil => exact hseen
  | cons t rest ih =>
    have hbases : ∀ b ∈ t.bases, b ∈ seen.map (·.id) := fun b hb => by
      obtain ⟨u, hu, rfl⟩ := List.mem_map.1 (hrest done t rest rfl b hb)
      exact hdone u hu
    have hmore : BasesFirst ((done ++ [t]) ++ rest) := by simpa using hrest
    refine ih (hseen.addNew hbases) hmore fun u hu => ?_
    rw [mem_ids_addNew]
    rcases List.mem_append.1 hu with hu | hu
    · exact .inl (hdone u hu)
    · exact .inr (congrArg Schema.id (List.mem_singleton.1 hu))

theorem Grounded.basesFirst_lineage (hc : c.Grounded) (id : SchemaId) :
    BasesFirst (c.lineage id) := by
  induction c generalizing id with
  | nil => exact basesFirst_nil
  | cons s older ih =>
    have hlineages : ∀ (bs : List SchemaId) {seen : List Schema}, BasesFirst seen →
        BasesFirst ((bs.flatMap (lineage older)).foldl Catalog.addNew seen) := by
      intro bs
      induction bs with
      | nil => exact fun hseen => hseen
      | cons b bs ihbs =>
        intro seen hseen
        rw [List.flatMap_cons, List.foldl_append]
        have hbase : BasesFirst ([] ++ lineage older b) := ih hc.2.2 b
        exact ihbs (hseen.foldl_addNew hbase nofun)
    rw [lineage]
    split
    · refine (hlineages s.bases basesFirst_nil).addNew fun b hb => mem_ids_foldl_addNew.2 (.inr ?_)
      -- the base is the last of its own lineage
      obtain ⟨u, hu⟩ := Option.isSome_iff_exists.1 (hc.2.1 b hb)
      have hmem : u ∈ lineage older b := hc.2.2.mem_lineage_iff.2 ⟨u, hu, .inl rfl⟩
      exact List.mem_map.2 ⟨u, List.mem_flatMap.2 ⟨b, hb, hmem⟩, id_of_find? hu⟩
    · exact ih hc.2.2 id

theorem assemble_eq_foldl_lineage (c : Catalog) (id : SchemaId) (fields : List (String × Value))
    (entries : Object) :
    c.assemble id fields entries =
      (c.lineage id).foldl (fun r t => t.finish.foldl Record.finish r)
        ⟨id, c.withDefaults id fields, extras fields entries⟩ := by
  unfold assemble
  rw [List.foldl_flatMap]

/-! ## Fields -/

theorem eraseDups_concat (names : List String) (name : String) :
    (names ++ [name]).eraseDups =
      if name ∈ names then names.eraseDups else names.eraseDups ++ [name] := by
  rw [List.eraseDups_append]
  by_cases h : name ∈ names
  · simp [List.removeAll, h]
  · simp [List.removeAll, h, List.eraseDups_cons]

theorem names_allFields (c : Catalog) (id : SchemaId) :
    (c.allFields id).map (·.name) =
      ((c.lineage id).flatMap fun t => t.fields.map (·.name)).eraseDups := by
  have hfold : ∀ fs : List Field,
      (fs.foldl addField []).map (·.name) = (fs.map (·.name)).eraseDups := by
    intro fs
    induction fs using List.reverseRecOn with
    | nil => rfl
    | append_singleton fs f ih =>
      rw [List.foldl_concat, names_addField, ih, List.map_append, List.map_singleton,
        eraseDups_concat]
      simp only [List.mem_eraseDups]
  unfold allFields
  rw [hfold, List.map_flatMap]

theorem field?_eq_find? (hnames : c.NamesOnce id) (name : String) :
    c.field? id name = (c.allFields id).find? fun f => f.name = name := by
  cases h : c.field? id name with
  | none =>
    symm
    refine List.find?_eq_none.2 fun f hf hname => field?_eq_none_iff.1 h ?_
    exact List.mem_map.2 ⟨f, hf, of_decide_eq_true hname⟩
  | some f =>
    obtain ⟨hf, hname⟩ := mem_allFields_of_field? hnames h
    cases hfind : (c.allFields id).find? fun g => g.name = name with
    | none => exact absurd (decide_eq_true hname) (List.find?_eq_none.1 hfind f hf)
    | some g =>
      have hgname : g.name = name := by simpa using List.find?_some hfind
      exact congrArg some (List.inj_on_of_nodup_map (nodup_allFields c id) hf
        (List.mem_of_find?_eq_some hfind) (hname.trans hgname.symm))

theorem exists_last_declaration (hnames : c.NamesOnce id) {f : Field} (hf : f ∈ c.allFields id) :
    ∃ front t back, c.lineage id = front ++ t :: back ∧ f ∈ t.fields ∧
      ∀ u ∈ back, ∀ g ∈ u.fields, g.name ≠ f.name := by
  have hfield : c.field? id f.name = some f := by
    cases h : c.field? id f.name with
    | none => exact absurd (List.mem_map.2 ⟨f, hf, rfl⟩) (field?_eq_none_iff.1 h)
    | some g =>
      obtain ⟨hg, hname⟩ := mem_allFields_of_field? hnames h
      exact congrArg some (List.inj_on_of_nodup_map (nodup_allFields c id) hg hf hname)
  obtain ⟨newer, t, older, hlineage, hfind, hnewer⟩ := List.findSome?_eq_some_iff.1 hfield
  rw [List.reverse_eq_iff, List.reverse_append, List.reverse_cons, List.append_assoc] at hlineage
  refine ⟨older.reverse, t, newer.reverse, hlineage, List.mem_of_find?_eq_some hfind, ?_⟩
  intro u hu g hg hname
  exact List.find?_eq_none.1 (hnewer u (List.mem_reverse.1 hu)) g hg (decide_eq_true hname)

theorem namesOnce_of_nodup (h : ∀ t ∈ c.lineage id, (t.fields.map (·.name)).Nodup) :
    c.NamesOnce id :=
  fun t ht _ hf _ hg hname => List.inj_on_of_nodup_map (h t ht) hf hg hname

/-! ## Catalogs -/

/-- What a catalog says about a schema fits together. -/
structure Flattens (c : Catalog) (s : Schema) : Prop where
  reached : ∀ t, t ∈ c.lineage s.id ↔ ReflTransGen (Extends c) s t
  once : ((c.lineage s.id).map (·.id)).Nodup
  basesFirst : BasesFirst (c.lineage s.id)
  last : (c.lineage s.id).getLast? = some s
  /-- The hooks of the lineage run in its order. -/
  hooks : ∀ fields entries, c.assemble s.id fields entries =
    (c.lineage s.id).foldl (fun r t => t.finish.foldl Record.finish r)
      ⟨s.id, c.withDefaults s.id fields, extras fields entries⟩
  namesOnce : ((c.allFields s.id).map (·.name)).Nodup
  /-- Names stand in the order of their first declarations. -/
  names : (c.allFields s.id).map (·.name) =
    ((c.lineage s.id).flatMap fun t => t.fields.map (·.name)).eraseDups
  /-- A field is declared like that by the last schema that declares its name. -/
  declared : ∀ f ∈ c.allFields s.id, ∃ front t back, c.lineage s.id = front ++ t :: back ∧
    f ∈ t.fields ∧ ∀ u ∈ back, ∀ g ∈ u.fields, g.name ≠ f.name
  field : ∀ name, c.field? s.id name = (c.allFields s.id).find? fun f => f.name = name
  undeclared : ∀ name, c.field? s.id name = none ↔
    ∀ t, ReflTransGen (Extends c) s t → ∀ f ∈ t.fields, f.name ≠ name

theorem Grounded.flattens_of_mem (hc : c.Grounded) (hnames : ∀ t ∈ c, (t.fields.map (·.name)).Nodup)
    (hs : s ∈ c) : c.Flattens s := by
  have hreached : ∀ t, t ∈ c.lineage s.id ↔ ReflTransGen (Extends c) s t :=
    fun t => hc.mem_lineage_iff_reaches hs
  have hsub : ∀ t ∈ c.lineage s.id, t ∈ c := fun t ht => mem_of_find? (hc.find?_of_mem_lineage ht)
  have honce := namesOnce_of_nodup fun t ht => hnames t (hsub t ht)
  obtain ⟨front, hlast⟩ := hc.exists_lineage (hc.find?_of_mem hs)
  refine ⟨hreached, lineage_nodup c s.id, hc.basesFirst_lineage s.id, by simp [hlast],
    assemble_eq_foldl_lineage c s.id, nodup_allFields c s.id, names_allFields c s.id,
    fun f hf => exists_last_declaration honce hf, field?_eq_find? honce, fun name => ?_⟩
  rw [field?_eq_none_iff, declares_iff]
  simp only [not_exists, not_and, hreached]

theorem Grounded.extends_iff_reaches (hc : c.Grounded) (hs : s ∈ c) (ht : t ∈ c) :
    c.extends? s.id t.id = true ↔ ReflTransGen (Extends c) s t := by
  rw [extends?_iff, ← hc.mem_lineage_iff_reaches hs]
  refine ⟨fun ⟨u, hu, hid⟩ => ?_, fun h => ⟨t, h, rfl⟩⟩
  have hfound := hc.find?_of_mem_lineage hu
  rw [hid, hc.find?_of_mem ht] at hfound
  cases hfound
  exact hu

end Catalog

/-- The schemas of an acyclic graph in which no schema declares a name twice make a catalog, and in
each such catalog the lineages, the order of hooks, the flattened fields and the look-ups by name
fit together, and extending is a partial order. -/
theorem IsInheritance.flattens {g : List Schema} (hg : IsInheritance g)
    (hnames : ∀ s ∈ g, (s.fields.map (·.name)).Nodup) :
    (∃ c : Catalog, c.Perm g ∧ c.Grounded) ∧
      ∀ c : Catalog, c.Perm g → c.Grounded →
        (∀ s ∈ g, c.Flattens s) ∧
        (∀ s ∈ g, c.extends? s.id s.id = true) ∧
        (∀ s ∈ g, ∀ t ∈ g, ∀ u ∈ g, c.extends? s.id t.id = true → c.extends? t.id u.id = true →
          c.extends? s.id u.id = true) ∧
        (∀ s ∈ g, ∀ t ∈ g, c.extends? s.id t.id = true → c.extends? t.id s.id = true → s = t) := by
  refine ⟨hg.exists_grounded, fun c hperm hc => ?_⟩
  have hmem : ∀ {s}, s ∈ g → s ∈ c := fun hs => hperm.mem_iff.2 hs
  refine ⟨fun s hs => hc.flattens_of_mem (fun t ht => hnames t (hperm.mem_iff.1 ht)) (hmem hs),
    fun s hs => ?_, fun s hs t ht u hu hst htu => ?_, fun s hs t ht hst hts => ?_⟩
  · exact (hc.extends_iff_reaches (hmem hs) (hmem hs)).2 .refl
  · rw [hc.extends_iff_reaches (hmem hs) (hmem ht)] at hst
    rw [hc.extends_iff_reaches (hmem ht) (hmem hu)] at htu
    exact (hc.extends_iff_reaches (hmem hs) (hmem hu)).2 (hst.trans htu)
  · rw [hc.extends_iff_reaches (hmem hs) (hmem ht)] at hst
    rw [hc.extends_iff_reaches (hmem ht) (hmem hs)] at hts
    -- a way back would lead round in a circle
    rcases reflTransGen_iff_eq_or_transGen.1 hst with rfl | hst
    · rfl
    · exact absurd (hst.trans_left hts) ((IsInheritance.of_grounded hc).acyclic s)

/-- A schema that extends its bases in several ways: `child` stands between `grandchild` and `root`,
which is a base of both, named twice by `grandchild`. -/
def diamond : Catalog :=
  [⟨⟨"Grandchild", 0⟩, [⟨"Child", 0⟩, ⟨"Root", 0⟩, ⟨"Root", 0⟩], [], none, none, []⟩,
    ⟨⟨"Child", 0⟩, [⟨"Root", 0⟩, ⟨"Side", 0⟩], [⟨"label", .any⟩, ⟨"extra", .any⟩], some "extra", none,
      []⟩,
    ⟨⟨"Side", 0⟩, [], [⟨"x", .int⟩], none, none, []⟩,
    ⟨⟨"Root", 0⟩, [], [⟨"id", .int⟩, ⟨"label", .str⟩], none, none, []⟩]

theorem flattens_diamond :
    IsInheritance diamond ∧ (∀ s ∈ diamond, (s.fields.map (·.name)).Nodup) ∧
      ∀ s ∈ diamond, diamond.Flattens s := by
  have hgrounded : diamond.Grounded := by decide
  have hnames : ∀ s ∈ diamond, (s.fields.map (·.name)).Nodup := by decide
  exact ⟨.of_grounded hgrounded, hnames,
    ((IsInheritance.of_grounded hgrounded).flattens hnames).2 diamond (.refl _) hgrounded |>.1⟩

example : (diamond.lineage ⟨"Grandchild", 0⟩).map (·.name) =
    ["Root", "Side", "Child", "Grandchild"] := by decide

example : diamond.allFields ⟨"Grandchild", 0⟩ =
    [⟨"id", .int⟩, ⟨"label", .any⟩, ⟨"x", .int⟩, ⟨"extra", .any⟩] := by decide

end GardenMap
