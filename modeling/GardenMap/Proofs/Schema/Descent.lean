import GardenMap.Schema.Catalog

/-!
# Descent

In a catalog whose schemas have identities of their own and extend older schemas only, the lineage of
a schema is what its bases make it: itself and the lineages of its bases (`mem_lineage_iff`), each
schema once (`lineage_nodup`). So extending is transitive along bases, and what holds of a schema
whenever it holds of its bases holds of every schema (`Grounded.induct`).
-/

namespace GardenMap.Catalog

variable {c : Catalog} {id : SchemaId}

/-- Every schema has an identity of its own, and its bases are found among the older schemas. -/
def Grounded : Catalog → Prop
  | [] => True
  | s :: older => find? older s.id = none ∧ (∀ b ∈ s.bases, (find? older b).isSome) ∧ Grounded older

/-- Whether a catalog is grounded can be read off it. -/
def decideGrounded : (c : Catalog) → Decidable c.Grounded
  | [] => .isTrue trivial
  | s :: older =>
    have := decideGrounded older
    inferInstanceAs (Decidable (find? older s.id = none ∧ (∀ b ∈ s.bases, (find? older b).isSome) ∧
      Grounded older))

instance : DecidablePred Grounded := decideGrounded

/-! ## Looking schemas up -/

theorem find?_cons (s : Schema) (older : Catalog) (id : SchemaId) :
    find? (s :: older) id = if s.id = id then some s else find? older id := by
  unfold find?
  rw [List.find?_cons]
  by_cases h : s.id = id <;> simp [h]

theorem id_of_find? {s : Schema} (h : c.find? id = some s) : s.id = id := by
  simpa using List.find?_some h

theorem Grounded.find?_cons_of_isSome {s : Schema} {older : Catalog} (hc : Grounded (s :: older))
    (h : (find? older id).isSome) : find? (s :: older) id = find? older id := by
  rw [find?_cons, if_neg]
  rintro rfl
  rw [hc.1] at h
  cases h

theorem Grounded.lineage_cons_of_isSome {s : Schema} {older : Catalog} (hc : Grounded (s :: older))
    (h : (find? older id).isSome) : lineage (s :: older) id = lineage older id := by
  rw [lineage, if_neg]
  rintro rfl
  rw [hc.1] at h
  cases h

theorem Grounded.find?_of_suffix (hc : c.Grounded) {older : Catalog} (h : older <:+ c)
    (hid : (find? older id).isSome) : c.find? id = find? older id := by
  induction c with
  | nil => rw [List.suffix_nil.1 h]
  | cons s c ih =>
    rcases List.suffix_cons_iff.1 h with rfl | h
    · rfl
    · have hfound := ih hc.2.2 h
      rw [hc.find?_cons_of_isSome (by rw [hfound]; exact hid), hfound]

theorem Grounded.lineage_of_suffix (hc : c.Grounded) {older : Catalog} (h : older <:+ c)
    (hid : (find? older id).isSome) : c.lineage id = lineage older id := by
  induction c with
  | nil => rw [List.suffix_nil.1 h]
  | cons s c ih =>
    rcases List.suffix_cons_iff.1 h with rfl | h
    · rfl
    · rw [hc.lineage_cons_of_isSome (by rw [hc.2.2.find?_of_suffix h hid]; exact hid), ih hc.2.2 h]

theorem Grounded.isSome_of_mem_bases (hc : c.Grounded) {s : Schema} (hs : c.find? id = some s)
    {b : SchemaId} (hb : b ∈ s.bases) : (c.find? b).isSome := by
  induction c with
  | nil => cases hs
  | cons t older ih =>
    have hfound : (find? older b).isSome := by
      rw [find?_cons] at hs
      split at hs
      · cases hs
        exact hc.2.1 b hb
      · exact ih hc.2.2 hs
    rwa [hc.find?_cons_of_isSome hfound]

/-! ## Lineages -/

theorem mem_of_mem_addNew {seen : List Schema} {s t : Schema} (h : t ∈ addNew seen s) :
    t ∈ seen ∨ t = s := by
  unfold addNew at h
  split at h
  · exact .inl h
  · simpa using h

theorem mem_of_mem_foldl_addNew {ss seen : List Schema} {t : Schema} (h : t ∈ ss.foldl addNew seen) :
    t ∈ seen ∨ t ∈ ss := by
  induction ss generalizing seen with
  | nil => exact .inl h
  | cons s ss ih =>
    rcases ih h with h | h
    · rcases mem_of_mem_addNew h with h | rfl
      · exact .inl h
      · exact .inr List.mem_cons_self
    · exact .inr (List.mem_cons_of_mem _ h)

theorem mem_addNew {seen : List Schema} {s t : Schema}
    (hs : ∀ u ∈ seen, u.id = s.id → u = s) (h : t ∈ seen ∨ t = s) : t ∈ addNew seen s := by
  unfold addNew
  split
  · next hseen =>
    obtain ⟨u, hu, hid⟩ := List.any_eq_true.1 hseen
    have hus := hs u hu (by simpa using hid)
    exact h.elim (fun h => h) fun h => h ▸ hus ▸ hu
  · simpa using h

theorem mem_foldl_addNew {ss seen : List Schema} {t : Schema}
    (hall : ∀ u ∈ seen ++ ss, ∀ v ∈ ss, u.id = v.id → u = v) (h : t ∈ seen ∨ t ∈ ss) :
    t ∈ ss.foldl addNew seen := by
  induction ss generalizing seen with
  | nil => exact h.resolve_right List.not_mem_nil
  | cons s ss ih =>
    refine ih (fun u hu v hv => ?_) ?_
    · refine hall u ?_ v (List.mem_cons_of_mem _ hv)
      rcases List.mem_append.1 hu with hu | hu
      · rcases mem_of_mem_addNew hu with hu | rfl
        · exact List.mem_append_left _ hu
        · simp
      · exact List.mem_append_right _ (List.mem_cons_of_mem _ hu)
    · rw [List.mem_cons, ← or_assoc] at h
      refine h.imp_left fun h => mem_addNew (fun u hu hid => ?_) h
      exact hall u (List.mem_append_left _ hu) s List.mem_cons_self hid

theorem Grounded.find?_of_mem_lineage (hc : c.Grounded) {t : Schema} (ht : t ∈ c.lineage id) :
    c.find? t.id = some t := by
  induction c generalizing id with
  | nil => cases ht
  | cons s older ih =>
    have holder : ∀ {b}, t ∈ lineage older b → find? (s :: older) t.id = some t := by
      intro b ht
      have hfound := ih hc.2.2 ht
      rw [hc.find?_cons_of_isSome (by rw [hfound]; rfl), hfound]
    rw [lineage] at ht
    split at ht
    · rcases mem_of_mem_addNew ht with ht | rfl
      · rcases mem_of_mem_foldl_addNew ht with ht | ht
        · cases ht
        · obtain ⟨b, -, ht⟩ := List.mem_flatMap.1 ht
          exact holder ht
      · rw [find?_cons, if_pos rfl]
    · exact holder ht

theorem Grounded.eq_of_mem_lineage (hc : c.Grounded) {t u : Schema} {id' : SchemaId}
    (ht : t ∈ c.lineage id) (hu : u ∈ c.lineage id') (h : t.id = u.id) : t = u := by
  have hfound := hc.find?_of_mem_lineage ht
  rw [h, hc.find?_of_mem_lineage hu] at hfound
  exact (Option.some.inj hfound).symm

theorem Grounded.mem_lineage_cons_iff {s : Schema} {older : Catalog}
    (hc : Grounded (s :: older)) {t : Schema} :
    t ∈ lineage (s :: older) s.id ↔ t = s ∨ ∃ b ∈ s.bases, t ∈ lineage older b := by
  have hfold : ∀ {u}, u ∈ (s.bases.flatMap (lineage older)).foldl addNew [] ↔
      ∃ b ∈ s.bases, u ∈ lineage older b := by
    intro u
    rw [← List.mem_flatMap]
    constructor
    · exact fun hu => (mem_of_mem_foldl_addNew hu).resolve_left List.not_mem_nil
    · refine fun hu => mem_foldl_addNew (fun v hv w hw hvw => ?_) (.inr hu)
      obtain ⟨b, -, hv⟩ := List.mem_flatMap.1 (List.nil_append _ ▸ hv)
      obtain ⟨b', -, hw⟩ := List.mem_flatMap.1 hw
      exact hc.2.2.eq_of_mem_lineage hv hw hvw
  rw [lineage, if_pos rfl, ← hfold]
  constructor
  · exact fun ht => (mem_of_mem_addNew ht).symm
  · refine fun ht => mem_addNew (fun u hu hid => ?_) ht.symm
    -- nothing older has the identity of the newest schema
    obtain ⟨b, -, hu⟩ := hfold.1 hu
    have hfound := hc.2.2.find?_of_mem_lineage hu
    rw [hid, hc.1] at hfound
    cases hfound

/-- A lineage is the schema itself and the lineages of its bases. -/
theorem Grounded.mem_lineage_iff (hc : c.Grounded) {t : Schema} :
    t ∈ c.lineage id ↔
      ∃ s, c.find? id = some s ∧ (t = s ∨ ∃ b ∈ s.bases, t ∈ c.lineage b) := by
  induction c with
  | nil => simp [lineage, find?]
  | cons s older ih =>
    rw [find?_cons]
    by_cases hid : s.id = id
    · subst hid
      rw [if_pos rfl, hc.mem_lineage_cons_iff]
      simp only [Option.some.injEq, exists_eq_left']
      refine or_congr_right (exists_congr fun b => and_congr_right fun hb => ?_)
      rw [hc.lineage_cons_of_isSome (hc.2.1 b hb)]
    · rw [if_neg hid, lineage, if_neg hid, ih hc.2.2]
      refine exists_congr fun u => and_congr_right fun hu => or_congr_right ?_
      refine exists_congr fun b => and_congr_right fun hb => ?_
      rw [hc.lineage_cons_of_isSome (hc.2.2.isSome_of_mem_bases hu hb)]

theorem Grounded.exists_lineage (hc : c.Grounded) {s : Schema} (hs : c.find? id = some s) :
    ∃ front, c.lineage id = front ++ [s] := by
  induction c with
  | nil => cases hs
  | cons t older ih =>
    rw [find?_cons] at hs
    rw [lineage]
    split at hs
    · next hid =>
      cases hs
      rw [if_pos hid, addNew, if_neg]
      · exact ⟨_, rfl⟩
      · -- what the bases bring is older, so it has another identity
        intro hany
        obtain ⟨u, hu, huid⟩ := List.any_eq_true.1 hany
        have hmem := (mem_of_mem_foldl_addNew hu).resolve_left List.not_mem_nil
        obtain ⟨b, -, hu⟩ := List.mem_flatMap.1 hmem
        have hfound := hc.2.2.find?_of_mem_lineage hu
        rw [of_decide_eq_true huid, hc.1] at hfound
        cases hfound
    · next hid =>
      rw [if_neg hid]
      exact ih hc.2.2 hs

theorem Grounded.family?_of_rootedFamily? (hc : c.Grounded) {f : Family}
    (h : c.rootedFamily? id = some f) : c.family? id = some f := by
  obtain ⟨hfamily, -⟩ := Option.filter_eq_some_iff.1 h
  obtain ⟨s, hs, hsf⟩ := Option.bind_eq_some_iff.1 hfamily
  obtain ⟨front, hlineage⟩ := hc.exists_lineage hs
  rw [family?, hlineage, List.reverse_append]
  simp [hsf]

/-- No schema is twice in a lineage. -/
theorem lineage_nodup (c : Catalog) (id : SchemaId) : ((c.lineage id).map (·.id)).Nodup := by
  have hadd : ∀ {seen : List Schema} {s : Schema}, (seen.map (·.id)).Nodup →
      ((addNew seen s).map (·.id)).Nodup := by
    intro seen s hseen
    unfold addNew
    split
    · exact hseen
    · next hnew =>
      rw [List.map_append, List.nodup_append]
      refine ⟨hseen, by simp, ?_⟩
      rintro _ hu _ hs rfl
      obtain ⟨u, hu, hid⟩ := List.mem_map.1 hu
      refine hnew (List.any_eq_true.2 ⟨u, hu, ?_⟩)
      rw [hid]
      simpa using hs
  have hfold : ∀ {ss seen : List Schema}, (seen.map (·.id)).Nodup →
      ((ss.foldl addNew seen).map (·.id)).Nodup := by
    intro ss
    induction ss with
    | nil => exact fun h => h
    | cons s ss ih => exact fun h => ih (hadd h)
  induction c with
  | nil => exact List.nodup_nil
  | cons s older ih =>
    rw [lineage]
    split
    · exact hadd (hfold List.nodup_nil)
    · exact ih

theorem Grounded.induction (hc : c.Grounded) {P : SchemaId → Prop}
    (step : ∀ s, c.find? s.id = some s → (∀ b ∈ s.bases, P b) → P s.id)
    (h : (c.find? id).isSome) : P id := by
  suffices hall : ∀ older : Catalog, older.Grounded →
      (∀ s, find? older s.id = some s → c.find? s.id = some s) →
      ∀ id, (find? older id).isSome → P id from hall c hc (fun _ h => h) id h
  intro older
  induction older with
  | nil => exact fun _ _ _ h => by cases h
  | cons s older ih =>
    intro hs hfind id h
    have hih := ih hs.2.2 fun t ht =>
      hfind t (by rw [hs.find?_cons_of_isSome (by rw [ht]; rfl), ht])
    rw [find?_cons] at h
    split at h
    · next hid =>
      subst hid
      refine step s (hfind s ?_) fun b hb => hih b (hs.2.1 b hb)
      rw [find?_cons, if_pos rfl]
    · exact hih id h

/-! ## Extending -/

theorem extends?_iff {other : SchemaId} :
    c.extends? id other = true ↔ ∃ t ∈ c.lineage id, t.id = other := by
  unfold extends?
  simp

theorem directlyExtends?_iff {other : SchemaId} :
    c.directlyExtends? id other = true ↔ ∃ s, c.find? id = some s ∧ other ∈ s.bases := by
  unfold directlyExtends?
  cases c.find? id <;> simp

theorem Grounded.extends_self (hc : c.Grounded) (h : (c.find? id).isSome) :
    c.extends? id id = true := by
  obtain ⟨s, hs⟩ := Option.isSome_iff_exists.1 h
  exact extends?_iff.2 ⟨s, hc.mem_lineage_iff.2 ⟨s, hs, .inl rfl⟩, id_of_find? hs⟩

theorem Grounded.extends_iff (hc : c.Grounded) {s : Schema} (hs : c.find? id = some s)
    {other : SchemaId} :
    c.extends? id other = true ↔ id = other ∨ ∃ b ∈ s.bases, c.extends? b other = true := by
  simp only [extends?_iff]
  constructor
  · rintro ⟨t, ht, rfl⟩
    obtain ⟨s', hs', ht⟩ := hc.mem_lineage_iff.1 ht
    rw [hs] at hs'
    cases hs'
    rcases ht with rfl | ⟨b, hb, ht⟩
    · exact .inl (id_of_find? hs).symm
    · exact .inr ⟨b, hb, t, ht, rfl⟩
  · rintro (rfl | ⟨b, hb, t, ht, rfl⟩)
    · exact ⟨s, hc.mem_lineage_iff.2 ⟨s, hs, .inl rfl⟩, id_of_find? hs⟩
    · exact ⟨t, hc.mem_lineage_iff.2 ⟨s, hs, .inr ⟨b, hb, ht⟩⟩, rfl⟩

end GardenMap.Catalog
