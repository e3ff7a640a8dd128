import GardenMap.Proofs.Farm.Rereading

/-!
# Logs of readings

A log in which only finite measurements of declared names were recorded is read back from its wire
form as it was (`IsLog.read`). Recording such measurements does not fail, and it leaves a log, as
dropping old readings does.

Proof. A reading has a field for each measurement and nothing else; a field is absent or a finite
number, and both are read back as they are. The keys of a log are texts, so none is lost on the
wire.
-/

namespace GardenMap.Farm

/-- The readings of an hour have the schema of the farm. -/
structure HasWeather (d : Domain) : Prop where
  find : d.catalog.find? Id.hourlyWeather = schemas.find? Id.hourlyWeather
  lineage : d.catalog.lineage Id.hourlyWeather = schemas.lineage Id.hourlyWeather

theorem hasWeather_domain : HasWeather domain := ⟨rfl, rfl⟩

/-- A number that readings have a place for. -/
structure Measurement.Fits (c : Catalog) (m : Measurement) : Prop where
  declared : c.Declares Id.hourlyWeather m.name
  finite : Decimal.isFinite m.value = true

/-- A reading in which nothing is measured yet. -/
def blankReading : Record :=
  ⟨Id.hourlyWeather, hourlyWeather.fields.map fun f => (f.name, .null), []⟩

theorem eq_null_of_get?_blankReading {name : String} {y : Value}
    (hy : blankReading.get? name = some y) : y = .null := by
  obtain ⟨f, -, hf⟩ := List.mem_map.1 (Table.mem_of_get? hy)
  exact (congrArg Prod.snd hf).symm

/-- The readings of an hour: a field for each measurement, absent or finite. -/
structure IsReading (d : Domain) (r : Record) : Prop where
  schema : r.schema = Id.hourlyWeather
  whole : r.Whole d.catalog
  extra : r.extra = []
  value : ∀ name y, r.get? name = some y → y = .null ∨ ∃ x, y = .float x ∧ Decimal.isFinite x = true

/-- Readings by the text of the hour. -/
structure IsLog (d : Domain) (log : WeatherLog) : Prop where
  sorted : Table.Sorted log
  key : ∀ e ∈ log, ∃ s, e.1 = .str s
  reading : ∀ e ∈ log, ∃ r, e.2 = .record r ∧ IsReading d r

variable {d : Domain}

/-! ## The schema of readings -/

namespace HasWeather

theorem lineage_eq (h : HasWeather d) : d.catalog.lineage Id.hourlyWeather = [hourlyWeather] :=
  h.lineage

theorem rootedFamily?_eq_none (h : HasWeather d) :
    d.catalog.rootedFamily? Id.hourlyWeather = none := by
  unfold Catalog.rootedFamily?
  rw [h.find]
  rfl

theorem follow_eq (h : HasWeather d) (fs : List (String × Converter)) (es : Object) :
    d.follow es d.catalog.length ⟨Id.hourlyWeather, fs, none⟩ =
      .ok ⟨Id.hourlyWeather, fs, none⟩ :=
  Domain.follow_eq_self h.rootedFamily?_eq_none es _

theorem allFields_eq (h : HasWeather d) :
    d.catalog.allFields Id.hourlyWeather = hourlyWeather.fields := by
  unfold Catalog.allFields
  rw [h.lineage_eq]
  rfl

theorem shape_eq (h : HasWeather d) {g : Field} (hg : g ∈ d.catalog.allFields Id.hourlyWeather) :
    g.shape = .float := by
  have hall : ∀ g ∈ hourlyWeather.fields, g.shape = .float := by decide
  exact hall g (h.allFields_eq ▸ hg)

theorem exists_builds (h : HasWeather d) :
    ∃ fs, Builds d.catalog (.record Id.hourlyWeather) (.record Id.hourlyWeather fs) := by
  have hwell : (Shape.record Id.hourlyWeather).WellFormed d.catalog :=
    .record fun g hg => h.shape_eq hg ▸ .single rfl
  obtain ⟨conv, hb⟩ := exists_builds_iff.2 hwell
  obtain ⟨fs, rfl, -⟩ := hb.of_record
  exact ⟨fs, hb⟩

variable {fs : List (String × Converter)}

theorem eq_float (h : HasWeather d)
    (hb : Builds d.catalog (.record Id.hourlyWeather) (.record Id.hourlyWeather fs))
    {f : String × Converter} (hf : f ∈ fs) : f.2 = .scalar .float := by
  obtain ⟨fs', heq, -, hfields⟩ := hb.of_record
  cases heq
  obtain ⟨g, hg, -, hconv⟩ := hfields f hf
  exact HasPoints.eq_scalar_of_builds (h.shape_eq hg ▸ hconv) rfl

theorem hooked (h : HasWeather d)
    (hb : Builds d.catalog (.record Id.hourlyWeather) (.record Id.hourlyWeather fs)) :
    d.Hooked Id.hourlyWeather fs [] := by
  obtain ⟨fs', heq, hnames, -⟩ := hb.of_record
  cases heq
  refine ⟨hnames, fun r _ => ?_, fun e he => absurd he List.not_mem_nil⟩
  rw [h.lineage_eq]
  rfl

theorem newRecord_eq (h : HasWeather d) : d.newRecord Id.hourlyWeather = .ok blankReading := by
  obtain ⟨fs, hb⟩ := h.exists_builds
  have hd := h.hooked hb
  have htyped : d.fields fs [] [] = _ := Domain.fields_absent (fun _ _ => rfl) []
  rw [hd.names, h.allFields_eq] at htyped
  unfold Domain.newRecord
  rw [Domain.record_of_follow (Catalog.converter_eq_ok.2 hb) (h.follow_eq fs []) htyped,
    hd.assemble_eq htyped]
  rfl

end HasWeather

/-! ## Readings -/

namespace IsReading

variable {r : Record}

theorem restored (h : HasWeather d) (hr : IsReading d r) {fs : List (String × Converter)}
    (hb : Builds d.catalog (.record Id.hourlyWeather) (.record Id.hourlyWeather fs)) :
    d.apply (.record Id.hourlyWeather fs) (Value.record r).toRaw = .ok (.record r) := by
  have hd := h.hooked hb
  have hA : Domain.Fills.Assembled fs [] [] r.fields r := by
    refine ⟨hr.whole.sortedFields, hr.whole.sortedExtra, fun k => ?_, fun k => ?_,
      fun k y hy => .inl hy, fun e he => absurd he List.not_mem_nil⟩
    · rw [Bool.eq_iff_iff, decide_eq_true_eq, hr.whole.has_iff, hr.schema, hd.names]
      rfl
    · rw [hr.extra]
      split <;> rfl
  obtain ⟨hfields, hassemble⟩ := hA.same_again hd hr.schema fun f hf y hy => by
    rw [h.eq_float hb hf]
    rcases hr.value f.1 y hy with rfl | ⟨x, rfl, hfin⟩
    · exact Domain.apply_null _
    · obtain ⟨w, hw, -, hsame⟩ := Domain.restoredBy_scalar (d := d) (Scalar.Has.float x) hfin
      rw [hw, hsame trivial]
  rw [toRaw_record, Domain.apply_record_obj (h.follow_eq fs _) hfields, hassemble]

theorem isWhole (hr : IsReading d r) : (Value.record r).IsWhole := by
  have hfields : allFields (fun _ => True) Instant.IsWhole r.fields := by
    refine allFields_iff.2 fun e he => ?_
    rcases hr.value e.1 e.2 (Table.get?_of_mem hr.whole.sortedFields he) with heq | ⟨x, heq, -⟩ <;>
      rw [heq] <;> trivial
  obtain ⟨schema, fields, extra⟩ := r
  obtain rfl : extra = [] := hr.extra
  exact ⟨hfields, trivial⟩

theorem blank (h : HasWeather d) : IsReading d blankReading :=
  ⟨rfl, (Domain.Makes.new h.newRecord_eq).whole, rfl,
    fun _ _ hy => .inl (eq_null_of_get?_blankReading hy)⟩

theorem set (hr : IsReading d r) {m : Measurement} (hm : m.Fits d.catalog) :
    ∃ r', Record.set r m.name (.float m.value) = .ok r' ∧ IsReading d r' := by
  have hdecl : d.catalog.Declares r.schema m.name := by
    rw [hr.schema]
    exact hm.declared
  have hhas : (r.get? m.name).isSome = true := (hr.whole.has_iff m.name).2 hdecl
  refine ⟨r.put m.name (.float m.value), Record.set_of_has hhas _, hr.schema,
    hr.whole.put hdecl _, hr.extra, fun name y hy => ?_⟩
  unfold Record.get? Record.put at hy
  rw [Table.get?_put] at hy
  split at hy
  · cases hy
    exact .inr ⟨m.value, rfl, hm.finite⟩
  · exact hr.value name y hy

end IsReading

/-! ## Logs -/

namespace IsLog

variable {log : WeatherLog}

theorem nil : IsLog d [] :=
  ⟨Table.sorted_nil, fun _ h => absurd h List.not_mem_nil, fun _ h => absurd h List.not_mem_nil⟩

/-- A log is read back as it is. -/
theorem read (h : HasWeather d) (hlog : IsLog d log) :
    d.read weatherShape (Value.map log).toRaw = .ok (.map log) := by
  obtain ⟨fs, hb⟩ := h.exists_builds
  have hconv : Builds d.catalog weatherShape (.map .str (.record Id.hourlyWeather fs)) :=
    .map rfl hb
  have hkey : ∀ e ∈ log, e.1.RestoredBy .str := fun e he => by
    obtain ⟨s, hs⟩ := hlog.key e he
    rw [hs]
    exact ⟨.str s, rfl, rfl, fun _ => rfl⟩
  have hvalue : ∀ e ∈ log, e.2.RestoredBy (d.apply (.record Id.hourlyWeather fs)) := fun e he => by
    obtain ⟨r, hr, hreading⟩ := hlog.reading e he
    rw [hr]
    exact .same (hreading.restored h hb)
  have hwhole : ∀ e ∈ log, e.1.IsWhole ∧ e.2.IsWhole := fun e he => by
    obtain ⟨s, hs⟩ := hlog.key e he
    obtain ⟨r, hr, hreading⟩ := hlog.reading e he
    rw [hs, hr]
    exact ⟨trivial, hreading.isWhole⟩
  obtain ⟨log', hlog', -⟩ := Domain.reread_map (fun e he => (hkey e he).reread)
    fun e he => (hvalue e he).reread
  obtain rfl := Domain.entries_eq_of_whole hlog.sorted hkey hvalue hwhole hlog'
  unfold Domain.read
  rw [Catalog.converter_eq_ok.2 hconv, Value.toRaw]
  simp only
  rw [Domain.apply_map_obj hlog']
  rfl

theorem put (hlog : IsLog d log) (hour : Instant) {r : Record} (hr : IsReading d r) :
    IsLog d (Table.put log (.str hour.text) (.record r)) := by
  refine ⟨Table.sorted_put hlog.sorted _ _, fun e he => ?_, fun e he => ?_⟩
  all_goals rcases Table.mem_of_mem_put he with rfl | he
  · exact ⟨_, rfl⟩
  · exact hlog.key e he
  · exact ⟨r, rfl, hr⟩
  · exact hlog.reading e he

theorem recordMeasurement (h : HasWeather d) (hlog : IsLog d log) {m : Measurement}
    (hm : m.Fits d.catalog) :
    ∃ log', Farm.recordMeasurement d log m.hour m.name m.value = (log', .ok ()) ∧ IsLog d log' := by
  have hstore : ∀ {log : WeatherLog} {r : Record}, IsLog d log → IsReading d r →
      ∃ log', recordMeasurement.store m.name m.value log (.str m.hour.text) r = (log', .ok ()) ∧
        IsLog d log' := by
    intro log r hlog hr
    obtain ⟨r', hset, hr'⟩ := hr.set hm
    refine ⟨_, ?_, hlog.put m.hour hr'⟩
    simp only [recordMeasurement.store, hset]
  unfold Farm.recordMeasurement
  simp only
  cases hget : Table.get? log (.str m.hour.text) with
  | some held =>
    obtain ⟨r, rfl, hr⟩ := hlog.reading _ (Table.mem_of_get? hget)
    exact hstore hlog hr
  | none =>
    simp only [Option.getD_none, Value.record?, h.newRecord_eq]
    exact hstore (hlog.put m.hour (.blank h)) (.blank h)

theorem recordAll (h : HasWeather d) (hlog : IsLog d log) {ms : List Measurement}
    (hms : ∀ m ∈ ms, m.Fits d.catalog) :
    ∃ log', Farm.recordAll d log ms = (log', .ok ()) ∧ IsLog d log' := by
  induction ms generalizing log with
  | nil => exact ⟨log, rfl, hlog⟩
  | cons m ms ih =>
    obtain ⟨hm, hms⟩ := List.forall_mem_cons.1 hms
    obtain ⟨log₁, hrecord, hlog₁⟩ := hlog.recordMeasurement h hm
    obtain ⟨log₂, hrest, hlog₂⟩ := ih hlog₁ hms
    refine ⟨log₂, ?_, hlog₂⟩
    rw [Farm.recordAll, hrecord]
    exact hrest

theorem prune (hlog : IsLog d log) (now : Instant) (maxAge : Option Int) :
    IsLog d (pruneWeather log now maxAge).1 := by
  unfold pruneWeather
  split
  · exact hlog
  · exact ⟨Table.sorted_filter hlog.sorted _, fun e he => hlog.key e (List.mem_filter.1 he).1,
      fun e he => hlog.reading e (List.mem_filter.1 he).1⟩

end IsLog

end GardenMap.Farm
