import GardenMap.Proofs.Farm.Members
import GardenMap.Proofs.Farm.Saving
import GardenMap.Proofs.Farm.WeatherLog
import GardenMap.Proofs.Query.Compiled

/-!
# The weather over runs

Refreshing the weather again and again against a store does to the log what the same updates do to
a log that never leaves memory (`refreshes_keep_log`). The log is kept in one point, which the first
refresh adds; later ones find it and change it in place.

Proof. Between refreshes there is a point whose metadata is the wire form of the log, and only this
one has the name and the tag of the weather (`Stores`). A refresh reads the log back as it was,
changes it, and writes it; what is written differs from what is sent in stamps only, so the point
found by the next refresh holds the changed log. The first refresh starts from a new point, which
holds the empty log.
-/

namespace GardenMap.Farm

open PointStore

/-- A refresh: when it runs, when the point is written, how long readings are kept and what is done
to them. -/
structure Refresh where
  now : Instant
  written : Instant
  maxAge : Option Int
  update : WeatherLog → Except Error WeatherLog

/-- An update that does nothing to a log but record measurements that fit. Which ones they are may
depend on the log. -/
def OnlyRecords (d : Domain) (update : WeatherLog → Except Error WeatherLog) : Prop :=
  ∀ log log', IsLog d log → update log = .ok log' →
    ∃ ms : List Measurement, (∀ m ∈ ms, m.Fits d.catalog) ∧ recordAll d log ms = (log', .ok ())

/-- The update that records measurements, up to the first that fails. -/
def recording (d : Domain) (ms : List Measurement) (log : WeatherLog) : Except Error WeatherLog :=
  match recordAll d log ms with
  | (log, .ok ()) => .ok log
  | (_, .error e) => .error e

def Refresh.onLog (refresh : Refresh) (log : WeatherLog) : Except Error WeatherLog := do
  return (pruneWeather (← refresh.update log) refresh.now refresh.maxAge).1

/-- A log that stays in memory after refreshes, up to the first that fails. -/
def logAfter (log : WeatherLog) (refreshes : List Refresh) : Except Error WeatherLog :=
  refreshes.foldlM (fun log refresh => refresh.onLog log) log

namespace Session

def refresh (session : Session) (refresh : Refresh) (s : PointStore) :
    Except Error Record × PointStore :=
  { session with now := refresh.now }.refreshWeather (PointStore.service refresh.written)
    refresh.maxAge refresh.update s

/-- Refreshes against a store, up to the first that fails. -/
def refreshAll (session : Session) : List Refresh → PointStore →
    Except Error (List Record) × PointStore
  | [], s => (.ok [], s)
  | refresh :: refreshes, s =>
    match session.refresh refresh s with
    | (.error e, s) => (.error e, s)
    | (.ok point, s) =>
      match session.refreshAll refreshes s with
      | (.error e, s) => (.error e, s)
      | (.ok points, s) => (.ok (point :: points), s)

end Session

/-- Whether a point has the name and the tag of the one that keeps the weather. -/
def IsWeatherPoint (point : Object) : Prop :=
  Table.get? point "name" = some (.str weatherPointName) ∧
    Table.get? point pointerType = some (.str genericPointer)

variable {d : Domain}

/-! ## Points that hold a log -/

/-- A point that keeps a log: it is the point of the weather, it can be saved, and its metadata is
the log. -/
structure HoldsLog (d : Domain) (p : Record) (log : WeatherLog) : Prop where
  saveable : Saveable d p
  weather : IsWeatherPoint p.rawEntries
  isLog : IsLog d log
  held : Table.get? p.rawEntries "meta" = some (Value.map log).toRaw

namespace HoldsLog

variable {p : Record} {log : WeatherLog}

theorem exists_meta (h : HasPoints d) (hp : HoldsLog d p log) :
    ∃ v, p.get? "meta" = some v ∧ v.toRaw = (Value.map log).toRaw := by
  have hwhole := hp.saveable.whole
  have hhas := (hwhole.has_iff "meta").2 (h.declares hp.saveable.schema (by decide))
  obtain ⟨v, hv⟩ := Option.isSome_iff_exists.1 hhas
  exact ⟨v, hv, Option.some.inj ((hwhole.get?_raw hv).symm.trans hp.held)⟩

theorem load (h : HasPoints d) (hw : HasWeather d) (hp : HoldsLog d p log) :
    loadWeather d p = .ok log := by
  obtain ⟨v, hv, hraw⟩ := hp.exists_meta h
  have hnull : v.isNull = false := by
    refine Bool.eq_false_iff.2 fun hnull => ?_
    rw [toRaw_of_isNull hnull] at hraw
    cases hraw
  unfold loadWeather
  rw [hv, Option.filter_some, hnull]
  simp only [Bool.not_false, if_true, hraw, hp.isLog.read hw]
  rfl

theorem put (h : HasPoints d) (hp : HoldsLog d p log) {log' : WeatherLog} (hlog' : IsLog d log') :
    HoldsLog d (p.put "meta" (.map log')) log' := by
  have hraw := Saveable.get?_rawEntries_put hp.saveable.whole "meta" (.map log')
  refine ⟨hp.saveable.put_meta h hlog'.key, ⟨?_, ?_⟩, hlog', ?_⟩
  · rw [hraw, if_neg (by decide)]
    exact hp.weather.1
  · rw [hraw, if_neg (by decide)]
    exact hp.weather.2
  · rw [hraw, if_pos rfl]

theorem weather_of_eq (hp : HoldsLog d p log) {es : Object}
    (hes : ∀ k ∉ stamps, Table.get? es k = Table.get? p.rawEntries k) : IsWeatherPoint es := by
  refine ⟨?_, ?_⟩
  · rw [hes _ (by decide)]
    exact hp.weather.1
  · rw [hes _ (by decide)]
    exact hp.weather.2

theorem of_eq (hp : HoldsLog d p log) {q : Record} (hq : Saveable d q)
    (hraw : ∀ k ∉ stamps, Table.get? q.rawEntries k = Table.get? p.rawEntries k) :
    HoldsLog d q log :=
  ⟨hq, hp.weather_of_eq hraw, hp.isLog, (hraw "meta" (by decide)).trans hp.held⟩

end HoldsLog

/-! ## Logs in memory -/

theorem recording_eq_ok {ms : List Measurement} {log log' : WeatherLog} :
    recording d ms log = .ok log' ↔ recordAll d log ms = (log', .ok ()) := by
  unfold recording
  rcases recordAll d log ms with ⟨updated, _ | _⟩ <;> simp

theorem onlyRecords_recording {ms : List Measurement} (hms : ∀ m ∈ ms, m.Fits d.catalog) :
    OnlyRecords d (recording d ms) :=
  fun _ _ _ h => ⟨ms, hms, recording_eq_ok.1 h⟩

theorem IsLog.onLog (hw : HasWeather d) {log log' : WeatherLog} (hlog : IsLog d log)
    {refresh : Refresh} (honly : OnlyRecords d refresh.update) (h : refresh.onLog log = .ok log') :
    IsLog d log' := by
  obtain ⟨updated, hupdate, h⟩ := Scalar.ok_of_bind h
  obtain ⟨ms, hms, hrecord⟩ := honly log updated hlog hupdate
  obtain ⟨log₁, hrecord₁, hlog₁⟩ := hlog.recordAll hw hms
  cases hrecord.symm.trans hrecord₁
  cases h
  exact hlog₁.prune _ _

theorem exists_logAfter (hw : HasWeather d) {refreshes : List Refresh}
    (h : ∀ refresh ∈ refreshes, ∃ ms, (∀ m ∈ ms, m.Fits d.catalog) ∧
      refresh.update = recording d ms) {log : WeatherLog} (hlog : IsLog d log) :
    ∃ log', logAfter log refreshes = .ok log' := by
  induction refreshes generalizing log with
  | nil => exact ⟨log, rfl⟩
  | cons refresh refreshes ih =>
    obtain ⟨⟨ms, hms, hupdate⟩, h⟩ := List.forall_mem_cons.1 h
    obtain ⟨updated, hrecord, -⟩ := hlog.recordAll hw hms
    have hstep : refresh.onLog log = .ok (pruneWeather updated refresh.now refresh.maxAge).1 := by
      unfold Refresh.onLog
      rw [hupdate, recording_eq_ok.2 hrecord]
      rfl
    obtain ⟨log', hrest⟩ := ih h (hlog.onLog hw (hupdate ▸ onlyRecords_recording hms) hstep)
    refine ⟨log', ?_⟩
    unfold logAfter
    rw [List.foldlM_cons, hstep]
    exact hrest

/-! ## New points -/

/-- The fields of a new point with a name that are not absent. -/
def namedFills (name : String) : List (String × Value) :=
  ("name", .str name) :: pointFills Id.point

theorem eq_of_mem_namedFills {name : String} {e : String × Value} (he : e ∈ namedFills name)
    {v : Value} (hv : (e.1, v) ∈ namedFills name) : v = e.2 := by
  have hnodup : ((namedFills name).map (·.1)).Nodup := by
    show ["name", pointerType, "meta", "x", "y", "z", "radius"].Nodup
    decide
  exact congrArg Prod.snd (List.inj_on_of_nodup_map hnodup hv he rfl)

/-- A new point with a name: it has the name, what hooks fill and nothing else. -/
structure IsNamed (name : String) (p : Record) : Prop where
  extra : p.extra = []
  value : ∀ k y, p.get? k = some y → y = .null ∨ (k, y) ∈ namedFills name
  filled : ∀ e ∈ namedFills name, p.get? e.1 = some e.2

theorem get?_named (name k : String) : Table.get? [("name", Json.str name)] k =
    if k = "name" then some (.str name) else none :=
  Table.get?_cons ..

namespace HasPoints

variable {name : String} {fs : List (String × Converter)} {typed : List (String × Value)}

theorem apply_named (h : HasPoints d)
    (hb : Builds d.catalog (.record Id.point) (.record Id.point fs)) {f : String × Converter}
    (hf : f ∈ fs) : d.apply f.2 ((Table.get? [("name", Json.str name)] f.1).getD .null) =
      .ok (if f.1 = "name" then .str name else .null) := by
  rw [get?_named]
  by_cases hname : f.1 = "name"
  · have hall : ∀ g ∈ schemas.allFields Id.point, g.name = "name" → g.shape = .str := by decide
    obtain ⟨fs', heq, -, hfields⟩ := hb.of_record
    cases heq
    obtain ⟨g, hg, hgname, hconv⟩ := hfields f hf
    rw [h.allFields_eq (by decide)] at hg
    rw [hall g hg (hgname.trans hname)] at hconv
    rw [if_pos hname, if_pos hname, eq_scalar_of_builds hconv rfl, Domain.apply_scalar]
    rfl
  · rw [if_neg hname, if_neg hname]
    exact Domain.apply_null _

theorem field_named (h : HasPoints d)
    (hb : Builds d.catalog (.record Id.point) (.record Id.point fs))
    (htyped : d.fields fs [("name", Json.str name)] [] = .ok typed) {p : Record}
    (hA : Domain.Fills.Assembled fs (pointFills Id.point) [("name", .str name)] typed p)
    {f : String × Converter} (hf : f ∈ fs) :
    ∃ y, p.get? f.1 = some y ∧ (y = .null ∧ f.1 ≠ "name" ∨ (f.1, y) ∈ namedFills name) := by
  obtain ⟨y, hy, -, x, hx, hyx⟩ := hA.origin (h.fills (by decide) hb).hooked htyped hf
  rw [h.apply_named hb hf, Except.ok.injEq] at hx
  refine ⟨y, hy, ?_⟩
  rcases hyx with rfl | ⟨hfill, -⟩
  · by_cases hname : f.1 = "name"
    · rw [if_pos hname] at hx
      rw [← hx, hname]
      exact .inr List.mem_cons_self
    · rw [if_neg hname] at hx
      exact .inl ⟨hx.symm, hname⟩
  · exact .inr (List.mem_cons_of_mem _ hfill)

theorem isNamed_of_assembled (h : HasPoints d)
    (hb : Builds d.catalog (.record Id.point) (.record Id.point fs))
    (htyped : d.fields fs [("name", Json.str name)] [] = .ok typed) {p : Record}
    (hA : Domain.Fills.Assembled fs (pointFills Id.point) [("name", .str name)] typed p) :
    IsNamed name p := by
  have hd := (h.fills (by decide) hb).hooked
  have hdecl : ∀ k ∈ "name" :: fillShapes.map (·.1), k ∈ fs.map (·.1) := by
    have hsub : "name" :: fillShapes.map (·.1) ⊆ "name" :: stamps ++ fillShapes.map (·.1) := by
      decide
    intro k hk
    rw [hd.names]
    exact h.declares (show Id.point ∈ pointIds by decide) (hsub hk)
  refine ⟨?_, fun k y hy => ?_, fun e he => ?_⟩
  · refine List.eq_nil_iff_forall_not_mem.2 fun e he => ?_
    have hextra := (hA.extra e.1).symm.trans (Table.get?_of_mem hA.sortedExtra he)
    split at hextra
    · cases hextra
    · next hno =>
      have hname : e.1 ≠ "name" := fun heq => hno (heq ▸ hdecl "name" List.mem_cons_self)
      rw [get?_named, if_neg hname] at hextra
      cases hextra
  · have hhas := hA.has k
    rw [Table.has, show Table.get? p.fields k = some y from hy, Option.isSome_some, eq_comm,
      decide_eq_true_eq] at hhas
    obtain ⟨f, hf, rfl⟩ := List.mem_map.1 hhas
    obtain ⟨y', hy', hvalue⟩ := h.field_named hb htyped hA hf
    cases hy'.symm.trans hy
    exact hvalue.imp And.left id
  · have hkey : e.1 ∈ "name" :: fillShapes.map (·.1) := List.mem_map_of_mem he
    obtain ⟨f, hf, hfe⟩ := List.mem_map.1 (hdecl _ hkey)
    obtain ⟨y, hy, hvalue⟩ := h.field_named hb htyped hA hf
    rw [hfe] at hy hvalue
    rcases hvalue with ⟨rfl, hname⟩ | hvalue
    · have hfill : e ∈ pointFills Id.point :=
        (List.mem_cons.1 he).resolve_left fun heq => hname (congrArg Prod.fst heq)
      cases hA.present e hfill _ hy
    · rw [← eq_of_mem_namedFills he hvalue]
      exact hy

theorem exists_named (h : HasPoints d) (name : String) :
    ∃ p, d.record Id.point (.obj [("name", .str name)]) = .ok p ∧ IsNamed name p := by
  obtain ⟨fs, hb⟩ := h.exists_builds (show Id.point ∈ pointIds by decide)
  obtain ⟨typed, htyped⟩ := Domain.exists_fields (fun f hf => ⟨_, h.apply_named hb hf⟩) []
  exact ⟨_, h.record_obj_iff.2 ⟨fs, typed, hb, htyped, rfl⟩, h.isNamed_of_assembled hb htyped
    ((h.fills (by decide) hb).hooked.assembled (List.pairwise_singleton _ _) htyped)⟩

end HasPoints

theorem HasPoints.exists_unstored (h : HasPoints d) :
    ∃ p, d.recordWith Id.point [] [("name", .str weatherPointName)] = .ok p ∧ HoldsLog d p [] ∧
      p.int? "id" = none := by
  obtain ⟨p, hp, hnamed⟩ := h.exists_named weatherPointName
  have hsorted : Table.Sorted [("name", Json.str weatherPointName)] := List.pairwise_singleton _ _
  have hfrom := h.readFrom hsorted hp
  have hraw : ∀ e ∈ namedFills weatherPointName, Table.get? p.rawEntries e.1 = some e.2.toRaw :=
    fun e he => hfrom.whole.get?_raw (hnamed.filled e he)
  have hfin : (Value.record p).IsFinite := by
    have hfields : allFields (fun x => Decimal.isFinite x = true) (fun _ => True) p.fields := by
      refine allFields_iff.2 fun e he => ?_
      rcases hnamed.value e.1 e.2 (Table.get?_of_mem hfrom.whole.sortedFields he) with heq | hmem
      · rw [heq]
        trivial
      · rcases List.mem_cons.1 hmem with heq | hfill
        · rw [congrArg Prod.snd heq]
          trivial
        · exact (Joins.isFinite_of_mem_pointFills hfill).1
    obtain ⟨schema, fields, extra⟩ := p
    obtain rfl : extra = [] := hnamed.extra
    exact ⟨hfields, trivial⟩
  have hsave := h.saveable hfrom.schema hfrom.whole hfrom.typed hfin hfrom.tag hfrom.present
  refine ⟨p, hp, ⟨hsave, ⟨?_, ?_⟩, .nil, ?_⟩, ?_⟩
  · exact hraw ("name", .str weatherPointName) (by simp [namedFills])
  · exact hraw (pointerType, .str (pointFamily.tagOf Id.point)) (by simp [namedFills, pointFills])
  · exact hraw ("meta", .map []) (by simp [namedFills, pointFills])
  · unfold Record.int?
    cases hid : p.get? "id" with
    | none => rfl
    | some y =>
      rcases hnamed.value "id" y hid with rfl | hmem
      · rfl
      · simp [namedFills, pointFills, pointerType] at hmem

/-! ## Finding the point -/

/-- The filter for the point of the weather. -/
def weatherFilter : Object :=
  Table.put [("name", .str weatherPointName)] pointerType (.str genericPointer)

theorem meetsAll_weatherFilter {point : Object} :
    meetsAll weatherFilter point = true ↔ IsWeatherPoint point := by
  have hget : ∀ key text, ((Table.get? point key).getD .null).str? = some text ↔
      Table.get? point key = some (.str text) := by
    intro key text
    cases Table.get? point key with
    | none => simp [Json.str?]
    | some v => cases v <;> simp [Json.str?]
  rw [show weatherFilter =
    [("name", .str weatherPointName), (pointerType, .str genericPointer)] from rfl]
  simp only [meetsAll, Bool.and_true, Bool.and_eq_true, meets_str, hget]
  rfl

theorem filter_weatherFilter_eq_nil {points : List Object}
    (h : ∀ point ∈ points, ¬IsWeatherPoint point) :
    points.filter (meetsAll weatherFilter) = [] :=
  List.filter_eq_nil_iff.2 fun point hpoint => mt meetsAll_weatherFilter.1 (h point hpoint)

namespace Session

variable {session : Session} {p : Record} {log : WeatherLog} {before : List Object} {w : Object}
  {s : PointStore} {now : Instant}

theorem genericPointers_weather (session : Session) (now : Instant) (s : PointStore) :
    session.genericPointers (PointStore.service now) [("name", .str weatherPointName)] s =
      (session.records Id.point (s.search weatherFilter).1, (s.search weatherFilter).2) :=
  rfl

theorem weatherPoint_of_none (hnone : ∀ point ∈ s.points, ¬IsWeatherPoint point)
    (hp : session.domain.recordWith Id.point [] [("name", .str weatherPointName)] = .ok p) :
    session.weatherPoint (PointStore.service now) s = (.ok p, (s.search weatherFilter).2) := by
  have hsearch : (s.search weatherFilter).1 = [] :=
    congrArg (List.map Json.obj) (filter_weatherFilter_eq_nil hnone)
  unfold weatherPoint
  rw [genericPointers_weather, hsearch]
  simp only [records, List.mapM_nil, pure, Except.pure, hp]

theorem weatherPoint_of_last (hs : s.points = before ++ [w])
    (hnone : ∀ point ∈ before, ¬IsWeatherPoint point) (hw : IsWeatherPoint w)
    (hp : session.domain.record Id.point (.obj w) = .ok p) :
    session.weatherPoint (PointStore.service now) s = (.ok p, (s.search weatherFilter).2) := by
  have hsearch : (s.search weatherFilter).1 = [.obj w] := by
    unfold search
    rw [hs, List.filter_append, filter_weatherFilter_eq_nil hnone,
      List.filter_cons_of_pos (meetsAll_weatherFilter.2 hw)]
    rfl
  unfold weatherPoint
  rw [genericPointers_weather, hsearch, records_singleton hp]

/-! ## One refresh -/

theorem refreshed_eq (h : HasPoints session.domain) (hw : HasWeather session.domain)
    (hp : HoldsLog session.domain p log) (refresh : Refresh) :
    { session with now := refresh.now }.refreshed refresh.maxAge refresh.update p =
      (refresh.onLog log).map fun log' => p.put "meta" (.map log') := by
  obtain ⟨v, hv, -⟩ := hp.exists_meta h
  have hset : ∀ log', storeWeather p log' = .ok (p.put "meta" (.map log')) :=
    fun log' => Record.set_of_has (by rw [hv]; rfl) _
  unfold refreshed Refresh.onLog
  simp only [hp.load h hw, hset]
  show (refresh.update log >>= fun updated => _) = _
  cases refresh.update log <;> rfl

theorem refresh_eq (h : HasPoints session.domain) (hw : HasWeather session.domain)
    (hp : HoldsLog session.domain p log) {refresh : Refresh} {s' : PointStore}
    (hfound : { session with now := refresh.now }.weatherPoint
      (PointStore.service refresh.written) s = (.ok p, s')) :
    session.refresh refresh s =
      match refresh.onLog log with
      | .error e => (.error e, s')
      | .ok log' =>
        session.putPoint (PointStore.service refresh.written) (p.put "meta" (.map log')) s' := by
  unfold Session.refresh refreshWeather
  rw [hfound]
  simp only [refreshed_eq h hw hp]
  cases refresh.onLog log <;> rfl

end Session

/-! ## The stored point -/

/-- A stored point of the weather, what it is read as, and the log that this holds. -/
structure Stores (d : Domain) (w : Object) (id : Int) (p : Record) (log : WeatherLog) : Prop where
  sorted : Table.Sorted w
  named : id? w = some id
  weather : IsWeatherPoint w
  read : d.record Id.point (.obj w) = .ok p
  holds : HoldsLog d p log

/-- A store that has one more point than before, and this one keeps a log. -/
def Keeps (d : Domain) (before : List Object) (id : Int) (log : WeatherLog) (p : Record)
    (s : PointStore) : Prop :=
  ∃ w, s.points = before ++ [w] ∧ Stores d w id p log

theorem Stores.int?_id (h : HasPoints d) {w : Object} {id : Int} {p : Record} {log : WeatherLog}
    (hs : Stores d w id p log) : p.int? "id" = some id := by
  unfold Record.int?
  rw [h.get?_id (h.readFrom hs.sorted hs.read) hs.named]
  rfl

namespace Session

variable {session : Session} {p : Record} {log : WeatherLog} {before : List Object} {w : Object}
  {s : PointStore} {id : Int}

theorem putPoint_new (h : HasPoints session.domain) (hmode : session.settings.testMode = false)
    (hp : HoldsLog session.domain p log) (hnew : p.int? "id" = none)
    (hfits : Decimal.fitsInt s.nextId = true) (written : Instant) :
    ∃ q s', session.putPoint (PointStore.service written) p s = (.ok q, s') ∧
      Keeps session.domain s.points s.nextId log q s' := by
  obtain ⟨q, hq, hsave, -, hraw⟩ := hp.saveable.reread_stamped h hfits written
  have hcreate : (PointStore.service written).create p.toRaw s =
      (.ok (.obj (stamped p.rawEntries s.nextId written)),
        s.after [(written, .create (.obj p.rawEntries))]) := by
    rw [toRaw_eq_obj]
    rfl
  exact ⟨q, _, putPoint_of_create hmode hnew hcreate hq, stamped p.rawEntries s.nextId written, rfl,
    Table.sorted_putAll p.sorted_rawEntries _, id?_stamped p.rawEntries hfits written,
    hp.weather_of_eq fun k hk => get?_stamped_of_not_stamp _ _ _ hk, hq, hp.of_eq hsave hraw⟩

theorem putPoint_stored (h : HasPoints session.domain) (hmode : session.settings.testMode = false)
    (hs : s.points = before ++ [w]) (hothers : ∀ point ∈ before, id? point ≠ some id)
    (hstores : Stores session.domain w id p log) {log' : WeatherLog}
    (hlog' : IsLog session.domain log') (written : Instant) :
    ∃ q s', session.putPoint (PointStore.service written) (p.put "meta" (.map log')) s =
        (.ok q, s') ∧ Keeps session.domain before id log' q s' := by
  have hfrom := h.readFrom hstores.sorted hstores.read
  have hsame : p.Untouched ["id"] (p.put "meta" (.map log')) := Record.Untouched.put (by decide) _
  have hput := hstores.holds.put h hlog'
  -- what is saved matters only by what it leaves alone and by the log that it holds
  generalize p.put "meta" (.map log') = r at hsame hput ⊢
  obtain ⟨q, hq, hsave, -, hraw⟩ :=
    hput.saveable.reread_overlaid h hstores.sorted hfrom hsame (by decide) hstores.named written
  have hentry : ∀ k ∉ stamps, Table.get? (overlaid w r.rawEntries written) k =
      Table.get? r.rawEntries k := fun k hk => hput.saveable.get?_overlaid h hfrom hsame (by decide)
    hstores.named written fun hmem => hk (List.mem_cons_of_mem "id" hmem)
  have hid : r.int? "id" = some id := by
    unfold Record.int?
    rw [hsame.field "id" (by decide)]
    exact hstores.int?_id h
  have hupdate : (PointStore.service written).update id r.toRaw s =
      (.ok (.obj (overlaid w r.rawEntries written)),
        { s with points := before ++ [overlaid w r.rawEntries written] }) := by
    rw [toRaw_eq_obj]
    exact update_of_id hs hstores.named (by simpa using hothers) written
  exact ⟨q, _, putPoint_of_update hmode hid hupdate hq, overlaid w r.rawEntries written, rfl,
    Table.sorted_put (Table.sorted_putAll hstores.sorted _) _ _,
    (id?_overlaid w r.rawEntries written).trans hstores.named, hput.weather_of_eq hentry, hq,
    hput.of_eq hsave fun k hk => hraw k fun hmem => hk (List.mem_cons_of_mem "id" hmem)⟩

/-- The next refresh of a store does what it does to a log: it fails with it, or the store keeps
what it comes to. -/
structure Ready (session : Session) (before : List Object) (id : Int) (log : WeatherLog)
    (s : PointStore) : Prop where
  failed : ∀ refresh : Refresh, OnlyRecords session.domain refresh.update → ∀ e,
    refresh.onLog log = .error e → (session.refresh refresh s).1 = .error e
  done : ∀ refresh : Refresh, OnlyRecords session.domain refresh.update → ∀ log',
    refresh.onLog log = .ok log' → ∃ q s', session.refresh refresh s = (.ok q, s') ∧
      Keeps session.domain before id log' q s'

theorem ready_of_found (h : HasPoints session.domain) (hw : HasWeather session.domain)
    (hp : HoldsLog session.domain p log) {s' : PointStore}
    (hfound : ∀ now written,
      { session with now := now }.weatherPoint (PointStore.service written) s = (.ok p, s'))
    (hput : ∀ log', IsLog session.domain log' → ∀ written, ∃ q s'',
      session.putPoint (PointStore.service written) (p.put "meta" (.map log')) s' = (.ok q, s'') ∧
        Keeps session.domain before id log' q s'') :
    session.Ready before id log s := by
  refine ⟨fun refresh _ e he => ?_, fun refresh honly log' hlog' => ?_⟩
  · rw [refresh_eq h hw hp (hfound refresh.now refresh.written), he]
  · rw [refresh_eq h hw hp (hfound refresh.now refresh.written), hlog']
    exact hput log' (hp.isLog.onLog hw honly hlog') refresh.written

theorem ready_of_none (h : HasPoints session.domain) (hw : HasWeather session.domain)
    (hmode : session.settings.testMode = false) (hfits : Decimal.fitsInt s.nextId = true)
    (hnone : ∀ point ∈ s.points, ¬IsWeatherPoint point) :
    session.Ready s.points s.nextId [] s := by
  obtain ⟨p, hp, hholds, hnew⟩ := h.exists_unstored
  refine ready_of_found h hw hholds (fun now written => weatherPoint_of_none hnone hp) ?_
  intro log' hlog' written
  refine putPoint_new (s := (s.search weatherFilter).2) h hmode (hholds.put h hlog') ?_ hfits
    written
  have hsame : p.Untouched ["id"] (p.put "meta" (.map log')) := Record.Untouched.put (by decide) _
  unfold Record.int?
  rw [hsame.field "id" (by decide)]
  exact hnew

theorem ready_of_keeps (h : HasPoints session.domain) (hw : HasWeather session.domain)
    (hmode : session.settings.testMode = false) (hothers : ∀ point ∈ before, id? point ≠ some id)
    (hnone : ∀ point ∈ before, ¬IsWeatherPoint point)
    (hkeeps : Keeps session.domain before id log p s) : session.Ready before id log s := by
  obtain ⟨w, hs, hstores⟩ := hkeeps
  refine ready_of_found h hw hstores.holds (fun now written => weatherPoint_of_last hs hnone
    hstores.weather hstores.read) fun log' hlog' written => ?_
  exact putPoint_stored (s := (s.search weatherFilter).2) h hmode hs hothers hstores hlog' written

/-! ## Runs -/

theorem refreshAll_cons_of_error {refresh : Refresh} {e : Error}
    (h : (session.refresh refresh s).1 = .error e) (refreshes : List Refresh) :
    (session.refreshAll (refresh :: refreshes) s).1 = .error e := by
  unfold refreshAll
  split
  · next e' _ heq =>
    rw [heq] at h
    cases h
    rfl
  · next heq =>
    rw [heq] at h
    cases h

theorem refreshAll_cons_of_ok {refresh : Refresh} {q : Record} {s' : PointStore}
    (h : session.refresh refresh s = (.ok q, s')) (refreshes : List Refresh) :
    session.refreshAll (refresh :: refreshes) s =
      ((session.refreshAll refreshes s').1.map (q :: ·), (session.refreshAll refreshes s').2) := by
  rw [refreshAll, h]
  simp only
  rcases session.refreshAll refreshes s' with ⟨_ | _, _⟩ <;> rfl

theorem refreshAll_of_ready (h : HasPoints session.domain) (hw : HasWeather session.domain)
    (hmode : session.settings.testMode = false) (hothers : ∀ point ∈ before, id? point ≠ some id)
    (hnone : ∀ point ∈ before, ¬IsWeatherPoint point) {refreshes : List Refresh}
    (honly : ∀ refresh ∈ refreshes, OnlyRecords session.domain refresh.update)
    (hne : refreshes ≠ []) (hs : session.Ready before id log s) :
    (∀ e, logAfter log refreshes = .error e → (session.refreshAll refreshes s).1 = .error e) ∧
      ∀ log', logAfter log refreshes = .ok log' → ∃ answers last s',
        session.refreshAll refreshes s = (.ok (answers ++ [last]), s') ∧
        (∀ q ∈ answers ++ [last], q.int? "id" = some id) ∧
        Keeps session.domain before id log' last s' := by
  induction refreshes generalizing log s with
  | nil => exact absurd rfl hne
  | cons refresh refreshes ih =>
    obtain ⟨hupdate, honly⟩ := List.forall_mem_cons.1 honly
    have hlogAfter : logAfter log (refresh :: refreshes) =
        (refresh.onLog log >>= fun log₁ => logAfter log₁ refreshes) := List.foldlM_cons
    rw [hlogAfter]
    cases hstep : refresh.onLog log with
    | error e =>
      refine ⟨fun e' he' => ?_, fun log' hlog' => ?_⟩
      · cases he'
        exact refreshAll_cons_of_error (hs.failed refresh hupdate e hstep) refreshes
      · cases hlog'
    | ok log₁ =>
      obtain ⟨q, s₁, hrefresh, hkeeps⟩ := hs.done refresh hupdate log₁ hstep
      have hid : q.int? "id" = some id := hkeeps.elim fun _ hlast => hlast.2.int?_id h
      rw [refreshAll_cons_of_ok hrefresh]
      cases refreshes with
      | nil =>
        -- the point that the run ends with is the answer of this refresh
        refine ⟨fun e he => ?_, fun log' hlog' => ?_⟩
        · cases he
        · cases hlog'
          exact ⟨[], q, s₁, rfl, List.forall_mem_singleton.2 hid, hkeeps⟩
      | cons next rest =>
        obtain ⟨hfailed, hdone⟩ := ih honly (List.cons_ne_nil next rest)
          (ready_of_keeps h hw hmode hothers hnone hkeeps)
        refine ⟨fun e he => ?_, fun log' hlog' => ?_⟩
        · rw [hfailed e he]
          rfl
        · obtain ⟨answers, last, s', hall, hids, hlast⟩ := hdone log' hlog'
          refine ⟨q :: answers, last, s', ?_, List.forall_mem_cons.2 ⟨hid, hids⟩, hlast⟩
          rw [hall]
          rfl

end Session

/-- Refreshes against a store without a point of the weather fail where the same updates of a log
that stays in memory do. Otherwise the store gets one more point, with the next id, which all of
them answer with, and what the last one answers holds that log. -/
theorem refreshes_keep_log {session : Session} (h : HasPoints session.domain)
    (hw : HasWeather session.domain) (hmode : session.settings.testMode = false) {s : PointStore}
    (hs : Used s) (hbelow : ∀ id ∈ s.ids, id < Decimal.maxInt)
    (hnone : ∀ point ∈ s.points, ¬IsWeatherPoint point) {refreshes : List Refresh}
    (hne : refreshes ≠ [])
    (honly : ∀ refresh ∈ refreshes, OnlyRecords session.domain refresh.update) :
    (∀ e, logAfter [] refreshes = .error e → (session.refreshAll refreshes s).1 = .error e) ∧
      ∀ log, logAfter [] refreshes = .ok log → ∃ answers last s' w,
        session.refreshAll refreshes s = (.ok (answers ++ [last]), s') ∧
        s'.points = s.points ++ [w] ∧ id? w = some s.nextId ∧
        (∀ q ∈ answers ++ [last], q.int? "id" = some s.nextId) ∧
        loadWeather session.domain last = .ok log := by
  have hbounded := hs.bounded hbelow
  have hothers : ∀ point ∈ s.points, id? point ≠ some s.nextId := fun point hpoint hid =>
    Int.lt_irrefl _ (hbounded.below _ (List.mem_filterMap.2 ⟨point, hpoint, hid⟩))
  obtain ⟨hfailed, hdone⟩ := Session.refreshAll_of_ready h hw hmode hothers hnone honly hne
    (Session.ready_of_none h hw hmode hbounded.fitsInt hnone)
  refine ⟨hfailed, fun log hlog => ?_⟩
  obtain ⟨answers, last, s', hall, hids, w, hpoints, hstores⟩ := hdone log hlog
  exact ⟨answers, last, s', w, hall, hpoints, hstores.named, hids, hstores.holds.load h hw⟩

/-- A refresh that records rain and keeps it for a day. -/
def rainyRefresh : Refresh :=
  ⟨Record.epoch, Record.epoch, some 24, recording domain [⟨Record.epoch, "rain", 1.5⟩]⟩

/-- Two such refreshes of a store with another point. -/
theorem refreshes_keep_log_rainy :
    ∃ log, logAfter [] [rainyRefresh, rainyRefresh] = .ok log ∧ ∃ answers last s w,
      realRun.refreshAll [rainyRefresh, rainyRefresh] onePoint = (.ok (answers ++ [last]), s) ∧
      s.points = onePoint.points ++ [w] ∧ id? w = some 8 ∧
      loadWeather domain last = .ok log := by
  have hfits : ∀ m ∈ [(⟨Record.epoch, "rain", 1.5⟩ : Measurement)], m.Fits domain.catalog :=
    List.forall_mem_singleton.2 ⟨by unfold Catalog.Declares; decide, by decide⟩
  have honly : ∀ refresh ∈ [rainyRefresh, rainyRefresh], ∃ ms,
      (∀ m ∈ ms, m.Fits domain.catalog) ∧ refresh.update = recording domain ms := by
    simp only [List.mem_cons, List.not_mem_nil, or_false, or_self, forall_eq]
    exact ⟨_, hfits, rfl⟩
  have hmode : realRun.settings.testMode = false := rfl
  have hused : Used onePoint := .seed .empty (v := .obj [("id", .int 7)]) rfl
  have hnone : ∀ point ∈ onePoint.points, ¬IsWeatherPoint point :=
    List.forall_mem_singleton.2 fun h => nomatch h.1
  obtain ⟨log, hlog⟩ := exists_logAfter hasWeather_domain honly .nil
  obtain ⟨-, hdone⟩ := refreshes_keep_log hasPoints_domain hasWeather_domain hmode hused (by decide)
    hnone (List.cons_ne_nil rainyRefresh [rainyRefresh]) fun refresh hmem => by
      obtain ⟨ms, hms, hupdate⟩ := honly refresh hmem
      exact hupdate ▸ onlyRecords_recording hms
  obtain ⟨answers, last, s, w, hall, hpoints, hid, -, hload⟩ := hdone log hlog
  exact ⟨log, hlog, answers, last, s, w, hall, hpoints, hid, hload⟩

end GardenMap.Farm
