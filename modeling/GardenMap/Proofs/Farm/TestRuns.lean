import GardenMap.Farm.Session
import GardenMap.Proofs.Store.Requests
import GardenMap.Proofs.Text.Folding
import GardenMap.Store.Memory

/-!
# Test runs write nothing

Whether a run is a test is decided by the variables of the environment: one `action` other than
`real` makes it one, in any case of its letters, and nothing among the other variables takes that
back. In a test run every request of a session comes down to searches, so a service is never asked
to create or to update a point.

What a request does to a service is told by what it keeps: a predicate on its states that searches
keep, all requests of a test run keep. That the service saw searches only, and that a store has the
points that it had, are two such predicates.
-/

namespace GardenMap

namespace Farm

/-! ## The variable that says how to run -/

namespace Settings

theorem isKeyChar_of_toLower {c : Char} (h : c.toLower ∈ actionKey) : isKeyChar c = true := by
  by_cases hc : c ∈ Text.capitals
  · have hall : Text.capitals.all isKeyChar = true := by decide
    exact List.all_eq_true.1 hall c hc
  · have hall : actionKey.all isKeyChar = true := by decide
    exact List.all_eq_true.1 hall c (Text.toLower_eq_self hc ▸ h)

theorem key?_eq_actionKey {app name : String}
    (h : Text.lower name.toList = Text.lower (leading app ++ '_' :: actionKey)) :
    key? app name = some actionKey := by
  have hlen : name.toList.length = (leading app).length + 7 := by
    simpa [Text.lower, actionKey] using congrArg List.length h
  rw [← List.take_append_drop (leading app).length name.toList] at h
  unfold Text.lower at h
  rw [List.map_append, List.map_append] at h
  obtain ⟨hstart, hrest⟩ := List.append_inj h (by simp [hlen])
  unfold key?
  -- what comes after the name of the program is an underscore and the key
  cases hdrop : name.toList.drop (leading app).length with
  | nil => simp [hdrop] at hrest
  | cons c key =>
    rw [hdrop, List.map_cons, List.map_cons, List.cons.injEq] at hrest
    obtain ⟨hc, hkey⟩ := hrest
    cases Text.eq_underscore_of_toLower hc
    have hlower : Text.lower key = actionKey := hkey
    have hall : key.all isKeyChar = true := List.all_eq_true.2 fun c hc =>
      isKeyChar_of_toLower (hlower ▸ List.mem_map_of_mem hc)
    have hne : key ≠ [] := by
      rintro rfl
      cases hlower
    simp [hdrop, Text.sameFolded_of_lower hstart, hall, hlower, hne]

theorem testMode_add {settings : Settings} (h : settings.testMode = true)
    (input : String × String) : (settings.add input).testMode = true := by
  unfold add
  split
  · exact h
  · split
    · split
      · exact h
      · rfl
    · exact h

theorem app_add (settings : Settings) (input : String × String) :
    (settings.add input).app = settings.app := by
  unfold add
  split
  · rfl
  · split
    · split <;> rfl
    · rfl

theorem testMode_foldl_add (settings : Settings) {vars : List (String × String)}
    (h : settings.testMode = true ∨ ∃ input ∈ vars,
      key? settings.app input.1 = some actionKey ∧ Text.lower input.2.toList ≠ realAction) :
    (vars.foldl add settings).testMode = true := by
  induction vars generalizing settings with
  | nil => simpa using h
  | cons input vars ih =>
    refine ih _ ?_
    rcases h with h | ⟨found, hmem, hkey, hvalue⟩
    · exact .inl (testMode_add h input)
    · rcases List.mem_cons.1 hmem with rfl | hmem
      · left
        unfold add
        rw [hkey]
        simp only [if_true, if_neg hvalue]
      · exact .inr ⟨found, hmem, (app_add settings input).symm ▸ hkey, hvalue⟩

end Settings

/-! ## Requests of a session -/

/-- What a program asks of a session. -/
inductive Request where
  | points (filter : Object)
  | genericPointers (filter : Object)
  | plants (filter : Object)
  | toolSlots (filter : Object)
  | query (schema : SchemaId) (clauses : Json)
  | put (point : Record)
  | addPlant (x y : Float) (extra : List (String × Json))
  | weather
  | refresh (maxAge : Option Int) (update : WeatherLog → Except Error WeatherLog)

namespace Session

variable {σ : Type} (session : Session) (service : PointService σ)

/-- A single record as the answer to a request. -/
def single (answer : Except Error Record × σ) : Except Error (List Record) × σ :=
  (answer.1.map fun r => [r], answer.2)

def serve : Request → σ → Except Error (List Record) × σ
  | .points filter, s => session.points service filter s
  | .genericPointers filter, s => session.genericPointers service filter s
  | .plants filter, s => session.plants service filter s
  | .toolSlots filter, s => session.toolSlots service filter s
  | .query schema clauses, s => session.query service schema clauses s
  | .put point, s => single (session.putPoint service point s)
  | .addPlant x y extra, s => single (session.addPlant service x y extra s)
  | .weather, s => single (session.weatherPoint service s)
  | .refresh maxAge update, s => single (session.refreshWeather service maxAge update s)

/-! ## Test runs -/

section Keeps

variable {session} {service} {P : σ → Prop}
  (hsearch : ∀ filter s, P s → P (service.search filter s).2)

include hsearch

theorem points_keeps (filter : Object) {s : σ} (h : P s) :
    P (session.points service filter s).2 := by
  have hs := hsearch filter s h
  unfold points
  split <;> simp_all

theorem weatherPoint_keeps {s : σ} (h : P s) : P (session.weatherPoint service s).2 := by
  have hs : P (session.genericPointers service [("name", .str weatherPointName)] s).2 :=
    points_keeps hsearch _ h
  unfold weatherPoint
  split <;> simp_all

theorem query_keeps (schema : SchemaId) (clauses : Json) {s : σ} (h : P s) :
    P (session.query service schema clauses s).2 := by
  unfold query Plan.run
  split
  · exact h
  · next plan _ =>
    have hs := hsearch plan.filter s h
    split <;> simp_all

theorem serve_keeps (hmode : session.settings.testMode = true) (request : Request) {s : σ}
    (h : P s) : P (session.serve service request s).2 := by
  cases request with
  | points filter | genericPointers filter | plants filter | toolSlots filter =>
    exact points_keeps hsearch _ h
  | query schema clauses => exact query_keeps hsearch schema clauses h
  | put point => simpa [serve, single, putPoint, hmode] using h
  | addPlant x y extra => simpa [serve, single, addPlant, hmode] using h
  | weather => exact weatherPoint_keeps hsearch h
  | refresh maxAge update =>
    have hs : P (session.weatherPoint service s).2 := weatherPoint_keeps hsearch h
    simp only [serve, single, refreshWeather, putPoint, hmode, if_true]
    split
    · simp_all
    · split <;> simp_all

end Keeps

end Session

/-- A request, when it is made and what the families hold by then. -/
structure Visit where
  domain : Domain
  now : Instant
  request : Request

/-- A remote after requests that were made to it with some settings. -/
def Settings.run {σ : Type} (settings : Settings) (remote : Instant → PointService σ)
    (visits : List Visit) (s : σ) : σ :=
  visits.foldl (fun s visit =>
    ((Session.mk settings visit.domain visit.now).serve (remote visit.now) visit.request s).2) s

theorem Settings.run_keeps {σ : Type} {settings : Settings} (hmode : settings.testMode = true)
    {remote : Instant → PointService σ} {P : σ → Prop}
    (hsearch : ∀ now filter s, P s → P ((remote now).search filter s).2) (visits : List Visit)
    {s : σ} (h : P s) : P (settings.run remote visits s) := by
  induction visits generalizing s with
  | nil => exact h
  | cons visit visits ih => exact ih (Session.serve_keeps (hsearch visit.now) hmode visit.request h)

/-- A variable that gives the program an action other than `real`, in whatever case of letters and
among whatever other variables, makes all its runs test runs. Every request that reaches the service
is then a search, a store keeps its points, and writing a point hands back the point. -/
theorem test_runs_only_search (app : String) (vars : List (String × String)) (name value : String)
    (hvar : (name, value) ∈ vars)
    (hname : Text.lower name.toList =
      Text.lower (Settings.leading app ++ '_' :: Settings.actionKey))
    (hvalue : Text.lower value.toList ≠ Settings.realAction) :
    (∀ (σ : Type) (remote : Instant → PointService σ) (visits : List Visit) (s : σ),
      ∀ request ∈ ((Settings.ofVariables app vars).run (fun now => (remote now).recorded) visits
        (s, [])).2, request.isSearch = true) ∧
    (∀ (visits : List Visit) (s : PointStore),
      ((Settings.ofVariables app vars).run PointStore.service visits s).points = s.points) ∧
    ∀ (σ : Type) (service : PointService σ) (d : Domain) (now : Instant) (point : Record) (s : σ),
      (Session.mk (Settings.ofVariables app vars) d now).putPoint service point s =
        (.ok point, s) := by
  have hmode : (Settings.ofVariables app vars).testMode = true :=
    Settings.testMode_foldl_add _ (.inr ⟨_, hvar, Settings.key?_eq_actionKey hname, hvalue⟩)
  refine ⟨fun σ remote visits s => ?_, fun visits s => ?_, fun σ service d now point s => ?_⟩
  · refine Settings.run_keeps (P := fun s : σ × List PointRequest =>
      ∀ request ∈ s.2, request.isSearch = true) hmode (fun now filter s h request hmem => ?_) visits
      (fun request h => absurd h List.not_mem_nil)
    rcases List.mem_append.1 hmem with hmem | hmem
    · exact h request hmem
    · exact List.mem_singleton.1 hmem ▸ rfl
  · exact Settings.run_keeps (P := fun s' : PointStore => s'.points = s.points) hmode
      (fun now filter s h => h) visits rfl
  · simp only [Session.putPoint, hmode, if_true]

/-- An action that is not real, between two that are: a plant is not added and the weather is not
kept. -/
theorem test_runs_only_search_between :
    ((Settings.ofVariables "my-app" [("MY_APP_action", "real"), ("My_App_ACTION", "Test"),
      ("my_app_Action", "REAL")]).run PointStore.service
        [⟨domain, ⟨0, 0, by decide⟩, .addPlant 1 2 []⟩,
          ⟨domain, ⟨60, 0, by decide⟩, .refresh none .ok⟩]
        ⟨[[("id", .int 7)]], 8, 0⟩).points = [[("id", .int 7)]] :=
  (test_runs_only_search "my-app" _ "My_App_ACTION" "Test" (.tail _ (.head _)) (by decide)
    (by decide)).2.1 _ _

end Farm

end GardenMap
