import Mathlib.Data.List.Nodup
import Mathlib.Tactic.NormNum
import GardenMap.Proofs.Store.Requests
import GardenMap.Proofs.Tables
import GardenMap.Store.Memory

/-!
# Identities in a store

The ids that a store gives out are greater than all ids in it, and an update leaves the id and the
creation time of a point as they are. So the ids stay distinct over any run of requests, and a
point is known by its place and its id for as long as the store is used.

What a request does to the points is said once (`Does`); that ids stay distinct and points keep
their origins is read off from there. The store itself stays `Numbered`, one request at a time.
-/

namespace GardenMap.PointStore

/-- The ids of the points of a store, in their order. Points without an id of 64 bits have none. -/
def ids (s : PointStore) : List Int := s.points.filterMap id?

/-- Where a point comes from: its id and its creation time. -/
def origin (point : Object) : Option Json × Option Json :=
  (Table.get? point "id", Table.get? point "created_at")

/-- The origins of the points of a store, in their order. -/
def origins (s : PointStore) : List (Option Json × Option Json) := s.points.map origin

/-- How many points a store can still number. -/
def idsLeft (s : PointStore) : Int := Decimal.maxInt + 1 - s.nextId

/-! ## What a request does -/

/-- A request, and when it is made. -/
abbrev Call := Instant × PointRequest

/-- Whether a call adds a point, if there is an id for it. -/
def adds : Call → Bool
  | (_, .create (.obj _)) => true
  | _ => false

def answer (s : PointStore) (call : Call) : Except String (List Json) :=
  ((service call.1).answer call.2 s).1

def after (s : PointStore) (calls : List Call) : PointStore :=
  calls.foldl (fun s call => ((service call.1).answer call.2 s).2) s

@[simp] theorem after_nil (s : PointStore) : s.after [] = s := rfl

theorem after_append (s : PointStore) (calls more : List Call) :
    s.after (calls ++ more) = (s.after calls).after more :=
  List.foldl_append

theorem after_create (s : PointStore) (now : Instant) (entries : Object) :
    s.after [(now, .create (.obj entries))] =
      { s with points := s.points ++ [stamped entries s.nextId now],
               nextId := wrap (s.nextId + 1) } :=
  rfl

/-- The entry at a key of a point that is made of entries: its id and its times are the store's. -/
def createdEntry (entries : Object) (id : Int) (now : Instant) (key : String) : Option Json :=
  if key = "id" then some (.int id)
  else if key = "created_at" ∨ key = "updated_at" then some (.str now.text)
  else Table.get? entries key

/-- The entry at a key of a point that is changed by entries: the given ones count, except for its
id, which stays, as its creation time does, and the time of the change. -/
def updatedEntry (old entries : Object) (now : Instant) (key : String) : Option Json :=
  if key = "updated_at" then some (.str now.text)
  else if key = "id" ∨ key = "created_at" then Table.get? old key
  else (Table.get? (Table.ofList entries) key).or (Table.get? old key)

/-- What a call with an answer does to the points of a store. -/
inductive Does : List Object → Call → Except String (List Json) → List Object → Prop
  /-- Nothing, when it fails. -/
  | failed (points : List Object) (call : Call) (text : String) :
    Does points call (.error text) points
  | searched (points : List Object) (now : Instant) (filter : Object) :
    Does points (now, .search filter)
      (.ok ((points.filter (meetsAll filter)).map .obj)) points
  /-- One more point, with an id greater than all before it. -/
  | created (points : List Object) (now : Instant) (entries point : Object) (id : Int)
    (greater : ∀ held ∈ points.filterMap id?, held < id) (named : id? point = some id)
    (entry : ∀ key, Table.get? point key = createdEntry entries id now key) :
    Does points (now, .create (.obj entries)) (.ok [.obj point]) (points ++ [point])
  /-- New entries for the point of the id, and only for it. -/
  | updated (front back : List Object) (now : Instant) (id : Int) (entries old new : Object)
    (named : id? old = some id) (others : ∀ point ∈ front ++ back, id? point ≠ some id)
    (entry : ∀ key, Table.get? new key = updatedEntry old entries now key) :
    Does (front ++ old :: back) (now, .update id (.obj entries)) (.ok [.obj new])
      (front ++ new :: back)

theorem id?_eq_of_origin {p q : Object} (h : origin p = origin q) : id? p = id? q := by
  unfold id?
  rw [show Table.get? p "id" = Table.get? q "id" from congrArg Prod.fst h]

theorem Does.keeps_origins {points points' : List Object} {call : Call}
    {answer : Except String (List Json)} (h : Does points call answer points') :
    points.map origin <+: points'.map origin := by
  cases h with
  | failed | searched => exact List.prefix_refl _
  | created _ _ _ point => exact ⟨[origin point], by simp⟩
  | updated front back now id entries old new _ _ entry =>
    have hnew : origin new = origin old := by
      simp only [origin, entry]
      rfl
    simp [hnew]

/-! ## The operations -/

theorem get?_stamped (entries : Object) (id : Int) (now : Instant) (key : String) :
    Table.get? (stamped entries id now) key = createdEntry entries id now key := by
  unfold stamped createdEntry Table.putAll
  simp only [List.foldl_cons, List.foldl_nil, Table.get?_put]
  by_cases hid : key = "id"
  · subst hid
    rfl
  · by_cases hc : key = "created_at" <;> by_cases hu : key = "updated_at" <;> simp [hid, hc, hu]

theorem get?_overlaid (point entries : Object) (now : Instant) (key : String) :
    Table.get? (overlaid point entries now) key = updatedEntry point entries now key := by
  unfold overlaid updatedEntry
  rw [Table.get?_put]
  by_cases hu : key = "updated_at"
  · rw [if_pos hu, if_pos hu]
  · rw [if_neg hu, if_neg hu, Table.get?_putAll, Table.get?_ofList, ← List.filter_reverse]
    have := Table.get?_filter_key (fun k => decide (k ≠ "id") && decide (k ≠ "created_at"))
      entries.reverse key
    rw [this]
    by_cases hid : key = "id" <;> by_cases hc : key = "created_at" <;> simp [hid, hc]

theorem updateFirst_eq_some {id : Int} {f : Object → Object} {points : List Object}
    {changed : Object} {points' : List Object}
    (h : updateFirst id f points = some (changed, points')) :
    ∃ front old back, points = front ++ old :: back ∧ id? old = some id ∧
      changed = f old ∧ points' = front ++ f old :: back := by
  induction points generalizing points' with
  | nil => cases h
  | cons point points ih =>
    rw [updateFirst] at h
    split at h
    · next hid =>
      cases h
      exact ⟨[], point, points, rfl, hid, rfl, rfl⟩
    · cases hrest : updateFirst id f points with
      | none => rw [hrest] at h; cases h
      | some found =>
        rw [hrest] at h
        cases h
        obtain ⟨front, old, back, rfl, hold, hchanged, hpoints⟩ := ih hrest
        exact ⟨point :: front, old, back, rfl, hold, hchanged, congrArg (point :: ·) hpoints⟩

theorem updateFirst_of_mem {id : Int} (f : Object → Object) {front back : List Object}
    {old : Object} (hold : id? old = some id) (hfront : ∀ point ∈ front, id? point ≠ some id) :
    updateFirst id f (front ++ old :: back) = some (f old, front ++ f old :: back) := by
  induction front with
  | nil => exact if_pos hold
  | cons point front ih =>
    rw [List.cons_append, updateFirst, if_neg (hfront point List.mem_cons_self),
      ih fun p hp => hfront p (List.mem_cons_of_mem _ hp)]
    rfl

/-- An update with a mapping fails and leaves the store as it is, or it puts the entries over the
first point of its id. -/
theorem update_obj (now : Instant) (id : Int) (entries : Object) (s : PointStore) :
    (∃ text, s.update now id (.obj entries) = (.error text, s)) ∨
      ∃ front old back, s.points = front ++ old :: back ∧ id? old = some id ∧
        s.update now id (.obj entries) = (.ok (.obj (overlaid old entries now)),
          { s with points := front ++ overlaid old entries now :: back }) := by
  cases hfirst : updateFirst id (overlaid · entries now) s.points with
  | none => exact .inl ⟨_, by simp only [update, hfirst]; rfl⟩
  | some found =>
    obtain ⟨changed, points⟩ := found
    obtain ⟨front, old, back, hpoints, hold, rfl, rfl⟩ := updateFirst_eq_some hfirst
    exact .inr ⟨front, old, back, hpoints, hold, by simp only [update, hfirst]⟩

theorem id?_ne_of_nodup {id : Int} {front back : List Object} {old : Object}
    (h : ((front ++ old :: back).filterMap id?).Nodup) (hold : id? old = some id) :
    ∀ point ∈ front ++ back, id? point ≠ some id := by
  rw [List.filterMap_append, List.filterMap_cons_some hold, List.nodup_middle,
    ← List.filterMap_append, List.nodup_cons] at h
  exact fun point hpoint hid => h.1 (List.mem_filterMap.2 ⟨point, hpoint, hid⟩)

/-! ## Points by their ids -/

theorem fitsInt_of_id? {point : Object} {id : Int} (h : id? point = some id) :
    Decimal.fitsInt id = true := by
  unfold id? at h
  cases hget : Table.get? point "id" with
  | none => rw [hget] at h; cases h
  | some v =>
    rw [hget] at h
    cases v <;> simp only [Option.bind_some, Json.int?, reduceCtorEq] at h
    split at h <;> cases h
    assumption

theorem get?_id_of_id? {w : Object} {id : Int} (h : id? w = some id) :
    Table.get? w "id" = some (.int id) := by
  unfold id? at h
  obtain ⟨v, hv, h⟩ := Option.bind_eq_some_iff.1 h
  cases v with
  | int i =>
    rw [Json.int?, Option.ite_none_right_eq_some] at h
    rw [hv, Option.some.inj h.2]
  | _ => cases h

theorem meets_int {id : Int} {v : Json} : meets (.int id) v = true ↔ v = .int id := by
  cases v with
  | int i => simp [meets, BEq.beq, Json.same]
  | _ => simp [meets, BEq.beq, Json.same]

theorem search_id {s : PointStore} {front back : List Object} {w : Object} {id : Int}
    (hs : s.points = front ++ w :: back) (hid : id? w = some id)
    (hothers : ∀ point ∈ front ++ back, id? point ≠ some id) :
    (s.search [("id", .int id)]).1 = [.obj w] := by
  have hmeets : ∀ point, meetsAll [("id", .int id)] point = true ↔ id? point = some id := by
    intro point
    unfold meetsAll meetsAll
    rw [Bool.and_true, meets_int]
    constructor
    · intro hget
      cases hpoint : Table.get? point "id" with
      | none => rw [hpoint] at hget; cases hget
      | some v =>
        rw [hpoint, Option.getD_some] at hget
        simp only [id?, hpoint, hget, Option.bind_some, Json.int?, fitsInt_of_id? hid, if_true]
    · intro hpoint
      rw [get?_id_of_id? hpoint, Option.getD_some]
  have hnone : ∀ points : List Object, (∀ point ∈ points, id? point ≠ some id) →
      points.filter (meetsAll [("id", .int id)]) = [] := by
    intro points h
    rw [List.filter_eq_nil_iff]
    exact fun point hpoint => mt (hmeets point).1 (h point hpoint)
  rw [List.forall_mem_append] at hothers
  unfold search
  rw [hs, List.filter_append, List.filter_cons_of_pos ((hmeets w).2 hid), hnone _ hothers.1,
    hnone _ hothers.2]
  rfl

theorem update_of_id {s : PointStore} {front back : List Object} {w entries : Object} {id : Int}
    (hs : s.points = front ++ w :: back) (hid : id? w = some id)
    (hothers : ∀ point ∈ front ++ back, id? point ≠ some id) (now : Instant) :
    s.update now id (.obj entries) = (.ok (.obj (overlaid w entries now)),
      { s with points := front ++ overlaid w entries now :: back }) := by
  have hfirst : updateFirst id (overlaid · entries now) (front ++ w :: back) = _ :=
    updateFirst_of_mem _ hid (List.forall_mem_append.1 hothers).1
  simp only [update, hs, hfirst]

/-! ## Numbered stores -/

/-- A store whose next id is greater than all in it and has 64 bits. -/
structure Bounded (s : PointStore) : Prop where
  below : ∀ id ∈ s.ids, id < s.nextId
  least : Decimal.minInt ≤ s.nextId
  greatest : s.nextId ≤ Decimal.maxInt

/-- A bounded store whose points have distinct ids. -/
structure Numbered (s : PointStore) : Prop extends Bounded s where
  nodup : s.ids.Nodup

theorem wrap_of_fitsInt {i : Int} (h : Decimal.fitsInt i = true) : wrap i = i := by
  unfold wrap
  unfold Decimal.fitsInt Decimal.minInt Decimal.maxInt at h
  simp only [Bool.and_eq_true, decide_eq_true_eq] at h
  exact Int.bmod_eq_of_le (by norm_num; omega) (by norm_num; omega)

theorem id?_stamped (entries : Object) {id : Int} (h : Decimal.fitsInt id = true)
    (now : Instant) : id? (stamped entries id now) = some id := by
  simp only [id?, get?_stamped, createdEntry, if_true, Option.bind_some, Json.int?, h]

theorem id?_overlaid (point entries : Object) (now : Instant) :
    id? (overlaid point entries now) = id? point :=
  id?_eq_of_origin (by simp only [origin, get?_overlaid]; rfl)

theorem after_of_not_adds (s : PointStore) {call : Call} (hcall : adds call = false) :
    (s.after [call]).ids = s.ids ∧ (s.after [call]).nextId = s.nextId := by
  obtain ⟨now, request⟩ := call
  cases request with
  | search filter => exact ⟨rfl, rfl⟩
  | create v => cases v <;> first | exact ⟨rfl, rfl⟩ | cases hcall
  | update id v =>
    cases v with
    | obj entries =>
      rcases update_obj now id entries s with ⟨text, heq⟩ | ⟨front, old, back, hs, -, heq⟩ <;>
        simp only [after, List.foldl, PointService.answer, service, heq, ids, and_self]
      simp only [hs, List.filterMap_append, List.filterMap_cons, id?_overlaid, and_self]
    | _ => exact ⟨rfl, rfl⟩

theorem ids_after_create (s : PointStore) (now : Instant) (entries : Object)
    (h : Decimal.fitsInt s.nextId = true) :
    (s.after [(now, .create (.obj entries))]).ids = s.ids ++ [s.nextId] := by
  simp only [ids, after_create, List.filterMap_append, List.filterMap_cons,
    id?_stamped entries h now, List.filterMap_nil]

theorem eq_create_of_adds {call : Call} (h : adds call = true) :
    ∃ now entries, call = (now, .create (.obj entries)) := by
  obtain ⟨now, request⟩ := call
  rcases request with _ | ⟨_ | _ | _ | _ | _ | _ | entries⟩ | _ <;> try cases h
  exact ⟨now, entries, rfl⟩

namespace Bounded

variable {s : PointStore}

theorem fitsInt (h : s.Bounded) : Decimal.fitsInt s.nextId = true := by
  simpa [Decimal.fitsInt] using And.intro h.least h.greatest

theorem after_adds (h : s.Bounded) {call : Call} (hcall : adds call = true)
    (hroom : 1 < s.idsLeft) :
    (s.after [call]).ids = s.ids ++ [s.nextId] ∧ (s.after [call]).nextId = s.nextId + 1 := by
  obtain ⟨now, entries, rfl⟩ := eq_create_of_adds hcall
  refine ⟨s.ids_after_create now entries h.fitsInt, wrap_of_fitsInt ?_⟩
  unfold idsLeft at hroom
  have := h.least
  simp only [Decimal.fitsInt, Bool.and_eq_true, decide_eq_true_eq]
  omega

theorem step (h : s.Bounded) (call : Call) (hroom : adds call = true → 1 < s.idsLeft) :
    (s.after [call]).Bounded ∧
      (s.after [call]).nextId = s.nextId + if adds call then 1 else 0 := by
  cases hcall : adds call with
  | false =>
    obtain ⟨hids, hnext⟩ := s.after_of_not_adds hcall
    exact ⟨⟨hids ▸ hnext ▸ h.below, hnext ▸ h.least, hnext ▸ h.greatest⟩, by simp [hnext]⟩
  | true =>
    have hleft := hroom hcall
    obtain ⟨hids, hnext⟩ := h.after_adds hcall hleft
    have hleast := h.least
    unfold idsLeft at hleft
    refine ⟨⟨fun id hid => ?_, by omega, by omega⟩, hnext⟩
    rw [hnext]
    rcases List.mem_append.1 (hids ▸ hid) with hid | hid
    · exact Int.lt_add_one_of_le (Int.le_of_lt (h.below id hid))
    · exact List.mem_singleton.1 hid ▸ Int.lt_succ _

end Bounded

namespace Numbered

variable {s : PointStore}

theorem does (h : s.Numbered) (call : Call) :
    Does s.points call (s.answer call) (s.after [call]).points := by
  obtain ⟨now, request⟩ := call
  cases request with
  | search filter => exact .searched s.points now filter
  | create v =>
    cases v with
    | obj entries =>
      exact .created s.points now entries (stamped entries s.nextId now) s.nextId h.below
        (id?_stamped entries h.fitsInt now) (get?_stamped entries s.nextId now)
    | _ => exact .failed ..
  | update id v =>
    cases v with
    | obj entries =>
      rcases update_obj now id entries s with ⟨text, heq⟩ | ⟨front, old, back, hs, hold, heq⟩
      · simp only [answer, after, List.foldl, PointService.answer, service, heq]
        exact .failed ..
      · simp only [answer, after, List.foldl, PointService.answer, service, heq]
        rw [hs]
        exact .updated front back now id entries old _ hold
          (id?_ne_of_nodup (hs ▸ h.nodup) hold) (get?_overlaid old entries now)
    | _ => exact .failed ..

theorem step (h : s.Numbered) (call : Call) (hroom : adds call = true → 1 < s.idsLeft) :
    (s.after [call]).Numbered := by
  refine ⟨(h.toBounded.step call hroom).1, ?_⟩
  cases hcall : adds call with
  | false => exact (s.after_of_not_adds hcall).1 ▸ h.nodup
  | true =>
    rw [(h.after_adds hcall (hroom hcall)).1, List.nodup_append']
    refine ⟨h.nodup, List.nodup_singleton _, List.disjoint_singleton.2 fun hid => ?_⟩
    exact Int.lt_irrefl _ (h.below _ hid)

/-- Over a run with fewer new points than ids left, a store stays numbered, every new point takes
one id, and points keep their places and origins. -/
theorem run (h : s.Numbered) (calls : List Call) (hroom : (calls.countP adds : Int) < s.idsLeft) :
    (s.after calls).Numbered ∧ (s.after calls).idsLeft = s.idsLeft - calls.countP adds ∧
      s.origins <+: (s.after calls).origins := by
  induction calls generalizing s with
  | nil => exact ⟨h, by simp, List.prefix_refl _⟩
  | cons call calls ih =>
    rw [List.countP_cons] at hroom ⊢
    have hfirst : adds call = true → 1 < s.idsLeft := fun hcall => by
      rw [if_pos hcall] at hroom
      omega
    have hleft : (s.after [call]).idsLeft = s.idsLeft - if adds call then 1 else 0 := by
      unfold idsLeft
      rw [(h.toBounded.step call hfirst).2]
      omega
    push_cast at hroom ⊢
    obtain ⟨hrun, hcount, hprefix⟩ := ih (h.step call hfirst) (by omega)
    refine ⟨hrun, ?_, (h.does call).keeps_origins.trans hprefix⟩
    rw [hleft] at hcount
    exact hcount.trans (by omega)

end Numbered

/-! ## Stores in use -/

/-- A store that was filled with points as they came, and then asked anything, in any order. -/
inductive Used : PointStore → Prop
  | empty : Used .empty
  | seed {s s' : PointStore} {v : Json} (h : Used s) (hseed : s.seed v = .ok s') : Used s'
  | call {s : PointStore} (h : Used s) (call : Call) : Used (s.after [call])

theorem seed_obj (s : PointStore) (point : Object) :
    ∃ s', s.seed (.obj point) = .ok s' ∧ s'.points = s.points ++ [point] ∧
      s'.nextId = (id? point).elim s.nextId fun id => max s.nextId (wrap (id + 1)) := by
  refine ⟨_, rfl, rfl, ?_⟩
  cases id? point <;> rfl

theorem seedAll_obj (s : PointStore) (hs : Used s) (points : List Object) :
    ∃ s', seedAll s (points.map .obj) = .ok s' ∧ Used s' ∧ s'.points = s.points ++ points := by
  induction points generalizing s with
  | nil => exact ⟨s, rfl, hs, (List.append_nil _).symm⟩
  | cons point points ih =>
    obtain ⟨s₁, hseed, hpoints, -⟩ := s.seed_obj point
    obtain ⟨s₂, hall, hused, hpoints'⟩ := ih s₁ (.seed hs hseed)
    refine ⟨s₂, ?_, hused, by rw [hpoints', hpoints, List.append_assoc]; rfl⟩
    simp only [seedAll, List.map_cons, List.foldlM_cons, hseed]
    exact hall

theorem Bounded.seed {s s' : PointStore} (h : s.Bounded) {point : Object}
    (hseed : s.seed (.obj point) = .ok s')
    (hbelow : ∀ id, id? point = some id → id < Decimal.maxInt) : s'.Bounded := by
  obtain ⟨s₁, hs₁, hpoints, hnext⟩ := s.seed_obj point
  cases hseed.symm.trans hs₁
  have hids : s'.ids = s.ids ++ (id? point).toList := by
    unfold ids
    rw [hpoints, List.filterMap_append]
    cases hid : id? point <;> simp [hid]
  cases hid : id? point with
  | none =>
    rw [hid, Option.toList_none, List.append_nil] at hids
    rw [hid, Option.elim_none] at hnext
    exact ⟨hids ▸ hnext ▸ h.below, hnext ▸ h.least, hnext ▸ h.greatest⟩
  | some id =>
    have hfits := fitsInt_of_id? hid
    have hid' := hbelow id hid
    simp only [Decimal.fitsInt, Bool.and_eq_true, decide_eq_true_eq] at hfits
    have hwrap : wrap (id + 1) = id + 1 := wrap_of_fitsInt (by
      simp only [Decimal.fitsInt, Bool.and_eq_true, decide_eq_true_eq]
      omega)
    rw [hid, Option.elim_some, hwrap] at hnext
    have hleast := h.least
    have hgreatest := h.greatest
    refine ⟨fun i hi => ?_, by omega, by omega⟩
    rw [hids, hid, Option.toList_some] at hi
    rcases List.mem_append.1 hi with hi | hi
    · have := h.below i hi
      omega
    · have := List.mem_singleton.1 hi
      omega

theorem Used.bounded {s : PointStore} (h : Used s) (hbelow : ∀ id ∈ s.ids, id < Decimal.maxInt) :
    s.Bounded := by
  induction h with
  | empty => exact ⟨fun _ h => absurd h List.not_mem_nil, by decide, by decide⟩
  | @seed s s' v _ hseed ih =>
    cases v with
    | obj point =>
      obtain ⟨s₁, hs₁, hpoints, -⟩ := s.seed_obj point
      cases hseed.symm.trans hs₁
      rw [ids, hpoints, List.filterMap_append] at hbelow
      refine (ih fun id hid => hbelow id (List.mem_append_left _ hid)).seed hseed fun id hid => ?_
      exact hbelow id (List.mem_append_right _ (by simp [hid]))
    | _ => cases hseed
  | @call s _ call ih =>
    cases hcall : adds call with
    | false =>
      have hids := (s.after_of_not_adds hcall).1
      exact ((ih (hids ▸ hbelow)).step call (by simp [hcall])).1
    | true =>
      obtain ⟨now, entries, rfl⟩ := eq_create_of_adds hcall
      have hsub : ∀ id ∈ s.ids, id < Decimal.maxInt := fun id hid => hbelow id (by
        simp only [ids, after_create, List.filterMap_append]
        exact List.mem_append_left _ hid)
      have hs := ih hsub
      refine (hs.step _ fun _ => ?_).1
      have hlast := hbelow s.nextId (by simp [s.ids_after_create now entries hs.fitsInt])
      unfold idsLeft
      omega

theorem Used.numbered {s : PointStore} (h : Used s) (hnodup : s.ids.Nodup)
    (hbelow : ∀ id ∈ s.ids, id < Decimal.maxInt) : s.Numbered :=
  ⟨h.bounded hbelow, hnodup⟩

/-! ## Identity over runs -/

/-- A store filled with points whose ids are distinct and below the greatest one keeps track of them
over every run of calls with fewer new points than ids left. Ids stay distinct; points keep their
places, their ids and their creation times; and each call does to the points what it is to do. -/
theorem tracks_points (points : List Object) (hnodup : (points.filterMap id?).Nodup)
    (hbelow : ∀ id ∈ points.filterMap id?, id < Decimal.maxInt) :
    ∃ s, seedAll .empty (points.map .obj) = .ok s ∧ s.points = points ∧
      ∀ calls : List Call, (calls.countP adds : Int) < s.idsLeft →
        (s.after calls).ids.Nodup ∧
        (∀ earlier later, calls = earlier ++ later →
          (s.after earlier).origins <+: (s.after calls).origins) ∧
        ∀ earlier call later, calls = earlier ++ call :: later →
          Does (s.after earlier).points call ((s.after earlier).answer call)
            (s.after (earlier ++ [call])).points := by
  obtain ⟨s, hseed, hused, rfl⟩ := seedAll_obj .empty .empty points
  have hs : s.Numbered := hused.numbered hnodup hbelow
  refine ⟨s, hseed, rfl, fun calls hroom => ?_⟩
  have hpart : ∀ earlier later, calls = earlier ++ later → (s.after earlier).Numbered ∧
      (later.countP adds : Int) < (s.after earlier).idsLeft := by
    rintro earlier later rfl
    rw [List.countP_append] at hroom
    push_cast at hroom
    obtain ⟨hrun, hcount, -⟩ := hs.run earlier (by omega)
    exact ⟨hrun, by omega⟩
  refine ⟨(hs.run calls hroom).1.nodup, ?_, ?_⟩
  · rintro earlier later heq
    obtain ⟨hrun, hleft⟩ := hpart earlier later heq
    rw [heq, after_append]
    exact (hrun.run later hleft).2.2
  · intro earlier call later heq
    rw [after_append]
    exact (hpart earlier (call :: later) heq).1.does call

/-- A run over a store of two points, one of them without an id: an update and a new point. -/
theorem tracks_points_seven :
    ∃ s, seedAll .empty [.obj [("id", .int 7)], .obj []] = .ok s ∧ ∀ now,
      let update : Call := (now, .update 7 (.obj [("id", .int 1)]))
      let create : Call := (now, .create (.obj []))
      (s.after [update, create]).ids.Nodup ∧ s.origins <+: (s.after [update, create]).origins ∧
        Does s.points update (s.answer update) (s.after [update]).points ∧
        Does (s.after [update]).points create ((s.after [update]).answer create)
          (s.after [update, create]).points := by
  obtain ⟨s, hs, -, hruns⟩ := tracks_points [[("id", .int 7)], []] (by decide) (by decide)
  refine ⟨s, hs, fun now => ?_⟩
  intro update create
  cases hs
  obtain ⟨hnodup, hprefix, hdoes⟩ := hruns [update, create]
    (show ((1 : Nat) : Int) < 9223372036854775800 by decide)
  exact ⟨hnodup, hprefix [] _ rfl, hdoes [] update [create] rfl, hdoes [update] create [] rfl⟩

end GardenMap.PointStore
