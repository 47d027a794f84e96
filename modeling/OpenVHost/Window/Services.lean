/-
# The services in the window

The window keeps a list of the services: it asks for the whole of it, and it changes it
by the supervisor's events. An answer replaces the list whatever the events have made of
it in the meantime.

* `ServicesStore` — the list, and what events and answers do to it.
* `View` — the store beside the supervisor, its events and the requests under way.
* `Timely` — an answer that arrives was taken after the last event that the window read.
* `services_converge` — in the runs where all answers are timely and the events are in the
  order of the writes, the list ends as the supervisor's.
* `answer_overtaken` — a run in which an event overtakes an answer.
-/

import OpenVHost.Proc.Feed

namespace OpenVHost.Window

open Proc (ServiceId ServiceState ServiceStatus Event Listing Rows rowsOf Behind)

/-! ### The store -/

/-- An error as the window shows it. -/
abbrev IpcError := String

abbrev RequestId := Nat

structure ServicesStore where
  services : List ServiceStatus
  error : Option IpcError
  /-- The request that later callers of `loadServices` share. -/
  snapshot : Option RequestId
  deriving DecidableEq, Repr

namespace ServicesStore

variable (s : ServicesStore)

def fail (e : IpcError) : ServicesStore := { s with error := some e }

def applyState (id : ServiceId) (state : ServiceState) : ServicesStore :=
  { s with
    services := s.services.map fun row =>
      if row.id = id then
        { row with state := state, pid := if state = .running then row.pid else none }
      else row }

/-- The list is kept in the order of `localeCompare`. -/
def applyRegistered (localeCompare : ServiceId → ServiceId → Bool) (status : ServiceStatus) :
    ServicesStore :=
  let known := s.services.any fun row => row.id = status.id
  let next :=
    if known then s.services.map fun row => if row.id = status.id then status else row
    else s.services ++ [status]
  { s with services := next.mergeSort fun a b => localeCompare a.id b.id }

def applyUnregistered (id : ServiceId) : ServicesStore :=
  { s with services := s.services.filter fun row => row.id ≠ id }

/-- The event that the window is told of; a line goes to the log feed. -/
def onEvent (localeCompare : ServiceId → ServiceId → Bool) : Event → ServicesStore
  | .stateChanged id state _ => s.applyState id state
  | .registered status => s.applyRegistered localeCompare status
  | .unregistered id => s.applyUnregistered id
  | .log _ _ => s

end ServicesStore

/-! ### The window and the supervisor -/

/-- A `listServices` request, and whether it was sent after the subscription. -/
inductive Request where
  | sent (subscribed : Bool)
  /-- The list was read, when so many events had been broadcast; it is on its way. -/
  | read (subscribed : Bool) (list : List ServiceStatus) (moment : Nat)
  deriving DecidableEq, Repr

def Request.subscribed : Request → Bool
  | sent b | read b _ _ => b

structure View where
  sup : Listing
  store : ServicesStore
  /-- The events that the window is past, once it has subscribed. -/
  rx : Option Nat
  requests : RequestId → Option Request
  nextRequest : RequestId
  /-- A request that was sent after the subscription has succeeded. -/
  seeded : Bool

inductive Action where
  | supervisor (action : Proc.Action)
  | subscribe
  /-- The next event is delivered. -/
  | event
  | loadServices
  | reload
  /-- The supervisor's list is read for a request. -/
  | read (k : RequestId)
  | success (k : RequestId)
  | failure (k : RequestId) (e : IpcError)

namespace View

variable (v : View)

def setRequest (k : RequestId) (r : Option Request) : View :=
  { v with requests := Function.update v.requests k r }

/-- `fetchServices`, up to its await. -/
def fetchServices : View :=
  { v with
    store := { v.store with snapshot := some v.nextRequest }
    nextRequest := v.nextRequest + 1 }.setRequest v.nextRequest (some (.sent v.rx.isSome))

def loadServices : View :=
  match v.store.snapshot with
  | some _ => v
  | none => v.fetchServices

def reload : View := { v with store := { v.store with snapshot := none } }.loadServices

def next (localeCompare : ServiceId → ServiceId → Bool) : Action → Option View
  | .supervisor action => (v.sup.next action).map fun sup => { v with sup := sup }
  | .subscribe =>
      match v.rx with
      | none => some { v with rx := some v.sup.world.events.length }
      | some _ => none
  | .event => do
      let rx ← v.rx
      let event ← v.sup.world.events[rx]?
      some { v with rx := some (rx + 1), store := v.store.onEvent localeCompare event }
  | .loadServices => some v.loadServices
  | .reload => some v.reload
  | .read k =>
      match v.requests k with
      | some (.sent b) => some (v.setRequest k (some (.read b v.sup.snapshot v.sup.world.events.length)))
      | _ => none
  | .success k =>
      match v.requests k with
      | some (.read b list _) =>
          some ({ v with
            store := { v.store with services := list }, seeded := v.seeded || b }.setRequest k none)
      | _ => none
  | .failure k e =>
      (v.requests k).map fun _ =>
        { v with store := { v.store.fail e with snapshot := none } }.setRequest k none

/-- The window is opened on a supervisor without services. -/
structure Initial : Prop where
  world : v.sup.world.Initial
  ids : v.sup.ids = []
  store : v.store = ⟨[], none, none⟩
  rx : v.rx = none
  requests : ∀ k, v.requests k = none
  seeded : v.seeded = false

end View

/-- The window as a system: any number of requests, in any order with the supervisor and
its events. -/
def view (localeCompare : ServiceId → ServiceId → Bool) : Lts.System View Action where
  init := View.Initial
  next := fun v => v.next localeCompare

/-- **The condition**: events are broadcast in the order of the writes, and a list that
arrives was read after the last event that the window is past. The store puts a list in
the place of its rows whatever it has heard since, so that an older list takes the events
in between back, and nothing brings them again. -/
def Timely (v : View) : Action → Prop
  | .supervisor action => v.sup.world.Orderly action
  | .success k =>
      ∀ b list moment rx, v.requests k = some (.read b list moment) → v.rx = some rx → rx ≤ moment
  | _ => True

/-! ### What the store's changes do to its rows -/

section Store

variable {s : ServicesStore} {localeCompare : ServiceId → ServiceId → Bool} {id : ServiceId}

/-- A list of rows, each of its own service. -/
abbrev Unique (rows : List ServiceStatus) : Prop := (rows.map ServiceStatus.id).Nodup

/-- Rows that are changed, but keep their services. -/
theorem unique_map {rows : List ServiceStatus} {f : ServiceStatus → ServiceStatus}
    (hf : ∀ row, (f row).id = row.id) (hu : Unique rows) : Unique (rows.map f) := by
  rw [Unique, List.map_map, show ServiceStatus.id ∘ f = ServiceStatus.id from funext hf]
  exact hu

theorem rowsOf_map {rows : List ServiceStatus} {f : ServiceStatus → ServiceStatus}
    (hf : ∀ row, (f row).id = row.id) :
    rowsOf (rows.map f) id =
      (rows.find? fun row => row.id = id).map fun row => (f row).state := by
  rw [rowsOf, List.find?_map, Option.map_map]
  have hp : ((fun row : ServiceStatus => decide (row.id = id)) ∘ f) = fun row => decide (row.id = id) := by
    funext row
    simp only [Function.comp_apply, hf]
  rw [hp]
  rfl

theorem rowsOf_perm {rows rows' : List ServiceStatus} (hu : Unique rows) (hp : rows'.Perm rows) :
    rowsOf rows' = rowsOf rows := by
  have hu' : Unique rows' := (hp.map ServiceStatus.id).nodup_iff.mpr hu
  funext id
  apply Option.ext
  intro state
  rw [Proc.rowsOf_eq_some hu', Proc.rowsOf_eq_some hu]
  simp only [hp.mem_iff]

theorem applyState_rows (hu : Unique s.services) (state : ServiceState) (detail : Option String) :
    Unique (s.applyState id state).services ∧
      rowsOf (s.applyState id state).services =
        (Event.stateChanged id state detail).apply (rowsOf s.services) := by
  have hf : ∀ row : ServiceStatus, (if row.id = id then
      { row with state := state, pid := if state = .running then row.pid else none }
      else row).id = row.id := by
    intro row
    split <;> rfl
  refine ⟨unique_map hf hu, ?_⟩
  funext i
  refine (rowsOf_map hf).trans ?_
  by_cases hi : i = id
  · subst hi
    simp only [Event.apply, Function.update_self, rowsOf, Option.map_map]
    refine Option.map_congr fun row hrow => ?_
    have hid : row.id = i := by simpa using List.find?_some hrow
    simp [hid]
  · simp only [Event.apply, Function.update_of_ne hi, rowsOf]
    refine Option.map_congr fun row hrow => ?_
    have hid : row.id = i := by simpa using List.find?_some hrow
    simp [hid, hi]

theorem applyUnregistered_rows (hu : Unique s.services) :
    Unique (s.applyUnregistered id).services ∧
      rowsOf (s.applyUnregistered id).services =
        (Event.unregistered id).apply (rowsOf s.services) := by
  refine ⟨hu.sublist (List.filter_sublist.map _), ?_⟩
  funext i
  by_cases hi : i = id
  · subst hi
    have hnone : (s.applyUnregistered i).services.find? (fun row => row.id = i) = none := by
      rw [List.find?_eq_none]
      intro row hrow
      simpa using (List.mem_filter.mp hrow).2
    simp [Event.apply, rowsOf, hnone]
  · have hsame : (s.applyUnregistered id).services.find? (fun row => row.id = i) =
        s.services.find? fun row => row.id = i := by
      refine List.find?_filter.trans (congrFun (congrArg List.find? ?_) _)
      funext row
      by_cases hrow : row.id = i <;> simp [hrow, hi]
    simp [Event.apply, Function.update_of_ne hi, rowsOf, hsame]

theorem applyRegistered_rows (hu : Unique s.services) (status : ServiceStatus) :
    Unique (s.applyRegistered localeCompare status).services ∧
      rowsOf (s.applyRegistered localeCompare status).services =
        (Event.registered status).apply (rowsOf s.services) := by
  -- the sort changes neither
  have hsort : ∀ rows : List ServiceStatus,
      Unique rows ∧ rowsOf rows = (Event.registered status).apply (rowsOf s.services) →
      Unique (rows.mergeSort fun a b => localeCompare a.id b.id) ∧
        rowsOf (rows.mergeSort fun a b => localeCompare a.id b.id) =
          (Event.registered status).apply (rowsOf s.services) := by
    rintro rows ⟨hrows, heq⟩
    have hperm := List.mergeSort_perm rows fun a b => localeCompare a.id b.id
    exact ⟨(hperm.map ServiceStatus.id).nodup_iff.mpr hrows, (rowsOf_perm hrows hperm).trans heq⟩
  refine hsort _ ?_
  split
  next hknown =>
    obtain ⟨known, hmem, hid⟩ := List.any_eq_true.mp hknown
    have hf : ∀ row : ServiceStatus, (if row.id = status.id then status else row).id = row.id := by
      intro row
      split
      next h => exact h.symm
      next => rfl
    refine ⟨unique_map hf hu, ?_⟩
    funext i
    refine (rowsOf_map hf).trans ?_
    by_cases hi : i = status.id
    · subst hi
      cases hfind : s.services.find? fun row => row.id = status.id with
      | none => exact absurd hid (List.find?_eq_none.mp hfind known hmem)
      | some row =>
          have hrow : row.id = status.id := by simpa using List.find?_some hfind
          simp [Event.apply, hrow]
    · simp only [Event.apply, Function.update_of_ne hi, rowsOf]
      refine Option.map_congr fun row hrow => ?_
      have hid : row.id = i := by simpa using List.find?_some hrow
      simp [hid, hi]
  next hknown =>
    have hnew : ∀ row ∈ s.services, row.id ≠ status.id := by
      simpa using hknown
    constructor
    · rw [Unique, List.map_append, List.nodup_append]
      refine ⟨hu, List.nodup_singleton _, fun a ha b hb => ?_⟩
      obtain ⟨row, hrow, rfl⟩ := List.mem_map.mp ha
      rw [List.mem_singleton.mp hb]
      exact hnew row hrow
    · funext i
      rw [rowsOf, List.find?_append]
      by_cases hi : i = status.id
      · subst hi
        have hnone : s.services.find? (fun row => row.id = status.id) = none := by
          rw [List.find?_eq_none]
          intro row hrow
          simpa using hnew row hrow
        simp [Event.apply, hnone]
      · simp [Event.apply, Function.update_of_ne hi, rowsOf, Ne.symm hi]

/-- **An event does to the list what it does to the rows.** -/
theorem onEvent_rows (hu : Unique s.services) (e : Event) :
    Unique (s.onEvent localeCompare e).services ∧
      rowsOf (s.onEvent localeCompare e).services = e.apply (rowsOf s.services) := by
  cases e with
  | stateChanged id state detail => exact applyState_rows hu state detail
  | log id line => exact ⟨hu, rfl⟩
  | registered status => exact applyRegistered_rows hu status
  | unregistered id => exact applyUnregistered_rows hu

end Store

/-! ### The window stays in step -/

/-- What holds in every state of a run: lists that are on their way are in step wherever
the window stands behind them, and so is the store, once an answer has seeded it. -/
structure View.Sound (v : View) : Prop where
  listing : v.sup.Sound
  proc : Proc.Sound v.sup.world
  calls : Proc.CallsFresh v.sup.world
  sync : ∀ id, Proc.InSync v.sup.world id
  unique : Unique v.store.services
  lists : ∀ k b list moment, v.requests k = some (.read b list moment) →
    Unique list ∧ moment ≤ v.sup.world.events.length ∧
      ∀ n, n ≤ moment → ∀ id, Behind v.sup.world n (rowsOf list) id
  asked : ∀ k r, v.requests k = some r → r.subscribed = true → v.rx.isSome = true
  rx : ∀ rx, v.rx = some rx → rx ≤ v.sup.world.events.length
  seeded : v.seeded = true →
    ∃ rx, v.rx = some rx ∧ ∀ id, Behind v.sup.world rx (rowsOf v.store.services) id

section Converge

variable {localeCompare : ServiceId → ServiceId → Bool} {v v' : View} {a : Action}

theorem events_grow {l l' : Listing} {action : Proc.Action} (h : l.next action = some l') :
    l.world.events.length ≤ l'.world.events.length := by
  obtain ⟨more, hevents, -⟩ := Proc.events_next (Proc.Listing.next_world h)
  rw [hevents, List.length_append]
  exact Nat.le_add_right _ _

/-- A step of the supervisor. -/
theorem sound_supervisor (hv : v.Sound) {action : Proc.Action} {sup : Listing}
    (horder : v.sup.world.Orderly action) (h : v.sup.next action = some sup) :
    ({ v with sup := sup } : View).Sound := by
  have hw := Proc.Listing.next_world h
  have hgrow := events_grow h
  have hbehind : ∀ {n rows id}, n ≤ v.sup.world.events.length → Behind v.sup.world n rows id →
      Behind sup.world n rows id := fun hn hb =>
    Proc.behind_next hv.proc hv.calls hv.sync horder hw hn hb
  exact
    { listing := Proc.Listing.sound_next hv.listing h
      proc := Proc.sound_next hv.proc hw
      calls := Proc.callsFresh_next hv.calls hw
      sync := (Proc.next_told hv.proc hv.calls hw).inSync horder hv.sync
      unique := hv.unique
      lists := by
        intro k b list moment hk
        obtain ⟨hu, hm, hb⟩ := hv.lists k b list moment hk
        exact ⟨hu, hm.trans hgrow, fun n hn id => hbehind (hn.trans hm) (hb n hn id)⟩
      asked := hv.asked
      rx := fun rx hrx => (hv.rx rx hrx).trans hgrow
      seeded := by
        intro hseeded
        obtain ⟨rx, hrx, hb⟩ := hv.seeded hseeded
        exact ⟨rx, hrx, fun id => hbehind (hv.rx rx hrx) (hb id)⟩ }

theorem setRequest_cases {k i : RequestId} {r : Option Request} {r' : Request}
    (h : (v.setRequest k r).requests i = some r') : r = some r' ∨ v.requests i = some r' := by
  have h' : Function.update v.requests k r i = some r' := h
  by_cases hi : i = k
  · subst hi
    exact .inl ((Function.update_self i r v.requests).symm.trans h')
  · exact .inr ((Function.update_of_ne hi r v.requests).symm.trans h')

/-- Requests come and go. -/
theorem sound_setRequest (hv : v.Sound) {k : RequestId} {r : Option Request}
    (hlist : ∀ b list moment, r = some (.read b list moment) →
      Unique list ∧ moment ≤ v.sup.world.events.length ∧
        ∀ n, n ≤ moment → ∀ id, Behind v.sup.world n (rowsOf list) id)
    (hasked : ∀ r', r = some r' → r'.subscribed = true → v.rx.isSome = true) :
    (v.setRequest k r).Sound :=
  { hv with
    lists := by
      intro i b list moment h
      rcases setRequest_cases h with hr | hi
      · exact hlist b list moment hr
      · exact hv.lists i b list moment hi
    asked := by
      intro i r' h hsub
      rcases setRequest_cases h with hr | hi
      · exact hasked r' hr hsub
      · exact hv.asked i r' hi hsub }

theorem sound_fetch (hv : v.Sound) : v.fetchServices.Sound := by
  have hstore : ({ v with
      store := { v.store with snapshot := some v.nextRequest }
      nextRequest := v.nextRequest + 1 } : View).Sound := { hv with }
  refine sound_setRequest hstore (fun _ _ _ h => by cases h) fun r' hr hsub => ?_
  cases hr
  exact hsub

theorem sound_load (hv : v.Sound) : v.loadServices.Sound := by
  unfold View.loadServices
  split
  · exact hv
  · exact sound_fetch hv

/-- **What every timely step keeps.** -/
theorem sound_next (hv : v.Sound) (htimely : Timely v a) (h : v.next localeCompare a = some v') :
    v'.Sound := by
  cases a with
  | supervisor action =>
      obtain ⟨sup, hsup, rfl⟩ := Option.map_eq_some_iff.mp h
      exact sound_supervisor hv htimely hsup
  | subscribe =>
      simp only [View.next] at h
      split at h
      next hrx =>
        cases h
        refine { hv with asked := fun _ _ _ _ => rfl, rx := ?_, seeded := fun hseeded => ?_ }
        · intro rx heq
          cases heq
          exact Nat.le_refl _
        · obtain ⟨rx, heq, -⟩ := hv.seeded hseeded
          rw [hrx] at heq
          cases heq
      next => cases h
  | event =>
      obtain ⟨rx, hrx, h⟩ := Option.bind_eq_some_iff.mp h
      obtain ⟨e, he, h⟩ := Option.bind_eq_some_iff.mp h
      cases h
      obtain ⟨hu, hrows⟩ := onEvent_rows hv.unique e
      obtain ⟨hlt, -⟩ := List.getElem?_eq_some_iff.mp he
      refine { hv with unique := hu, asked := fun _ _ _ _ => rfl, rx := ?_, seeded := ?_ }
      · intro rx' heq
        cases heq
        exact hlt
      · intro hseeded
        obtain ⟨rx', heq, hb⟩ := hv.seeded hseeded
        rw [hrx] at heq
        cases heq
        refine ⟨rx + 1, rfl, fun id => ?_⟩
        rw [hrows]
        exact (hb id).recv he
  | loadServices =>
      cases h
      exact sound_load hv
  | reload =>
      cases h
      have hstore : ({ v with store := { v.store with snapshot := none } } : View).Sound :=
        { hv with }
      exact sound_load hstore
  | read k =>
      simp only [View.next] at h
      split at h
      next b hk =>
        cases h
        refine sound_setRequest hv ?_ ?_
        · intro b' list moment heq
          cases heq
          refine ⟨Proc.nodup_snapshot hv.listing, Nat.le_refl _, fun n _ id => ?_⟩
          rw [Proc.rowsOf_snapshot hv.listing]
          exact Proc.behind_of_rows (hv.sync id) n
        · intro r' heq hsub
          cases heq
          exact hv.asked k _ hk hsub
      next => cases h
  | success k =>
      simp only [View.next] at h
      split at h
      next b list moment hk =>
        cases h
        obtain ⟨hu, hm, hb⟩ := hv.lists k b list moment hk
        have hstore : ({ v with
            store := { v.store with services := list }, seeded := v.seeded || b } : View).Sound := by
          refine { hv with unique := hu, seeded := fun hseeded => ?_ }
          -- the window is behind the list that it puts in place
          have hrx : ∃ rx, v.rx = some rx := by
            rcases Bool.or_eq_true_iff.mp hseeded with hs | rfl
            · obtain ⟨rx, hrx, -⟩ := hv.seeded hs
              exact ⟨rx, hrx⟩
            · exact Option.isSome_iff_exists.mp (hv.asked k _ hk rfl)
          obtain ⟨rx, hrx⟩ := hrx
          exact ⟨rx, hrx, hb rx (htimely b list moment rx hk hrx)⟩
        exact sound_setRequest hstore (fun _ _ _ h => by cases h) fun _ h => by cases h
      next => cases h
  | failure k e =>
      obtain ⟨r, hr, rfl⟩ := Option.map_eq_some_iff.mp h
      have hstore : ({ v with store := { v.store.fail e with snapshot := none } } : View).Sound :=
        { hv with }
      exact sound_setRequest hstore (fun _ _ _ h => by cases h) fun _ h => by cases h

theorem sound_of_initial (h : v.Initial) : v.Sound := by
  obtain ⟨hworld, hids, hstore, hrx, hrequests, hseeded⟩ := h
  have hreach : Proc.supervisor.Reaches Proc.World.Orderly v.sup.world := .init hworld
  obtain ⟨hsync, hcalls⟩ := Proc.inSync_of_reaches hreach
  exact
    { listing := Proc.Listing.sound_of_initial hworld hids
      proc := Proc.sound_of_reachable (hreach.mono fun _ _ _ => trivial)
      calls := hcalls
      sync := hsync
      unique := by rw [hstore]; exact List.nodup_nil
      lists := fun k b list moment hk => by rw [hrequests k] at hk; cases hk
      asked := fun k r hk => by rw [hrequests k] at hk; cases hk
      rx := fun rx heq => by rw [hrx] at heq; cases heq
      seeded := fun hs => by rw [hseeded] at hs; cases hs }

theorem sound_of_reaches (h : (view localeCompare).Reaches Timely v) : v.Sound :=
  h.invariant (fun _ => sound_of_initial) fun _ _ _ hv ha hn => sound_next hv ha hn

/-- **The window converges** in every run in which all answers are timely and no event is
overtaken: once a request that was sent after the subscription has succeeded, everything
is broadcast and the window has read it, the list holds exactly the supervisor's services
and their states. -/
theorem services_converge (h : (view localeCompare).Reaches Timely v) (hseeded : v.seeded = true)
    (hsettled : v.sup.world.Settled) (hread : v.rx = some v.sup.world.events.length) :
    ∀ id state, (∃ row ∈ v.store.services, row.id = id ∧ row.state = state) ↔
      v.sup.world.rows id = some state := by
  intro id state
  have hv := sound_of_reaches h
  obtain ⟨rx, hrx, hb⟩ := hv.seeded hseeded
  rw [hread] at hrx
  cases hrx
  rw [← Proc.rowsOf_eq_some hv.unique, (hb id).read (Nat.le_refl _) hsettled]

/-! ### Runs -/

/-- A check for `Timely`. -/
def timelyNow (v : View) : Action → Bool
  | .supervisor action => v.sup.world.orderlyNow action
  | .success k =>
      match v.requests k, v.rx with
      | some (.read _ _ moment), some rx => decide (rx ≤ moment)
      | _, _ => true
  | _ => true

/-- What the check rests on. -/
def Named (v : View) : Prop := Proc.Sound v.sup.world ∧ Proc.CallsFresh v.sup.world

theorem named_next (hv : Named v) (h : v.next localeCompare a = some v') : Named v' := by
  have hsame : v'.sup = v.sup → Named v' := fun heq => by rw [Named, heq]; exact hv
  cases a with
  | supervisor action =>
      obtain ⟨sup, hsup, rfl⟩ := Option.map_eq_some_iff.mp h
      have hw := Proc.Listing.next_world hsup
      exact ⟨Proc.sound_next hv.1 hw, Proc.callsFresh_next hv.2 hw⟩
  | subscribe | read k | success k =>
      simp only [View.next] at h
      split at h
      · cases h
        exact hsame rfl
      · cases h
  | event =>
      obtain ⟨rx, -, h⟩ := Option.bind_eq_some_iff.mp h
      obtain ⟨e, -, h⟩ := Option.bind_eq_some_iff.mp h
      cases h
      exact hsame rfl
  | loadServices =>
      cases h
      refine hsame ?_
      unfold View.loadServices
      split <;> rfl
  | reload =>
      cases h
      exact hsame rfl
  | failure k e =>
      obtain ⟨r, -, rfl⟩ := Option.map_eq_some_iff.mp h
      exact hsame rfl

theorem timely_of_timelyNow (hv : Named v) (h : timelyNow v a = true) : Timely v a := by
  cases a with
  | supervisor action => exact Proc.orderly_of_orderlyNow hv.1 hv.2 h
  | success k =>
      intro b list moment rx hk hrx
      simpa [timelyNow, hk, hrx] using h
  | subscribe | event | loadServices | reload | read k | failure k e => trivial

/-- The window, opened before any service is there. -/
def opened : View := ⟨⟨.new, []⟩, ⟨[], none, none⟩, none, fun _ => none, 0, false⟩

theorem initial_opened : opened.Initial :=
  ⟨Proc.initial_new, rfl, rfl, rfl, fun _ => rfl, rfl⟩

theorem named_opened : Named opened :=
  ⟨Proc.sound_of_reachable (.init Proc.initial_new), fun _ _ => rfl⟩

/-- One code unit after the other. -/
def byCodePoint (a b : ServiceId) : Bool := decide (a ≤ b)

/-- A service is registered, and the window opens and asks for the list. -/
def seedingRun : List Action :=
  (Proc.callThrough 0 (.register (Proc.sampleSpec "web")) 2).map .supervisor ++
    [.subscribe, .loadServices, .read 0]

/-- The list arrives. The service comes up, and the window, which has heard of two events, asks
again; that list arrives before the rest of the events. -/
def liveRun : List Action :=
  seedingRun ++ [.success 0] ++
    (Proc.callThrough 1 (.start "web") 5 ++ Proc.upToRunning 0 7).map .supervisor ++
    [.event, .event, .reload, .read 1, .success 1, .event, .event, .event]

theorem services_converge_seeded :
    ∃ v : View, v.store.services.map ServiceStatus.id = ["web"] ∧
      v.store.services.map ServiceStatus.state = [.running] ∧
      ∀ id state, (∃ row ∈ v.store.services, row.id = id ∧ row.state = state) ↔
        v.sup.world.rows id = some state := by
  obtain ⟨v, hreach, hv, hp⟩ := Lts.System.exists_of_execWhile
    (S := view byCodePoint) (I := Named) timelyNow liveRun
    (fun v => v.seeded && v.sup.world.quietNow && decide (v.rx = some v.sup.world.events.length) &&
      decide (v.store.services.map ServiceStatus.id = ["web"]) &&
      decide (v.store.services.map ServiceStatus.state = [.running]))
    (fun _ _ _ hv hn => named_next hv hn) (fun _ _ => timely_of_timelyNow) (.init initial_opened)
    named_opened (by decide +kernel)
  simp only [Bool.and_eq_true, decide_eq_true_eq] at hp
  obtain ⟨⟨⟨⟨hseeded, hquiet⟩, hread⟩, hids⟩, hstates⟩ := hp
  exact ⟨v, hids, hstates, services_converge hreach hseeded
    (Proc.settled_of_quietNow hv.1 hv.2 hquiet) hread⟩

/-- The list is read; the service starts, and the window hears of it before the list
arrives. -/
def overtakenAnswer : List Action :=
  seedingRun ++
    (Proc.callThrough 1 (.start "web") 5 ++ Proc.upToRunning 0 7).map .supervisor ++
    List.replicate 5 .event ++ [.success 0]

/-- **An answer that was overtaken**: nothing is under way any more, the service runs, and
the window has it stopped for good. -/
theorem answer_overtaken :
    ¬ ∀ v, (view byCodePoint).Reachable v → v.seeded = true → v.sup.world.Settled →
      v.rx = some v.sup.world.events.length → (∀ k < v.nextRequest, v.requests k = none) →
      ∀ id state, (∃ row ∈ v.store.services, row.id = id ∧ row.state = state) ↔
        v.sup.world.rows id = some state := by
  intro h
  obtain ⟨v, hreach, hv, hp⟩ := Lts.System.exists_of_execWhile
    (S := view byCodePoint) (I := Named) (fun _ _ => true) overtakenAnswer
    (fun v => v.seeded && v.sup.world.quietNow && decide (v.rx = some v.sup.world.events.length) &&
      decide (∀ k < v.nextRequest, v.requests k = none) &&
      decide (v.store.services.map ServiceStatus.state = [.stopped]) &&
      decide (v.sup.world.rows "web" = some .running))
    (fun _ _ _ hv hn => named_next hv hn) (fun _ _ _ _ => trivial) (.init initial_opened)
    named_opened (by decide +kernel)
  simp only [Bool.and_eq_true, decide_eq_true_eq] at hp
  obtain ⟨⟨⟨⟨⟨hseeded, hquiet⟩, hread⟩, hanswered⟩, hstored⟩, hrunning⟩ := hp
  obtain ⟨row, hrow, -, hstate⟩ := (h v hreach hseeded
    (Proc.settled_of_quietNow hv.1 hv.2 hquiet) hread hanswered "web" .running).mpr hrunning
  have hmem : row.state ∈ v.store.services.map ServiceStatus.state := List.mem_map.mpr ⟨row, hrow, rfl⟩
  rw [hstored, hstate] at hmem
  cases List.mem_singleton.mp hmem

end Converge

end OpenVHost.Window
