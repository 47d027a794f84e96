/-
# The event stream and the state

A row is written under the lock and its event is broadcast after the lock is
released. The stream reproduces the rows as long as nobody writes a row while an
earlier write of it is still to be broadcast; where that happens, the later
event may be the older state.

* `next_told` — every step is silent, writes one row, or broadcasts one event.
* `InSync` — the invariant: per service the stream is up to date, or one event
  behind.
* `replay_eq_snapshot` — the conditional result for all runs.
* `stale_event` — a run in which the stream ends with a state that is not the
  service's.
-/

import OpenVHost.Proc.SingleRun

namespace OpenVHost.Proc

/-! ### Reading the stream -/

/-- The rows a subscriber has: services and their states. -/
abbrev Rows := ServiceId → Option ServiceState

def Event.id : Event → ServiceId
  | stateChanged id _ _ => id
  | log id _ => id
  | registered status => status.id
  | unregistered id => id

/-- `Registered` adds a row, `Unregistered` removes it, `StateChanged` sets its
state. -/
def Event.apply (rows : Rows) : Event → Rows
  | stateChanged id state _ => Function.update rows id ((rows id).map fun _ => state)
  | log _ _ => rows
  | registered status => Function.update rows status.id (some status.state)
  | unregistered id => Function.update rows id none

/-- The rows after a stream of events. -/
def replay (events : List Event) : Rows := events.foldl Event.apply fun _ => none

theorem replay_append (events : List Event) (e : Event) :
    replay (events ++ [e]) = e.apply (replay events) := by
  rw [replay, List.foldl_append]
  rfl

theorem apply_of_ne {rows : Rows} {e : Event} {id : ServiceId} (h : id ≠ e.id) :
    e.apply rows id = rows id := by
  cases e with
  | log _ _ => rfl
  | stateChanged _ _ _ | registered _ | unregistered _ => exact Function.update_of_ne h _ _

theorem apply_congr {rows rows' : Rows} {e : Event} (h : rows e.id = rows' e.id) :
    e.apply rows e.id = e.apply rows' e.id := by
  cases e with
  | log id line => exact h
  | stateChanged id state detail =>
      have h' : rows id = rows' id := h
      simp [Event.apply, Event.id, h']
  | registered _ | unregistered _ => simp [Event.apply, Event.id]

theorem apply_log {rows : Rows} {e : Event} (h : e.isState = false) : e.apply rows = rows := by
  cases e with
  | log _ _ => rfl
  | stateChanged _ _ _ | registered _ | unregistered _ => cases h

/-! ### Who still has to broadcast what -/

/-- Who writes rows: callers and tasks. -/
inductive Actor where
  | caller (k : CallId)
  | task (r : RunId)
  deriving DecidableEq, Repr

namespace World

/-- The rows as the supervisor has them. -/
def rows (w : World) : Rows := fun id => (w.entries id).map Entry.state

/-- The state events that an actor has still to broadcast. -/
def owes (w : World) : Actor → List Event
  | .caller k => ((w.calls k).map Call.owes).getD []
  | .task r => ((w.runs r).map fun run => run.task.owes).getD []

/-- A write of the service's row is still to be broadcast. -/
def Pending (w : World) (id : ServiceId) : Prop := ∃ a, ∃ e ∈ w.owes a, e.id = id

/-- Everything that was written was broadcast. -/
def Settled (w : World) : Prop := ∀ a, w.owes a = []

def liveAt (w : World) (id : ServiceId) : Bool := (w.entries id).any fun e => e.state.live

def idleAt (w : World) (id : ServiceId) : Bool := (w.entries id).any fun e => !e.state.live

/-- The row that an action writes, if it writes one. -/
def writes (w : World) : Action → Option ServiceId
  | .caller k =>
      match w.calls k with
      | some (.register spec) => if w.liveAt spec.id then none else some spec.id
      | some (.unregister id) | some (.start id) => if w.idleAt id then some id else none
      | _ => none
  | .task r _ =>
      match w.runs r with
      | some run =>
          match run.task with
          | .setRunning | .setTerminal _ _ => some run.id
          | _ => none
      | none => none
  | _ => none

/-- **The condition**: no row is written while a write of it is still to be
broadcast. A writer holds the lock for the write alone and broadcasts after it,
so that a second writer in between may broadcast first, and the stream then ends
with the older of the two states. -/
def Orderly (w : World) (a : Action) : Prop := ∀ id, w.writes a = some id → ¬ w.Pending id

variable {w w' : World}

theorem rows_of_key (h : ∀ id, (w'.entries id).map Entry.key = (w.entries id).map Entry.key) :
    w'.rows = w.rows := by
  funext id
  have hid := congrArg (Option.map Prod.fst) (h id)
  simpa [rows, Option.map_map, Function.comp_def, Entry.key] using hid

theorem owes_setCall (k : CallId) (c : Call) (a : Actor) :
    (w.setCall k c).owes a = if a = .caller k then c.owes else w.owes a := by
  cases a with
  | task r => rfl
  | caller i =>
      by_cases h : i = k
      · subst h
        simp [owes, setCall]
      · simp [owes, setCall, h]

theorem owes_setRun (r : RunId) (run : Run) (a : Actor) :
    (w.setRun r run).owes a = if a = .task r then run.task.owes else w.owes a := by
  cases a with
  | caller k => rfl
  | task i =>
      by_cases h : i = r
      · subst h
        simp [owes, setRun]
      · simp [owes, setRun, h]

theorem owes_congr (hcalls : w'.calls = w.calls) (hruns : w'.runs = w.runs) (a : Actor) :
    w'.owes a = w.owes a := by
  cases a with
  | caller k => simp [owes, hcalls]
  | task r => simp [owes, hruns]

theorem owes_of_calls (hcalls : w'.calls = w.calls)
    (hruns : ∀ r, w'.owes (.task r) = w.owes (.task r)) (a : Actor) : w'.owes a = w.owes a := by
  cases a with
  | caller k => simp [owes, hcalls]
  | task r => exact hruns r

end World

/-! ### What a step tells -/

/-- What a step does to the rows and to the stream. -/
inductive Told (w : World) (a : Action) (w' : World) : Prop where
  | silent (hrows : w'.rows = w.rows) (hreplay : replay w'.events = replay w.events)
      (howes : ∀ b, w'.owes b = w.owes b)
  | write (b : Actor) (e : Event) (hid : w.writes a = some e.id) (hrows : w'.rows = e.apply w.rows)
      (hevents : w'.events = w.events) (hbefore : w.owes b = [])
      (howes : ∀ c, w'.owes c = if c = b then [e] else w.owes c)
  | emit (b : Actor) (e : Event) (later : List Event) (hrows : w'.rows = w.rows)
      (hevents : w'.events = w.events ++ [e]) (hbefore : w.owes b = e :: later)
      (howes : ∀ c, w'.owes c = if c = b then later else w.owes c)

section Told

variable {w w' w₁ : World} {a : Action} {k : CallId} {r : RunId} {run : Run} {c c' : Call}

theorem owes_caller (hc : w.calls k = some c) : w.owes (.caller k) = c.owes := by
  simp [World.owes, hc]

theorem owes_task (hr : w.runs r = some run) : w.owes (.task r) = run.task.owes := by
  simp [World.owes, hr]

theorem isState_of_mem_owed {e event : Event} {later : List Event}
    (hlater : ∀ e ∈ later, e.isState = true) (he : e ∈ owed event later) : e.isState = true := by
  unfold owed at he
  split at he
  next hstate =>
    rcases List.mem_cons.mp he with rfl | he
    · exact hstate
    · exact hlater e he
  next => exact hlater e he

/-- Only state events are owed. -/
theorem isState_of_owes {b : Actor} {e : Event} (he : e ∈ w.owes b) : e.isState = true := by
  have hcall : ∀ c : Call, ∀ e ∈ c.owes, e.isState = true := by
    intro c
    induction c with
    | emit event next ih => exact fun e he => isState_of_mem_owed ih he
    | log id line next ih => exact ih
    | register | unregister | start | stop | spawn | trySend | returned =>
        exact fun e he => absurd he List.not_mem_nil
  have htask : ∀ t : Task, ∀ e ∈ t.owes, e.isState = true := by
    intro t
    induction t with
    | emit event next ih => exact fun e he => isState_of_mem_owed ih he
    | log source line next ih => exact ih
    | _ => exact fun e he => absurd he List.not_mem_nil
  cases b with
  | caller k =>
      unfold World.owes at he
      cases hc : w.calls k with
      | none => simp [hc] at he
      | some c => exact hcall c e (by simpa [hc] using he)
  | task r =>
      unfold World.owes at he
      cases hr : w.runs r with
      | none => simp [hr] at he
      | some run => exact htask run.task e (by simpa [hr] using he)

/-- A step of a call that changes no row and broadcasts no state event. -/
theorem told_of_silentCall (hc : w.calls k = some c) (hrows : w₁.rows = w.rows)
    (hreplay : replay w₁.events = replay w.events) (hcalls : w₁.calls = w.calls)
    (hruns : ∀ r, w₁.owes (.task r) = w.owes (.task r)) (howes : c'.owes = c.owes) :
    Told w a (w₁.setCall k c') := by
  refine .silent hrows hreplay fun b => ?_
  rw [World.owes_setCall]
  split
  next hb => rw [hb, howes, owes_caller hc]
  next => exact World.owes_of_calls hcalls hruns b

/-- A step of a call that writes a row, and owes its event from then on. -/
theorem told_of_writeCall {e : Event} (hc : w.calls k = some c) (hid : w.writes a = some e.id)
    (hrows : w₁.rows = e.apply w.rows) (hevents : w₁.events = w.events)
    (hcalls : w₁.calls = w.calls) (hruns : ∀ r, w₁.owes (.task r) = w.owes (.task r))
    (hbefore : c.owes = []) (howes : c'.owes = [e]) : Told w a (w₁.setCall k c') := by
  refine .write (.caller k) e hid hrows hevents (by rw [owes_caller hc, hbefore]) fun b => ?_
  rw [World.owes_setCall, howes, World.owes_of_calls hcalls hruns b]

theorem rows_insert {id : ServiceId} {e : Entry} :
    (w.insert id e).rows = Function.update w.rows id (some e.state) := by
  funext i
  by_cases hi : i = id
  · subst hi
    simp [World.rows, World.insert]
  · simp [World.rows, World.insert, hi]

theorem rows_remove {id : ServiceId} : (w.remove id).rows = Function.update w.rows id none := by
  funext i
  by_cases hi : i = id
  · subst hi
    simp [World.rows, World.remove]
  · simp [World.rows, World.remove, hi]

theorem rows_setState {id : ServiceId} {state : ServiceState} {detail : Option String} :
    (w.setState id state).rows = (Event.stateChanged id state detail).apply w.rows := by
  funext i
  simp only [World.rows, World.setState, World.entries_modify, Event.apply]
  by_cases hi : i = id
  · subst hi
    rw [if_pos rfl, Function.update_self]
    cases w.entries i with
    | none => rfl
    | some e => cases state.live <;> rfl
  · rw [if_neg hi, Function.update_of_ne hi]
    rfl

theorem told_register (hc : w.calls k = some (.register spec)) :
    Told w (.caller k) ((w.register spec).1.setCall k (w.register spec).2) := by
  unfold World.register
  split
  next => exact told_of_silentCall hc rfl rfl rfl (fun _ => rfl) rfl
  next hlive =>
    have hlive' : w.liveAt spec.id = false := by simpa [World.liveAt] using hlive
    refine told_of_writeCall (e := .registered ⟨spec.id, spec.displayName, spec.endpoint, none,
      .stopped⟩) hc ?_ rows_insert rfl rfl (fun _ => rfl) rfl rfl
    simp [World.writes, hc, hlive', Event.id]

theorem told_unregister {id : ServiceId} (hc : w.calls k = some (.unregister id)) :
    Told w (.caller k) ((w.unregister id).1.setCall k (w.unregister id).2) := by
  unfold World.unregister
  split
  next => exact told_of_silentCall hc rfl rfl rfl (fun _ => rfl) rfl
  next e he =>
    split
    next => exact told_of_silentCall hc rfl rfl rfl (fun _ => rfl) rfl
    next hterm =>
      have hidle : w.idleAt id = true := by
        cases hst : e.state <;>
          simp [World.idleAt, he, hst, World.checkTerminal, ServiceState.live] at hterm ⊢
      refine told_of_writeCall (e := .unregistered id) hc ?_ rows_remove rfl rfl (fun _ => rfl) rfl rfl
      simp [World.writes, hc, hidle, Event.id]

theorem told_start {id : ServiceId} (hfresh : w.runs w.nextRun = none)
    (hc : w.calls k = some (.start id)) :
    Told w (.caller k) ((w.start id).1.setCall k (w.start id).2) := by
  unfold World.start
  split
  next => exact told_of_silentCall hc rfl rfl rfl (fun _ => rfl) rfl
  next e he =>
    split
    next => exact told_of_silentCall hc rfl rfl rfl (fun _ => rfl) rfl
    next hlive =>
      have hidle : w.idleAt id = true := by simpa [World.idleAt, he] using hlive
      refine told_of_writeCall (e := .stateChanged id .starting (some "requested by user")) hc ?_ ?_
        rfl rfl (fun r => ?_) rfl rfl
      · simp [World.writes, hc, hidle, Event.id]
      · refine rows_insert.trans ?_
        simp only [Event.apply]
        congr 1
        simp [World.rows, he]
      · by_cases hr : r = w.nextRun
        · subst hr
          simp [World.owes, World.setRun, hfresh]
        · simp [World.owes, World.setRun, World.insert, World.setFlag, hr]

theorem owes_spawnTask (r b : RunId) :
    (w.spawnTask r).owes (.task b) = w.owes (.task b) := by
  unfold World.spawnTask
  split
  next => rfl
  next run hr =>
    split
    next ht =>
      rw [World.owes_setRun]
      split
      next hb =>
        rw [hb, owes_task hr, ht]
        rfl
      next => rfl
    next => rfl

theorem owes_trySend (r b : RunId) : (w.trySend r).owes (.task b) = w.owes (.task b) := by
  unfold World.trySend
  split
  next => rfl
  next run hr =>
    split
    next => rfl
    next =>
      rw [World.owes_setRun]
      split
      next hb => rw [hb, owes_task hr]
      next => rfl

theorem told_stop {id : ServiceId} (hc : w.calls k = some (.stop id)) :
    Told w a ((w.stop id).1.setCall k (w.stop id).2) := by
  unfold World.stop
  split
  · exact told_of_silentCall hc rfl rfl rfl (fun _ => rfl) rfl
  · split
    · exact told_of_silentCall hc rfl rfl rfl (fun _ => rfl) rfl
    · exact told_of_silentCall hc rfl rfl rfl (fun _ => rfl) rfl

theorem replay_log {events : List Event} {e : Event} (h : e.isState = false) :
    replay (events ++ [e]) = replay events := by
  rw [replay_append, apply_log h]

theorem told_emitCall {e : Event} {next : Call} (hc : w.calls k = some (.emit e next)) :
    Told w a ((w.send e).setCall k next) := by
  cases he : e.isState with
  | true =>
      refine .emit (.caller k) e next.owes rfl rfl ?_ fun b => World.owes_setCall k next b
      rw [owes_caller hc]
      simp [owed, he]
  | false =>
      have hreplay : replay (w.send e).events = replay w.events := replay_log he
      exact told_of_silentCall hc rfl hreplay rfl (fun _ => rfl) (by simp [owed, he])

theorem told_stepCall (hfresh : w.runs w.nextRun = none) (hc : w.calls k = some c)
    {p : World × Call} (h : w.stepCall c = some p) : Told w (.caller k) (p.1.setCall k p.2) := by
  cases c with
  | register spec =>
      cases h
      exact told_register hc
  | unregister id =>
      cases h
      exact told_unregister hc
  | start id =>
      cases h
      exact told_start hfresh hc
  | stop id =>
      cases h
      exact told_stop hc
  | emit event next =>
      cases h
      exact told_emitCall hc
  | log id line next =>
      cases h
      have hq : Quiet w (w.pushLog id .stdout (World.supervisorLine line)) :=
        World.quiet_pushLog _ _
      exact told_of_silentCall hc (World.rows_of_key hq.key) rfl rfl (fun _ => rfl) rfl
  | spawn r =>
      cases h
      refine told_of_silentCall hc ?_ ?_ ?_ (owes_spawnTask r) rfl
      all_goals
        unfold World.spawnTask
        split
        · rfl
        · split <;> rfl
  | trySend control =>
      cases control with
      | none =>
          cases h
          exact told_of_silentCall hc rfl rfl rfl (fun _ => rfl) rfl
      | some r =>
          cases h
          refine told_of_silentCall hc ?_ ?_ ?_ (owes_trySend r) rfl
          all_goals
            unfold World.trySend
            split
            · rfl
            · split <;> rfl
  | returned result => cases h

/-! ### Tasks, readers and the outside -/

/-- A step of a run that changes no row, and of what it owes nothing. -/
theorem told_of_silentRun {run' : Run} (hq : Quiet w w₁) (hr : w.runs r = some run)
    (howes : run'.task.owes = run.task.owes) : Told w a (w₁.setRun r run') := by
  refine .silent (World.rows_of_key hq.key) (congrArg replay hq.events) fun b => ?_
  rw [World.owes_setRun]
  split
  next hb => rw [hb, howes, owes_task hr]
  next => exact World.owes_congr hq.calls hq.runs b

theorem told_stepTask (hr : w.runs r = some run) {answer : Answer}
    (h : w.stepTask r run answer = some w') : Told w (.task r answer) w' := by
  cases stepTask_cases h with
  | quiet hw hk howes => exact told_of_silentRun hw hr howes
  | @write state detail next ht =>
      have howes : run.task.owes = [] ∧ next.owes = [] := by
        generalize run.task = t at ht
        cases ht <;> exact ⟨rfl, rfl⟩
      refine .write (.task r) (.stateChanged run.id state detail) ?_ rows_setState rfl ?_ fun b => ?_
      · generalize htask : run.task = t at ht
        cases ht <;> simp [World.writes, hr, htask, Event.id]
      · rw [owes_task hr, howes.1]
      · rw [World.owes_setRun, World.owes_congr (w := w) rfl rfl b]
        simp only [Task.owes, owed, Event.isState, if_true, howes.2]
        rfl
  | @emit event next ht =>
      cases he : event.isState with
      | true =>
          refine .emit (.task r) event next.owes rfl rfl ?_ fun b => World.owes_setRun r _ b
          rw [owes_task hr, ht]
          simp [owed, he]
      | false =>
          refine .silent rfl (replay_log he) fun b => ?_
          rw [World.owes_setRun]
          split
          next hb =>
            rw [hb, owes_task hr, ht]
            simp [owed, he]
          next => rfl

theorem stepCall_events {c : Call} {p : World × Call} (h : w.stepCall c = some p) :
    p.1.events = w.events ∨
      ∃ event next, c = .emit event next ∧ p.1.events = w.events ++ [event] := by
  cases c with
  | returned => cases h
  | emit event next =>
      cases h
      exact .inr ⟨event, next, rfl, rfl⟩
  | log id line next =>
      cases h
      exact .inl rfl
  | register spec =>
      cases h
      refine .inl ?_
      unfold World.register
      split <;> rfl
  | unregister id =>
      cases h
      refine .inl ?_
      unfold World.unregister
      split
      · rfl
      · split <;> rfl
  | start id =>
      cases h
      refine .inl ?_
      unfold World.start
      split
      · rfl
      · split <;> rfl
  | stop id =>
      cases h
      refine .inl ?_
      unfold World.stop
      split
      · rfl
      · split <;> rfl
  | spawn r =>
      cases h
      refine .inl ?_
      unfold World.spawnTask
      split
      · rfl
      · split <;> rfl
  | trySend control =>
      refine .inl ?_
      cases control with
      | none =>
          cases h
          rfl
      | some r =>
          cases h
          unfold World.trySend
          split
          · rfl
          · split <;> rfl

/-- What is added to the stream was owed, or is a line of a log. -/
theorem events_next (h : w.next a = some w') :
    ∃ l, w'.events = w.events ++ l ∧ ∀ e ∈ l, e.isState = true → ∃ b, e ∈ w.owes b := by
  have hsame : w'.events = w.events →
      ∃ l, w'.events = w.events ++ l ∧ ∀ e ∈ l, e.isState = true → ∃ b, e ∈ w.owes b :=
    fun heq => ⟨[], by rw [heq, List.append_nil], by simp⟩
  cases next_cases h with
  | call | tick => exact hsame rfl
  | own _ hw _ _ => exact hsame hw.events
  | readerEmit line =>
      refine ⟨[_], rfl, fun e he hstate => ?_⟩
      rw [List.mem_singleton.mp he] at hstate
      cases hstate
  | @task r run answer _ hr hstep =>
      cases stepTask_cases hstep with
      | quiet hw _ _ => exact hsame hw.events
      | write _ => exact hsame rfl
      | @emit event next ht =>
          refine ⟨[event], rfl, fun e he hstate => ⟨.task r, ?_⟩⟩
          obtain rfl := List.mem_singleton.mp he
          rw [owes_task hr, ht]
          simp [owed, hstate]
  | @caller k c c' w₁ hc hstep =>
      rcases stepCall_events hstep with heq | ⟨event, next, rfl, heq⟩
      · exact hsame heq
      · refine ⟨[event], heq, fun e he hstate => ⟨.caller k, ?_⟩⟩
        obtain rfl := List.mem_singleton.mp he
        rw [owes_caller hc]
        simp [owed, hstate]

/-- No name of a call is given out twice. -/
def CallsFresh (w : World) : Prop := ∀ k, w.nextCall ≤ k → w.calls k = none

/-- **What a step tells.** -/
theorem next_told (hs : Sound w) (hcalls : CallsFresh w)
    (h : w.next a = some w') : Told w a w' := by
  cases next_cases h with
  | @call c hnew =>
      refine .silent rfl rfl fun b => ?_
      rw [World.owes_setCall]
      split
      next hb =>
        rw [hb, World.owes, hcalls _ (Nat.le_refl _)]
        cases c <;> first | rfl | cases hnew
      next => rfl
  | caller hc hstep => exact told_stepCall (hs.fresh _ (Nat.le_refl _)) hc hstep
  | task hr h => exact told_stepTask hr h
  | own hr hw _ htask => exact told_of_silentRun hw hr (by rw [htask])
  | readerEmit line hr _ htask =>
      refine .silent rfl (replay_log rfl) fun b => ?_
      rw [World.owes_setRun]
      split
      next hb => rw [hb, htask, owes_task hr]
      next => rfl
  | tick => exact .silent rfl rfl fun _ => rfl

theorem callsFresh_next (hcalls : CallsFresh w) (h : w.next a = some w') : CallsFresh w' := by
  have hkept : w'.calls = w.calls ∧ w'.nextCall = w.nextCall → CallsFresh w' := by
    rintro ⟨hc, hn⟩ k hk
    rw [hc]
    exact hcalls k (hn ▸ hk)
  cases next_cases h with
  | call =>
      intro k hk
      have hlt : w.nextCall < k := hk
      exact (Function.update_of_ne hlt.ne' _ _).trans (hcalls k hlt.le)
  | @caller k c c' w₁ hc hstep =>
      obtain ⟨hpc, hpn⟩ := stepCall_calls hstep
      intro i hi
      have hi' : w.nextCall ≤ i := hpn ▸ hi
      have hne : i ≠ k := by
        rintro rfl
        rw [hcalls i hi'] at hc
        cases hc
      exact (Function.update_of_ne hne _ _).trans ((congrFun hpc i).trans (hcalls i hi'))
  | task hr h => exact hkept (stepTask_calls h)
  | own hr hw _ _ => exact hkept ⟨hw.calls, hw.nextCall⟩
  | readerEmit | tick => exact hkept ⟨rfl, rfl⟩

theorem callsFresh_of_reachable : supervisor.Reachable w → CallsFresh w := by
  apply Lts.System.Reaches.invariant
  · rintro w ⟨-, -, hcalls, -⟩ k _
    exact hcalls k
  · exact fun w a w' hcalls _ hn => callsFresh_next hcalls hn

end Told

/-! ### The stream reproduces the rows -/

/-- **The invariant**, for one service: the stream gives its row, or one event is
still to be broadcast and gives its row then. -/
inductive InSync (w : World) (id : ServiceId) : Prop where
  | settled (hnone : ¬ w.Pending id) (hrow : replay w.events id = w.rows id)
  | behind (b : Actor) (e : Event) (hid : e.id = id) (howes : w.owes b = [e])
      (hothers : ∀ c, c ≠ b → ∀ e' ∈ w.owes c, e'.id ≠ id)
      (hrow : e.apply (replay w.events) id = w.rows id)

section Sync

variable {w w' : World} {a : Action} {id : ServiceId}

theorem Told.inSync (h : Told w a w') (horder : w.Orderly a) (hsync : ∀ id, InSync w id)
    (id : ServiceId) : InSync w' id := by
  cases h with
  | silent hrows hreplay howes =>
      cases hsync id with
      | settled hnone hrow =>
          refine .settled ?_ (by rw [hreplay, hrows, hrow])
          rintro ⟨b, e, he, hid⟩
          exact hnone ⟨b, e, howes b ▸ he, hid⟩
      | behind b e hid howe hothers hrow =>
          refine .behind b e hid ((howes b).trans howe) (fun c hc e' he' => ?_)
            (by rw [hreplay, hrows, hrow])
          exact hothers c hc e' (howes c ▸ he')
  | write b e hwrites hrows hevents hbefore howes =>
      have hfree := horder e.id hwrites
      by_cases hid : id = e.id
      · -- the row that is written: nothing else of it is pending
        subst hid
        cases hsync e.id with
        | behind b' e' hid' howe _ _ => exact absurd ⟨b', e', by simp [howe], hid'⟩ hfree
        | settled _ hrow =>
            refine .behind b e rfl ((howes b).trans (if_pos rfl)) (fun c hc e' he' hid' => ?_) ?_
            · rw [howes c, if_neg hc] at he'
              exact hfree ⟨c, e', he', hid'⟩
            · rw [hevents, hrows]
              exact apply_congr hrow
      · cases hsync id with
        | settled hnone hrow =>
            refine .settled ?_ ?_
            · rintro ⟨c, e', he', hid'⟩
              rw [howes c] at he'
              split at he'
              · cases List.mem_singleton.mp he'
                exact hid hid'.symm
              · exact hnone ⟨c, e', he', hid'⟩
            · rw [hevents, hrows, apply_of_ne hid, hrow]
        | behind b' e' hid' howe hothers hrow =>
            have hne : b' ≠ b := by
              rintro rfl
              rw [hbefore] at howe
              cases howe
            refine .behind b' e' hid' (by rw [howes b', if_neg hne, howe]) (fun c hc e'' he'' => ?_) ?_
            · rw [howes c] at he''
              split at he''
              · cases List.mem_singleton.mp he''
                exact fun h => hid h.symm
              · exact hothers c hc e'' he''
            · rw [hevents, hrows, apply_of_ne hid, hrow]
  | emit b e later hrows hevents hbefore howes =>
      by_cases hid : id = e.id
      · subst hid
        cases hsync e.id with
        | settled hnone _ => exact absurd ⟨b, e, by simp [hbefore], rfl⟩ hnone
        | behind b' e' hid' howe hothers hrow =>
            -- it is this event that was pending
            have hb : b' = b := by
              by_contra hne
              exact hothers b (Ne.symm hne) e (by simp [hbefore]) rfl
            subst hb
            rw [hbefore] at howe
            cases howe
            refine .settled ?_ ?_
            · rintro ⟨c, e'', he'', hid''⟩
              rw [howes c] at he''
              split at he''
              · cases he''
              next hc => exact hothers c hc e'' he'' hid''
            · rw [hevents, replay_append, hrows, hrow]
      · cases hsync id with
        | settled hnone hrow =>
            refine .settled ?_ ?_
            · rintro ⟨c, e'', he'', hid''⟩
              rw [howes c] at he''
              split at he''
              · exact hnone ⟨b, e'', by simp [hbefore, he''], hid''⟩
              · exact hnone ⟨c, e'', he'', hid''⟩
            · rw [hevents, replay_append, apply_of_ne hid, hrows, hrow]
        | behind b' e' hid' howe hothers hrow =>
            have hne : b' ≠ b := by
              rintro rfl
              rw [hbefore] at howe
              cases howe
              exact hid hid'.symm
            refine .behind b' e' hid' (by rw [howes b', if_neg hne, howe]) (fun c hc e'' he'' => ?_) ?_
            · rw [howes c] at he''
              split at he''
              next heq => exact hothers c hc e'' (by simp [heq, hbefore, he''])
              · exact hothers c hc e'' he''
            · subst hid'
              rw [hevents, replay_append, hrows, apply_congr (apply_of_ne hid), hrow]

/-- Every service is in sync in a run without overtaken writes. -/
theorem inSync_of_reaches (h : supervisor.Reaches World.Orderly w) :
    (∀ id, InSync w id) ∧ CallsFresh w := by
  have hsound : ∀ w, supervisor.Reaches World.Orderly w → Sound w := fun _ hw =>
    sound_of_reachable (hw.mono fun _ _ _ => trivial)
  refine Lts.System.Reaches.invariant_beside (I := fun w => (∀ id, InSync w id) ∧ CallsFresh w)
    hsound ?_ ?_ h
  · rintro w ⟨hentries, hruns, hcalls, hevents⟩
    refine ⟨fun id => .settled ?_ ?_, fun k _ => hcalls k⟩
    · rintro ⟨b, e, he, -⟩
      cases b <;> simp [World.owes, hruns, hcalls] at he
    · rw [hevents, World.rows, hentries]
      rfl
  · rintro w a w' hs ⟨hsync, hcalls⟩ horder hn
    exact ⟨(next_told hs hcalls hn).inSync horder hsync, callsFresh_next hcalls hn⟩

/-- Nobody owes an event, as far as calls and runs were made. -/
def World.quietNow (w : World) : Bool :=
  ((List.range w.nextCall).all fun k => decide (w.owes (.caller k) = [])) &&
  ((List.range w.nextRun).all fun r => decide (w.owes (.task r) = []))

/-- A check for `Orderly`. -/
def World.orderlyNow (w : World) (a : Action) : Bool := (w.writes a).isNone || w.quietNow

theorem settled_of_quietNow (hs : Sound w) (hcalls : CallsFresh w) (h : w.quietNow = true) :
    w.Settled := by
  obtain ⟨hc, hr⟩ := Bool.and_eq_true_iff.mp h
  intro b
  cases b with
  | caller k =>
      by_cases hk : k < w.nextCall
      · exact of_decide_eq_true (List.all_eq_true.mp hc k (List.mem_range.mpr hk))
      · rw [World.owes, hcalls k (Nat.le_of_not_lt hk)]
        rfl
  | task r =>
      by_cases hk : r < w.nextRun
      · exact of_decide_eq_true (List.all_eq_true.mp hr r (List.mem_range.mpr hk))
      · rw [World.owes, hs.fresh r (Nat.le_of_not_lt hk)]
        rfl

theorem orderly_of_orderlyNow (hs : Sound w) (hcalls : CallsFresh w)
    (h : w.orderlyNow a = true) : w.Orderly a := by
  intro id hid hpending
  rcases Bool.or_eq_true_iff.mp h with hnone | hquiet
  · rw [hid] at hnone
    cases hnone
  · obtain ⟨b, e, he, -⟩ := hpending
    rw [settled_of_quietNow hs hcalls hquiet b] at he
    cases he

/-- **The stream reproduces the snapshot** in every run in which no row is written
while a write of it is still to be broadcast: once everything written is
broadcast, and so once no operation is in progress, the events give exactly the
services and states that `snapshot` reports. -/
theorem replay_eq_snapshot (h : supervisor.Reaches World.Orderly w) (hsettled : w.Settled) :
    ∀ id, replay w.events id = (w.snapshot id).map ServiceStatus.state := by
  intro id
  have hrow : w.rows id = (w.snapshot id).map ServiceStatus.state := by
    rw [World.snapshot, Option.map_map]
    rfl
  cases (inSync_of_reaches h).1 id with
  | settled _ hsync => exact hsync.trans hrow
  | behind b e _ howes _ _ =>
      rw [hsettled b] at howes
      cases howes

/-- Every call has returned, and every task is done or watches its child. -/
def World.atRest (w : World) : Bool :=
  ((List.range w.nextCall).all fun k =>
    (w.calls k).all fun c => match c with | .returned _ => true | _ => false) &&
  ((List.range w.nextRun).all fun r =>
    (w.runs r).all fun run => match run.task with | .supervise | .done => true | _ => false)

/-- A task's way from its spawn to its `Running`. -/
def upToRunning (r : RunId) (pid : Nat) : List Action :=
  [.task r (.spawned (some pid)), .task r .go, .task r (.recorded none false), .task r .go,
    .task r .go, .task r .go, .task r .elapsed, .task r .go, .task r .go, .task r .go, .task r .go]

/-- A task's way from its child's exit to its last write, which it has not
broadcast yet. -/
def upToLastWrite (r : RunId) : List Action :=
  [.exit r (some ⟨some 0, "exit status: 0"⟩), .task r .exited, .task r .elapsed, .task r .go,
    .task r .go, .task r .go, .task r .go, .task r (.removed true), .task r .go]

/-- A service is registered, comes up and is stopped. -/
def lifeRun : List Action :=
  callThrough 0 (.register (sampleSpec "web")) 2 ++ callThrough 1 (.start "web") 5 ++
    upToRunning 0 7 ++ callThrough 2 (.stop "web") 4 ++ [.task 0 .received] ++ upToLastWrite 0 ++
    [.task 0 .go]

/-- The life of a service, each row broadcast before the next one is written. -/
theorem replay_eq_snapshot_stopped :
    ∃ w : World, w.atRest = true ∧ w.events.length = 9 ∧ w.rows "web" = some .stopped ∧
      ∀ id, replay w.events id = (w.snapshot id).map ServiceStatus.state := by
  obtain ⟨w, hw, hnamed, hp⟩ := Lts.System.exists_of_execWhile (S := supervisor)
    (I := fun w => Sound w ∧ CallsFresh w) World.orderlyNow lifeRun
    (fun w => w.quietNow && (w.atRest && decide (w.events.length = 9) &&
      decide (w.rows "web" = some .stopped)))
    (fun _ _ _ h hn => ⟨sound_next h.1 hn, callsFresh_next h.2 hn⟩)
    (fun _ _ h hok => orderly_of_orderlyNow h.1 h.2 hok) (.init initial_new)
    ⟨sound_of_reachable (.init initial_new), fun _ _ => rfl⟩ (by decide +kernel)
  simp only [Bool.and_eq_true, decide_eq_true_eq] at hp
  obtain ⟨hquiet, ⟨hrest, hlength⟩, hrow⟩ := hp
  exact ⟨w, hrest, hlength, hrow,
    replay_eq_snapshot hw (settled_of_quietNow hnamed.1 hnamed.2 hquiet)⟩

/-- A service stops; before its task broadcasts that, the service is started
again and comes up. -/
def overtakenRun : List Action :=
  callThrough 0 (.register (sampleSpec "web")) 2 ++ callThrough 1 (.start "web") 5 ++
    upToRunning 0 7 ++ upToLastWrite 0 ++ callThrough 2 (.start "web") 5 ++ upToRunning 1 8 ++
    [.task 0 .go]

/-- **An overtaken write**: nothing is in progress any more, the service runs, and
the stream has it stopped. -/
theorem stale_event :
    ¬ ∀ w, supervisor.Reachable w → w.atRest = true →
      ∀ id, replay w.events id = (w.snapshot id).map ServiceStatus.state := by
  intro h
  obtain ⟨w, hw, hstale⟩ := Lts.System.exists_of_exec (S := supervisor) overtakenRun
    (fun w => w.atRest && decide (replay w.events "web" = some .stopped) &&
      decide ((w.snapshot "web").map ServiceStatus.state = some .running))
    (.init initial_new) (by decide +kernel)
  simp only [Bool.and_eq_true, decide_eq_true_eq] at hstale
  obtain ⟨⟨hrest, hreplay⟩, hsnapshot⟩ := hstale
  have heq := h w hw hrest "web"
  rw [hreplay, hsnapshot] at heq
  cases heq

end Sync

end OpenVHost.Proc
