/-
# What a step can do

The steps of a task are many and most of them change nothing that the other
parties look at. `stepTask_cases` says once what a task's step does: it is quiet,
or it writes a state, or it broadcasts an event.

* `Task.ended`, `Task.childless`, `Task.unspawned` — where a task stands: its last
  write is done; its child is known to be gone; its child is not there yet.
* `Task.owes`, `Call.owes` — the state events that were written and not broadcast.
* `Quiet`, `Keeps` — what a quiet step leaves of the world and of its run.
* `next_cases` — what a step of the supervisor does, whoever takes it.
-/

import OpenVHost.Proc.Supervisor

namespace OpenVHost.Proc

open OpenVHost.Orphan (Op)

/-! ### Where a task stands -/

namespace Task

/-- The run's last state is written. -/
@[simp] def ended : Task → Bool
  | log _ _ next | emit _ next => next.ended
  | done => true
  | _ => false

/-- The task has seen its child exit, or never got one. -/
@[simp] def childless : Task → Bool
  | drainReaders _ | stderrTailSnapshot _ | classify _ _ | removeRecord _ _ | setTerminal _ _
  | done => true
  | log _ _ next | emit _ next => next.childless
  | _ => false

/-- The child is not spawned yet. -/
@[simp] def unspawned : Task → Bool
  | queued | spawn => true
  | log _ _ next | emit _ next => next.unspawned
  | _ => false

@[simp] theorem ended_note (line : String) (next : Task) : (note line next).ended = next.ended :=
  rfl

@[simp] theorem childless_note (line : String) (next : Task) :
    (note line next).childless = next.childless := rfl

@[simp] theorem unspawned_note (line : String) (next : Task) :
    (note line next).unspawned = next.unspawned := rfl

end Task

/-- A change of a service's row, not a line of its log. -/
def Event.isState : Event → Bool
  | .log _ _ => false
  | .stateChanged _ _ _ | .registered _ | .unregistered _ => true

/-- The state events among what is still to be broadcast. -/
def owed (event : Event) (later : List Event) : List Event :=
  if event.isState then event :: later else later

@[simp] def Task.owes : Task → List Event
  | log _ _ next => next.owes
  | emit event next => owed event next.owes
  | _ => []

@[simp] def Call.owes : Call → List Event
  | log _ _ next => next.owes
  | emit event next => owed event next.owes
  | _ => []

@[simp] theorem Task.owes_note (line : String) (next : Task) : (note line next).owes = next.owes :=
  rfl

/-! ### What a step leaves -/

namespace Run

/-- What a run's child is, by where its task stands. -/
structure Fine (run : Run) : Prop where
  gone : run.task.childless = true → run.child ≠ .alive
  unborn : run.task.unspawned = true → run.child = .unborn

/-- A step of a run that neither starts nor ends it. -/
structure Keeps (run run' : Run) : Prop where
  id : run'.id = run.id
  ended : run'.task.ended = run.task.ended
  fine : run.Fine → run'.Fine

theorem Keeps.refl (run : Run) : run.Keeps run := ⟨rfl, rfl, fun h => h⟩

end Run

/-- What decides who runs a service: its state and its control channel. -/
def Entry.key (e : Entry) : ServiceState × Option RunId := (e.state, e.control)

/-- A change of the world that no other party looks at. -/
structure Quiet (w w' : World) : Prop where
  key : ∀ id, (w'.entries id).map Entry.key = (w.entries id).map Entry.key
  events : w'.events = w.events
  runs : w'.runs = w.runs
  nextRun : w'.nextRun = w.nextRun
  calls : w'.calls = w.calls
  nextCall : w'.nextCall = w.nextCall

theorem Quiet.refl (w : World) : Quiet w w := ⟨fun _ => rfl, rfl, rfl, rfl, rfl, rfl⟩

namespace World

variable {w : World} {id i : ServiceId} {f : Entry → Entry}

theorem entries_modify :
    (w.modify id f).entries i = if i = id then (w.entries id).map f else w.entries i := by
  unfold modify
  by_cases h : i = id
  · subst h
    simp
  · simp [h]

theorem quiet_modify (hf : ∀ e, (f e).key = e.key) : Quiet w (w.modify id f) := by
  refine ⟨fun i => ?_, rfl, rfl, rfl, rfl, rfl⟩
  rw [entries_modify]
  by_cases h : i = id
  · subst h
    rw [if_pos rfl, Option.map_map, show Entry.key ∘ f = Entry.key from funext hf]
  · rw [if_neg h]

theorem quiet_pushLog (source : StreamSource) (line : String) :
    Quiet w (w.pushLog id source line) :=
  quiet_modify fun _ => rfl

theorem quiet_setPid (pid : Option Nat) : Quiet w (w.setPid id pid) := quiet_modify fun _ => rfl

theorem quiet_askRegistry (calls : List (Op × Bool)) : Quiet w (w.askRegistry calls) :=
  ⟨fun _ => rfl, rfl, rfl, rfl, rfl, rfl⟩

end World

/-! ### The step of a task -/

/-- The two writes of a task: the state, the detail of its event, and what follows. -/
inductive WritesNext : Task → ServiceState → Option String → Task → Prop where
  | running : WritesNext .setRunning .running none .supervise
  | terminal (state : Terminal) (detail : Option String) :
      WritesNext (.setTerminal state detail) state.1 detail .done

/-- What a step of the task of run `r` does. -/
inductive TaskMove (w : World) (r : RunId) (run : Run) : World → Prop where
  /-- It is the run's own business. -/
  | quiet {w₁ : World} {run' : Run} (hw : Quiet w w₁) (hk : run.Keeps run')
      (howes : run'.task.owes = run.task.owes) :
      TaskMove w r run (w₁.setRun r run')
  /-- It writes the service's state. -/
  | write {state : ServiceState} {detail : Option String} {next : Task}
      (ht : WritesNext run.task state detail next) :
      TaskMove w r run ((w.setState run.id state).setRun r
        { run with task := .emit (.stateChanged run.id state detail) next })
  /-- It broadcasts an event. -/
  | emit {event : Event} {next : Task} (ht : run.task = .emit event next) :
      TaskMove w r run ((w.send event).setRun r { run with task := next })

section Task

variable {w w' : World} {r : RunId} {run : Run}

theorem TaskMove.self {run' : Run} (hk : run.Keeps run') (howes : run'.task.owes = run.task.owes) :
    TaskMove w r run (w.setRun r run') :=
  .quiet (Quiet.refl w) hk howes

/-- A step from one place of a task to another that tells nothing new of the child. -/
def Task.Follows (t t' : Task) : Prop :=
  t'.ended = t.ended ∧ t'.owes = t.owes ∧ (t'.childless = true → t.childless = true) ∧
    (t'.unspawned = true → t.unspawned = true)

theorem Run.keeps_of_follows {t : Task} (h : run.task.Follows t) :
    run.Keeps { run with task := t } := by
  obtain ⟨hended, -, hchild, hborn⟩ := h
  exact ⟨rfl, hended, fun hf => ⟨fun ht => hf.gone (hchild ht), fun ht => hf.unborn (hborn ht)⟩⟩

theorem follows_move {w₁ : World} {t : Task} (hw : Quiet w w₁) (h : run.task.Follows t) :
    TaskMove w r run (w₁.goto r run t) :=
  .quiet hw (Run.keeps_of_follows h) h.2.1

theorem goto_move {t : Task} (h : run.task.Follows t) : TaskMove w r run (w.goto r run t) :=
  follows_move (.refl w) h

theorem onExit_move {status : Option ExitStatus → Task} (h : w.onExit r run status = some w')
    (hended : ∀ s, (status s).ended = run.task.ended) (howes : ∀ s, (status s).owes = run.task.owes)
    (hborn : ∀ s, (status s).unspawned = false) : TaskMove w r run w' := by
  unfold World.onExit at h
  cases hc : run.child with
  | unborn | alive => simp [hc] at h
  | exited s =>
      simp only [hc, Option.some.injEq] at h
      subst h
      refine .self ⟨rfl, hended s, fun _ => ⟨fun _ => ?_, fun ht => ?_⟩⟩ (howes s)
      · show run.child ≠ .alive
        simp [hc]
      · have hb : (status s).unspawned = true := ht
        rw [hborn s] at hb
        cases hb

/-- **What a task's step does.** -/
theorem stepTask_cases {answer : Answer} (h : w.stepTask r run answer = some w') :
    TaskMove w r run w' := by
  unfold World.stepTask at h
  split at h
  case h_1 ht =>
    -- the child is there
    cases h
    refine .self ⟨rfl, by simp [ht], fun _ => ⟨?_, ?_⟩⟩ (by simp [ht]) <;> simp
  case h_2 ht =>
    -- there is no child, and there will be none
    cases h
    refine .self ⟨rfl, by simp [ht], fun hf => ⟨fun _ => ?_, ?_⟩⟩ (by simp [ht])
    · show run.child ≠ .alive
      rw [hf.unborn (by simp [ht])]
      simp
    · simp
  case h_3 pid ht =>
    cases h
    refine follows_move (World.quiet_setPid pid) ?_
    cases pid <;> simp [ht, Task.Follows]
  case h_4 pid startTime stored ht =>
    cases h
    exact follows_move (World.quiet_askRegistry _) (by simp [ht, Task.Follows])
  case h_5 ht =>
    cases h
    refine .self ⟨rfl, ?_, fun _ => ⟨?_, ?_⟩⟩ ?_ <;> simp [ht]
  case h_6 ht =>
    split at h
    · cases h
      exact goto_move
        (by simp [ht, Task.Follows])
    · exact onExit_move h (by simp [ht]) (by simp [ht])
        (by simp)
    · cases h
      exact goto_move
        (by simp [ht, Task.Follows])
    · cases h
  case h_7 ht | h_8 ht | h_10 ht | h_11 ht | h_17 ht | h_20 ht | h_21 ht | h_22 ht =>
    cases h
    exact goto_move (by simp [ht, Task.Follows, Task.finishWithState])
  case h_9 ht | h_12 ht | h_14 ht | h_16 ht | h_18 ht =>
    exact onExit_move h (by simp [ht]) (by simp [ht]) (by simp)
  case h_13 ht =>
    cases h
    exact .write (ht ▸ .running)
  case h_15 ht =>
    -- the message is taken out of the channel
    split at h
    · cases h
      refine .self ⟨rfl, ?_, fun _ => ⟨?_, ?_⟩⟩ ?_ <;> simp [ht]
    · cases h
  case h_19 ht =>
    split at h
    · cases h
      exact goto_move (by simp [ht, Task.Follows])
    · cases h
  case h_23 state detail stored ht =>
    cases h
    exact follows_move (World.quiet_askRegistry _) (by simp [ht, Task.Follows])
  case h_24 state detail ht =>
    cases h
    exact .write (ht ▸ .terminal state detail)
  case h_25 source line next ht =>
    cases h
    refine follows_move (World.quiet_pushLog source line) ?_
    simp [ht, Task.Follows, owed, Event.isState]
  case h_26 event next ht =>
    cases h
    exact .emit ht
  case h_27 => cases h

end Task

/-! ### The step of the supervisor -/

/-- What a step of the supervisor does. -/
inductive NextMove (w : World) : Action → World → Prop where
  /-- A call is made; it has not begun. -/
  | call {c : Call} (hnew : c.isNew = true) :
      NextMove w (.call c) ({ w with nextCall := w.nextCall + 1 }.setCall w.nextCall c)
  | caller {k : CallId} {c c' : Call} {w₁ : World} (hc : w.calls k = some c)
      (hstep : w.stepCall c = some (w₁, c')) : NextMove w (.caller k) (w₁.setCall k c')
  | task {r : RunId} {run : Run} {answer : Answer} {w' : World} (hr : w.runs r = some run)
      (h : w.stepTask r run answer = some w') : NextMove w (.task r answer) w'
  /-- A run's child or one of its readers goes on; its task stands still. -/
  | own {a : Action} {r : RunId} {run run' : Run} {w₁ : World} (hr : w.runs r = some run)
      (hw : Quiet w w₁) (hk : run.Keeps run') (htask : run'.task = run.task) :
      NextMove w a (w₁.setRun r run')
  | readerEmit {a : Action} {r : RunId} {run run' : Run} (line : LogLine)
      (hr : w.runs r = some run) (hk : run.Keeps run') (htask : run'.task = run.task) :
      NextMove w a ((w.send (.log run.id line)).setRun r run')
  | tick : NextMove w .tick { w with clock := w.clock + 1 }

section Next

variable {w w' : World} {a : Action}

theorem stepCall_calls {c : Call} {p : World × Call} (h : w.stepCall c = some p) :
    p.1.calls = w.calls ∧ p.1.nextCall = w.nextCall := by
  cases c with
  | returned result => cases h
  | emit event next | log id line next =>
      cases h
      exact ⟨rfl, rfl⟩
  | register spec =>
      cases h
      unfold World.register
      split <;> exact ⟨rfl, rfl⟩
  | unregister id =>
      cases h
      unfold World.unregister
      split
      · exact ⟨rfl, rfl⟩
      · split <;> exact ⟨rfl, rfl⟩
  | start id =>
      cases h
      unfold World.start
      split
      · exact ⟨rfl, rfl⟩
      · split <;> exact ⟨rfl, rfl⟩
  | stop id =>
      cases h
      unfold World.stop
      split
      · exact ⟨rfl, rfl⟩
      · split <;> exact ⟨rfl, rfl⟩
  | spawn r =>
      cases h
      unfold World.spawnTask
      split
      · exact ⟨rfl, rfl⟩
      · split <;> exact ⟨rfl, rfl⟩
  | trySend control =>
      cases control with
      | none =>
          cases h
          exact ⟨rfl, rfl⟩
      | some r =>
          cases h
          unfold World.trySend
          split
          · exact ⟨rfl, rfl⟩
          · split <;> exact ⟨rfl, rfl⟩

theorem stepTask_calls {r : RunId} {run : Run} {answer : Answer} (h : w.stepTask r run answer = some w') :
    w'.calls = w.calls ∧ w'.nextCall = w.nextCall := by
  cases stepTask_cases h with
  | quiet hw _ _ => exact ⟨hw.calls, hw.nextCall⟩
  | write _ | emit _ => exact ⟨rfl, rfl⟩

theorem keeps_setReader (run : Run) (source : StreamSource) (reader : Reader) :
    run.Keeps (World.setReader run source reader) := by
  cases source <;> exact ⟨rfl, rfl, fun hf => ⟨hf.gone, hf.unborn⟩⟩

theorem task_setReader (run : Run) (source : StreamSource) (reader : Reader) :
    (World.setReader run source reader).task = run.task := by
  cases source <;> rfl

/-- **What a step of the supervisor does.** -/
theorem next_cases (h : w.next a = some w') : NextMove w a w' := by
  cases a with
  | call c =>
      simp only [World.next, Option.ite_none_right_eq_some, Option.some.injEq] at h
      obtain ⟨hnew, rfl⟩ := h
      exact .call hnew
  | caller k =>
      obtain ⟨c, hc, h⟩ := Option.bind_eq_some_iff.mp h
      obtain ⟨⟨w₁, c'⟩, hstep, h⟩ := Option.bind_eq_some_iff.mp h
      cases h
      exact .caller hc hstep
  | task r answer =>
      obtain ⟨run, hr, h⟩ := Option.bind_eq_some_iff.mp h
      exact .task hr h
  | exit r status =>
      obtain ⟨run, hr, h⟩ := Option.bind_eq_some_iff.mp h
      simp only [Option.ite_none_right_eq_some, Option.some.injEq] at h
      obtain ⟨halive, rfl⟩ := h
      refine .own hr (.refl w) ⟨rfl, rfl, fun hf => ⟨fun _ => by simp, fun hu => ?_⟩⟩ rfl
      rw [hf.unborn hu] at halive
      cases halive
  | read r source line =>
      obtain ⟨run, hr, h⟩ := Option.bind_eq_some_iff.mp h
      simp only [Option.ite_none_right_eq_some, Option.some.injEq] at h
      obtain ⟨-, rfl⟩ := h
      exact .own hr (World.quiet_pushLog source line) (keeps_setReader run source _)
        (task_setReader run source _)
  | readerEmit r source =>
      obtain ⟨run, hr, h⟩ := Option.bind_eq_some_iff.mp h
      split at h
      next line _ =>
        cases h
        exact .readerEmit line hr (keeps_setReader run source _) (task_setReader run source _)
      next => cases h
  | eof r source =>
      obtain ⟨run, hr, h⟩ := Option.bind_eq_some_iff.mp h
      simp only [Option.ite_none_right_eq_some, Option.some.injEq] at h
      obtain ⟨-, rfl⟩ := h
      exact .own hr (.refl w) (keeps_setReader run source _) (task_setReader run source _)
  | tick =>
      cases h
      exact .tick

end Next

end OpenVHost.Proc
