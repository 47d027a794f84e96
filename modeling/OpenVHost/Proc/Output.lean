/-
# The output of the services

A line goes to its service's ring buffer under the lock, and is broadcast once the lock is
released: in between, whoever pushed it owes its event. Callers, tasks and readers push
lines, and none of them pushes the next one before it has broadcast the last.

* `World.logs`, `World.logged`, `World.telling` — the ring buffers, the lines that were
  broadcast, and the lines that are pushed and not broadcast.
* `World.output` — what a step does to them, told from the state before it.
* `Tidy` — no line is broadcast that was not pushed; `next_output` — every step of a tidy
  world does what `World.output` tells.
-/

import OpenVHost.Proc.Events

namespace OpenVHost.Proc

/-! ### What is pushed and what is broadcast -/

/-- Who pushes lines. -/
inductive Teller where
  | caller (k : CallId)
  | task (r : RunId)
  | reader (r : RunId) (source : StreamSource)
  deriving DecidableEq, Repr

/-- The line that an event carries. -/
def Event.logged : Event → Option (ServiceId × LogLine)
  | .log id l => some (id, l)
  | .stateChanged _ _ _ | .registered _ | .unregistered _ => none

/-- The line that is broadcast next. -/
def Call.telling : Call → Option (ServiceId × LogLine)
  | .emit event _ => event.logged
  | _ => none

/-- The line that is broadcast next. -/
def Task.telling : Task → Option (ServiceId × LogLine)
  | .emit event _ => event.logged
  | _ => none

def Reader.telling : Reader → Option LogLine
  | .emit l => some l
  | .absent | .idle | .closed => none

namespace World

/-- The ring buffers. -/
def logs (w : World) (id : ServiceId) : Option (List LogLine) := (w.entries id).map Entry.logs

/-- The lines that were broadcast, in order. -/
def logged (w : World) : List (ServiceId × LogLine) := w.events.filterMap Event.logged

/-- The line that is pushed and not broadcast. -/
def telling (w : World) : Teller → Option (ServiceId × LogLine)
  | .caller k => (w.calls k).bind Call.telling
  | .task r => (w.runs r).bind fun run => run.task.telling
  | .reader r source =>
      (w.runs r).bind fun run => (reader run source).telling.map fun l => (run.id, l)

end World

/-- What a step does to the output of the services. -/
inductive Output where
  | push (t : Teller) (id : ServiceId) (l : LogLine)
  | emit (t : Teller) (id : ServiceId) (l : LogLine)
  /-- A service begins with an empty buffer. -/
  | register (id : ServiceId)
  | unregister (id : ServiceId)
  deriving DecidableEq, Repr

def Call.output (w : World) (k : CallId) : Call → Option Output
  | .register spec =>
      if (w.entries spec.id).any fun e => e.state.live then none else some (.register spec.id)
  | .unregister id =>
      if (w.entries id).any fun e => !e.state.live then some (.unregister id) else none
  | .log id line _ => some (.push (.caller k) id (w.logLine (World.supervisorLine line)))
  | .emit event _ => event.logged.map fun e => .emit (.caller k) e.1 e.2
  | _ => none

def Task.output (w : World) (r : RunId) (id : ServiceId) : Task → Option Output
  | .log _ line _ => some (.push (.task r) id (w.logLine line))
  | .emit event _ => event.logged.map fun e => .emit (.task r) e.1 e.2
  | _ => none

/-- What a step that is taken now does to the output. -/
def World.output (w : World) : Action → Option Output
  | .caller k => (w.calls k).bind (Call.output w k)
  | .task r _ => (w.runs r).bind fun run => run.task.output w r run.id
  | .read r source line =>
      (w.runs r).map fun run => .push (.reader r source) run.id (w.logLine line)
  | .readerEmit r source =>
      (w.runs r).bind fun run =>
        (reader run source).telling.map fun l => .emit (.reader r source) run.id l
  | _ => none

/-- The step did to the output what it was told to do. -/
inductive Outputs (w w' : World) : Option Output → Prop where
  | none (hlogs : w'.logs = w.logs) (hlogged : w'.logged = w.logged)
      (htelling : w'.telling = w.telling) : Outputs w w' none
  | push {t : Teller} {id : ServiceId} {l : LogLine} (hbefore : w.telling t = none)
      (hlogs : w'.logs = Function.update w.logs id
        ((w.logs id).map fun buffer => pushBounded ringCapacity buffer l))
      (hlogged : w'.logged = w.logged)
      (htelling : w'.telling = Function.update w.telling t (some (id, l))) :
      Outputs w w' (some (.push t id l))
  | emit {t : Teller} {id : ServiceId} {l : LogLine} (hbefore : w.telling t = some (id, l))
      (hlogs : w'.logs = w.logs) (hlogged : w'.logged = w.logged ++ [(id, l)])
      (htelling : w'.telling = Function.update w.telling t none) :
      Outputs w w' (some (.emit t id l))
  | register {id : ServiceId} (hlogs : w'.logs = Function.update w.logs id (some []))
      (hlogged : w'.logged = w.logged) (htelling : w'.telling = w.telling) :
      Outputs w w' (some (.register id))
  | unregister {id : ServiceId} (hlogs : w'.logs = Function.update w.logs id none)
      (hlogged : w'.logged = w.logged) (htelling : w'.telling = w.telling) :
      Outputs w w' (some (.unregister id))

/-! ### The invariant -/

/-- No line is broadcast in what is left. -/
@[simp] def Task.lineless : Task → Bool
  | .log _ _ next => next.lineless
  | .emit event next => event.isState && next.lineless
  | _ => true

/-- No line but the next thing of all is broadcast without being pushed. -/
def Task.pushesFirst : Task → Bool
  | .emit _ next => next.lineless
  | task => task.lineless

@[simp] def Call.lineless : Call → Bool
  | .log _ _ next => next.lineless
  | .emit event next => event.isState && next.lineless
  | _ => true

def Call.pushesFirst : Call → Bool
  | .emit _ next => next.lineless
  | call => call.lineless

/-- The child's pipes are not taken yet. -/
@[simp] def Task.pipeless : Task → Bool
  | .queued | .spawn | .setPid _ | .recordRunning _ | .takePipes => true
  | .log _ _ next | .emit _ next => next.pipeless
  | _ => false

/-- A step of a task that neither pushes nor broadcasts. -/
@[simp] def Task.plain : Task → Bool
  | .log _ _ _ | .emit _ _ => false
  | _ => true

structure Run.Tidy (run : Run) : Prop where
  task : run.task.pushesFirst = true
  readers : run.task.pipeless = true → run.stdout = .absent ∧ run.stderr = .absent

/-- **The invariant**: a line is pushed before it is broadcast, and no reader is there before
the pipes are taken. -/
structure Tidy (w : World) : Prop where
  runs : ∀ r run, w.runs r = some run → run.Tidy
  calls : ∀ k c, w.calls k = some c → c.pushesFirst = true

section Lineless

variable {t : Task} {c : Call}

theorem Task.pushesFirst_of_lineless (h : t.lineless = true) : t.pushesFirst = true := by
  cases t with
  | emit event next => exact (Bool.and_eq_true_iff.mp h).2
  | _ => exact h

theorem Task.telling_of_lineless (h : t.lineless = true) : t.telling = none := by
  cases t with
  | emit event next => cases event <;> first | rfl | cases h
  | _ => rfl

theorem Call.pushesFirst_of_lineless (h : c.lineless = true) : c.pushesFirst = true := by
  cases c with
  | emit event next => exact (Bool.and_eq_true_iff.mp h).2
  | _ => exact h

theorem Call.telling_of_lineless (h : c.lineless = true) : c.telling = none := by
  cases c with
  | emit event next => cases event <;> first | rfl | cases h
  | _ => rfl

end Lineless

/-! ### What a write leaves -/

section Frame

variable {w w' : World} {id : ServiceId} {r : RunId} {run run' : Run} {k : CallId} {c : Call}

namespace World

theorem logs_modify {f : Entry → Entry} {g : List LogLine → List LogLine}
    (hf : ∀ e, (f e).logs = g e.logs) :
    (w.modify id f).logs = Function.update w.logs id ((w.logs id).map g) := by
  funext i
  rw [logs, entries_modify]
  by_cases h : i = id
  · subst h
    simp [logs, Function.comp_def, hf]
  · simp [logs, h]

theorem logs_modify_same {f : Entry → Entry} (hf : ∀ e, (f e).logs = e.logs) :
    (w.modify id f).logs = w.logs := by
  rw [logs_modify (g := fun logs => logs) hf, Option.map_id', Function.update_eq_self]

theorem logs_insert (e : Entry) : (w.insert id e).logs = Function.update w.logs id (some e.logs) := by
  funext i
  by_cases h : i = id
  · subst h
    simp [logs, insert]
  · simp [logs, insert, h]

theorem logs_remove : (w.remove id).logs = Function.update w.logs id none := by
  funext i
  by_cases h : i = id
  · subst h
    simp [logs, remove]
  · simp [logs, remove, h]

theorem logs_pushLog (source : StreamSource) (line : String) :
    (w.pushLog id source line).logs = Function.update w.logs id
      ((w.logs id).map fun buffer => pushBounded ringCapacity buffer (w.logLine line)) :=
  logs_modify fun _ => rfl

theorem logged_send (event : Event) : (w.send event).logged = w.logged ++ event.logged.toList := by
  rw [logged, send, List.filterMap_append]
  cases h : event.logged with
  | none => simp [logged, h]
  | some e => simp [logged, h]

theorem telling_congr (hcalls : w'.calls = w.calls) (hruns : w'.runs = w.runs) :
    w'.telling = w.telling := by
  funext t
  cases t <;> simp [telling, hcalls, hruns]

theorem telling_setCall (k : CallId) (c : Call) :
    (w.setCall k c).telling = Function.update w.telling (.caller k) c.telling := by
  funext t
  cases t with
  | caller i =>
      by_cases h : i = k
      · subst h
        simp [telling, setCall]
      · simp [telling, setCall, h]
  | task | reader => simp [telling, setCall]

/-- Where a run's readers owe what they owed. -/
theorem telling_setRun (hr : w.runs r = some run) (hid : run'.id = run.id)
    (hreaders : ∀ source, (reader run' source).telling = (reader run source).telling) :
    (w.setRun r run').telling = Function.update w.telling (.task r) run'.task.telling := by
  funext t
  cases t with
  | caller => simp [telling, setRun]
  | task i =>
      by_cases h : i = r
      · subst h
        simp [telling, setRun]
      · simp [telling, setRun, h]
  | reader i source =>
      by_cases h : i = r
      · subst h
        simp [telling, setRun, hr, hid, hreaders]
      · simp [telling, setRun, h]

theorem telling_setReader (hr : w.runs r = some run) (source : StreamSource) (rd : Reader) :
    (w.setRun r (setReader run source rd)).telling =
      Function.update w.telling (.reader r source) (rd.telling.map fun l => (run.id, l)) := by
  funext t
  cases t with
  | caller => simp [telling, setRun]
  | task i =>
      by_cases h : i = r
      · subst h
        simp [telling, setRun, hr, task_setReader]
      · simp [telling, setRun, h]
  | reader i s =>
      by_cases h : i = r
      · subst h
        cases source <;> cases s <;> simp [telling, setRun, setReader, reader, hr]
      · simp [telling, setRun, h]

theorem telling_newRun (hr : w.runs r = none) (htask : run.task.telling = none)
    (hreaders : ∀ source, (reader run source).telling = none) :
    (w.setRun r run).telling = w.telling := by
  funext t
  cases t with
  | caller => simp [telling, setRun]
  | task i =>
      by_cases h : i = r
      · subst h
        simp [telling, setRun, hr, htask]
      · simp [telling, setRun, h]
  | reader i source =>
      by_cases h : i = r
      · subst h
        simp [telling, setRun, hr, hreaders]
      · simp [telling, setRun, h]

theorem telling_caller (hc : w.calls k = some c) : w.telling (.caller k) = c.telling := by
  simp [telling, hc]

theorem telling_task (hr : w.runs r = some run) : w.telling (.task r) = run.task.telling := by
  simp [telling, hr]

theorem telling_reader (hr : w.runs r = some run) (source : StreamSource) :
    w.telling (.reader r source) = (reader run source).telling.map fun l => (run.id, l) := by
  simp [telling, hr]

/-- Nobody owed anything, and nobody does. -/
theorem update_telling {t : Teller} (h : w.telling t = none) :
    Function.update w.telling t none = w.telling := by
  rw [← h, Function.update_eq_self]

end World

end Frame

/-! ### The step of a task -/

/-- A change of the world that is no output. -/
structure Silent (w w' : World) : Prop where
  logs : w'.logs = w.logs
  logged : w'.logged = w.logged
  calls : w'.calls = w.calls
  runs : w'.runs = w.runs

theorem Silent.refl (w : World) : Silent w w := ⟨rfl, rfl, rfl, rfl⟩

theorem silent_modify {w : World} {id : ServiceId} {f : Entry → Entry}
    (hf : ∀ e, (f e).logs = e.logs) : Silent w (w.modify id f) :=
  ⟨World.logs_modify_same hf, rfl, rfl, rfl⟩

/-- What a step of the task of run `r` does to the output. -/
inductive TaskTells (w : World) (r : RunId) (run : Run) : World → Prop where
  | plain {w₁ : World} {run' : Run} (hw : Silent w w₁) (hid : run'.id = run.id)
      (hplain : run.task.plain = true) (hline : run'.task.lineless = true) (htidy : run'.Tidy)
      (hreaders : ∀ source,
        (World.reader run' source).telling = (World.reader run source).telling) :
      TaskTells w r run (w₁.setRun r run')
  | push {source : StreamSource} {line : String} {next : Task}
      (ht : run.task = .log source line next) :
      TaskTells w r run ((w.pushLog run.id source line).goto r run
        (.emit (.log run.id (w.logLine line)) next))
  | emit {event : Event} {next : Task} (ht : run.task = .emit event next) :
      TaskTells w r run ((w.send event).goto r run next)

section Task

variable {w w' w₁ : World} {r : RunId} {run : Run}

theorem Run.Tidy.goto {t : Task} (h : run.Tidy) (hfirst : t.pushesFirst = true)
    (hpipes : t.pipeless = true → run.task.pipeless = true) : { run with task := t }.Tidy :=
  ⟨hfirst, fun ht => h.readers (hpipes ht)⟩

/-- A plain step from one place of a task to another. -/
theorem tells_goto {t : Task} (h : run.Tidy) (hw : Silent w w₁) (hplain : run.task.plain = true)
    (hline : t.lineless = true) (hpipes : t.pipeless = true → run.task.pipeless = true) :
    TaskTells w r run (w₁.goto r run t) :=
  .plain hw rfl hplain hline (h.goto (Task.pushesFirst_of_lineless hline) hpipes) fun source => by
    cases source <;> rfl

theorem tells_onExit {next : Option ExitStatus → Task} (h : run.Tidy)
    (hexit : w.onExit r run next = some w') (hplain : run.task.plain = true)
    (hline : ∀ status, (next status).lineless = true)
    (hpipes : ∀ status, (next status).pipeless = false) : TaskTells w r run w' := by
  unfold World.onExit at hexit
  split at hexit
  · cases hexit
    exact tells_goto h (.refl w) hplain (hline _) fun ht => by simp [hpipes] at ht
  · cases hexit
  · cases hexit

/-- **What a task's step does to the output.** -/
theorem stepTask_tells {answer : Answer} (ht : run.Tidy) (h : w.stepTask r run answer = some w') :
    TaskTells w r run w' := by
  unfold World.stepTask at h
  split at h
  case h_1 hat =>
    -- the child is there, and its pipes are not taken
    cases h
    refine .plain (.refl w) rfl (by simp [hat]) rfl ⟨rfl, fun _ => ?_⟩ fun source => by
      cases source <;> rfl
    exact ht.readers (by simp [hat])
  case h_3 pid hat =>
    cases h
    refine tells_goto ht (silent_modify fun _ => rfl) (by simp [hat]) ?_ ?_
    · cases pid <;> rfl
    · simp [hat]
  case h_4 pid startTime stored hat =>
    cases h
    exact tells_goto ht ⟨rfl, rfl, rfl, rfl⟩ (by simp [hat]) rfl (by simp [hat])
  case h_5 hat =>
    -- the readers begin
    cases h
    obtain ⟨hout, herr⟩ := ht.readers (by simp [hat])
    refine .plain (.refl w) rfl (by simp [hat]) rfl ⟨rfl, fun hpipes => by cases hpipes⟩ fun source => ?_
    cases source <;> simp [World.reader, hout, herr, Reader.telling]
  case h_6 hat =>
    split at h
    · cases h
      exact tells_goto ht (.refl w) (by simp [hat]) rfl (by simp [Task.note])
    · exact tells_onExit ht h (by simp [hat]) (by simp) (by simp)
    · cases h
      exact tells_goto ht (.refl w) (by simp [hat]) rfl (by simp)
    · cases h
  case h_2 hat | h_7 hat | h_8 hat | h_10 hat | h_11 hat | h_17 hat | h_20 hat | h_21 hat | h_22 hat =>
    cases h
    exact tells_goto ht (.refl w) (by simp [hat]) (by simp [Task.note, Task.finishWithState])
      (by simp [Task.note, Task.finishWithState])
  case h_9 hat | h_12 hat | h_14 hat | h_16 hat | h_18 hat =>
    exact tells_onExit ht h (by simp [hat]) (by simp) (by simp)
  case h_13 hat =>
    cases h
    exact tells_goto ht (silent_modify fun e => by split <;> rfl) (by simp [hat])
      (by simp [Event.isState]) (by simp)
  case h_15 hat =>
    split at h
    · cases h
      refine .plain (.refl w) rfl (by simp [hat]) rfl ⟨rfl, fun hpipes => by cases hpipes⟩ fun source => by
        cases source <;> rfl
    · cases h
  case h_19 hat =>
    split at h
    · cases h
      exact tells_goto ht (.refl w) (by simp [hat]) rfl (by simp)
    · cases h
  case h_23 state detail stored hat =>
    cases h
    exact tells_goto ht ⟨rfl, rfl, rfl, rfl⟩ (by simp [hat]) rfl (by simp)
  case h_24 state detail hat =>
    cases h
    exact tells_goto ht (silent_modify fun e => by split <;> rfl) (by simp [hat])
      (by simp [Event.isState]) (by simp)
  case h_25 source line next hat =>
    cases h
    exact .push hat
  case h_26 event next hat =>
    cases h
    exact .emit hat
  case h_27 => cases h

theorem Task.output_of_plain {t : Task} {id : ServiceId} (h : t.plain = true) :
    t.output w r id = none := by
  cases t <;> first | rfl | cases h

theorem Task.telling_of_plain {t : Task} (h : t.plain = true) : t.telling = none := by
  cases t <;> first | rfl | cases h

/-- An event is broadcast, and what follows is no line of which it is too early. -/
theorem outputs_emit {t : Teller} {event : Event} {w' : World} {later : Option (ServiceId × LogLine)}
    (hbefore : w.telling t = event.logged) (hlogs : w'.logs = w.logs)
    (hlogged : w'.logged = w.logged ++ event.logged.toList)
    (htelling : w'.telling = Function.update w.telling t later) (hlater : later = none) :
    Outputs w w' (event.logged.map fun e => .emit t e.1 e.2) := by
  subst hlater
  cases h : event.logged with
  | none =>
      rw [h] at hbefore hlogged
      refine .none hlogs ?_ ?_
      · rw [hlogged, Option.toList_none, List.append_nil]
      · rw [htelling, World.update_telling hbefore]
  | some e =>
      rw [h] at hbefore hlogged
      exact .emit hbefore hlogs hlogged htelling

theorem TaskTells.outputs (h : TaskTells w r run w') (ht : run.Tidy) (hr : w.runs r = some run) :
    Outputs w w' (run.task.output w r run.id) := by
  cases h with
  | @plain w₁ run' hw hid hplain hline htidy hreaders =>
      rw [Task.output_of_plain hplain]
      have hbefore : w.telling (.task r) = none := by
        rw [World.telling_task hr, Task.telling_of_plain hplain]
      refine .none hw.logs hw.logged ?_
      have hr₁ : w₁.runs r = some run := hw.runs ▸ hr
      rw [World.telling_setRun hr₁ hid hreaders, Task.telling_of_lineless hline,
        World.telling_congr hw.calls hw.runs, World.update_telling hbefore]
  | @push source line next hat =>
      rw [hat]
      refine .push ?_ (World.logs_pushLog source line) rfl ?_
      · rw [World.telling_task hr, hat]
        rfl
      · have hr₁ : (w.pushLog run.id source line).runs r = some run := hr
        exact World.telling_setRun hr₁ rfl fun s => by cases s <;> rfl
  | @emit event next hat =>
      rw [hat]
      have hr₁ : (w.send event).runs r = some run := hr
      have hline : next.lineless = true := by simpa [hat, Task.pushesFirst] using ht.task
      refine outputs_emit ?_ rfl (World.logged_send event)
        (World.telling_setRun hr₁ rfl fun s => by cases s <;> rfl) (Task.telling_of_lineless hline)
      rw [World.telling_task hr, hat]
      rfl

/-- Every task's step leaves its run tidy. -/
theorem TaskTells.tidy (h : TaskTells w r run w') (ht : run.Tidy) :
    w'.calls = w.calls ∧ ∃ run', run'.Tidy ∧ w'.runs = Function.update w.runs r (some run') := by
  cases h with
  | @plain w₁ run' hw _ _ _ htidy _ => exact ⟨hw.calls, run', htidy, by rw [← hw.runs]; rfl⟩
  | @push source line next hat =>
      refine ⟨rfl, _, ht.goto ?_ ?_, rfl⟩
      · simpa [hat, Task.pushesFirst] using ht.task
      · simp [hat]
  | @emit event next hat =>
      refine ⟨rfl, _, ht.goto (Task.pushesFirst_of_lineless ?_) ?_, rfl⟩
      · simpa [hat, Task.pushesFirst] using ht.task
      · simp [hat]

end Task

/-! ### The step of a call -/

section Call

variable {w w₁ : World} {k : CallId} {c c' : Call} {r : RunId} {run : Run}

/-- A call goes on, and nobody owes anything that it did not owe. -/
theorem telling_call (hc : w.calls k = some c) (hplain : c.telling = none)
    (hworld : w₁.telling = w.telling) (hnext : c'.telling = none) :
    (w₁.setCall k c').telling = w.telling := by
  have hbefore : w.telling (.caller k) = none := by rw [World.telling_caller hc, hplain]
  rw [World.telling_setCall, hnext, hworld, World.update_telling hbefore]

/-- A call changes a run beside its task and its readers. -/
theorem telling_changed {run' : Run} (hr : w.runs r = some run) (hid : run'.id = run.id)
    (htask : run'.task.telling = run.task.telling)
    (hreaders : ∀ source, World.reader run' source = World.reader run source) :
    (w.setRun r run').telling = w.telling := by
  rw [World.telling_setRun hr hid fun source => by rw [hreaders source], htask,
    ← World.telling_task hr, Function.update_eq_self]

theorem telling_spawnTask : (w.spawnTask r).telling = w.telling := by
  unfold World.spawnTask
  cases hr : w.runs r with
  | none => rfl
  | some run =>
      dsimp only
      split
      next hat => exact telling_changed hr rfl (by rw [hat]; rfl) fun source => by cases source <;> rfl
      next => rfl

theorem telling_trySend : (w.trySend r).telling = w.telling := by
  unfold World.trySend
  cases hr : w.runs r with
  | none => rfl
  | some run =>
      dsimp only
      split
      next => rfl
      next => exact telling_changed hr rfl rfl fun source => by cases source <;> rfl

theorem logs_spawnTask : (w.spawnTask r).logs = w.logs ∧ (w.spawnTask r).logged = w.logged := by
  unfold World.spawnTask
  split
  · exact ⟨rfl, rfl⟩
  · split <;> exact ⟨rfl, rfl⟩

theorem logs_trySend : (w.trySend r).logs = w.logs ∧ (w.trySend r).logged = w.logged := by
  unfold World.trySend
  split
  · exact ⟨rfl, rfl⟩
  · split <;> exact ⟨rfl, rfl⟩

/-- **What a call's step does to the output.** -/
theorem stepCall_outputs {p : World × Call} (hfresh : w.runs w.nextRun = none)
    (ht : c.pushesFirst = true) (hc : w.calls k = some c) (h : w.stepCall c = some p) :
    Outputs w (p.1.setCall k p.2) (c.output w k) := by
  cases c with
  | returned result => cases h
  | register spec =>
      cases h
      simp only [World.register, Call.output]
      by_cases hlive : ((w.entries spec.id).any fun e => e.state.live) = true
      · rw [if_pos hlive, if_pos hlive]
        exact .none rfl rfl (telling_call hc rfl rfl rfl)
      · rw [if_neg hlive, if_neg hlive]
        refine .register ?_ rfl (telling_call hc rfl (World.telling_congr rfl rfl) rfl)
        exact World.logs_insert _
  | unregister id =>
      cases h
      simp only [World.unregister, Call.output]
      cases he : w.entries id with
      | none => exact .none rfl rfl (telling_call hc rfl rfl rfl)
      | some e =>
          cases hs : e.state with
          | starting | running =>
              simp only [World.checkTerminal, hs, Option.any_some, ServiceState.live]
              exact .none rfl rfl (telling_call hc rfl rfl rfl)
          | stopped | failed _ _ =>
              simp only [World.checkTerminal, hs, Option.any_some, ServiceState.live]
              exact .unregister World.logs_remove rfl
                (telling_call hc rfl (World.telling_congr rfl rfl) rfl)
  | start id =>
      cases h
      unfold World.start
      cases he : w.entries id with
      | none => exact .none rfl rfl (telling_call hc rfl rfl rfl)
      | some e =>
          dsimp only
          split
          · exact .none rfl rfl (telling_call hc rfl rfl rfl)
          · refine .none ?_ rfl (telling_call hc rfl ?_ rfl)
            · -- the entry keeps its lines
              have hlogs : w.logs id = some e.logs := by simp [World.logs, he]
              refine (World.logs_insert _).trans ?_
              rw [← hlogs]
              exact Function.update_eq_self ..
            · exact (World.telling_newRun hfresh rfl fun source => by cases source <;> rfl).trans
                (World.telling_congr rfl rfl)
  | stop id =>
      cases h
      unfold World.stop
      split
      · exact .none rfl rfl (telling_call hc rfl rfl rfl)
      · split
        · exact .none rfl rfl (telling_call hc rfl (World.telling_congr rfl rfl) rfl)
        · exact .none rfl rfl (telling_call hc rfl rfl rfl)
  | emit event next =>
      cases h
      have hline : next.lineless = true := ht
      exact outputs_emit (World.telling_caller hc) rfl (World.logged_send event)
        (World.telling_setCall k next) (Call.telling_of_lineless hline)
  | log id line next =>
      cases h
      exact .push (World.telling_caller hc) (World.logs_pushLog .stdout _) rfl (World.telling_setCall k _)
  | spawn r =>
      cases h
      exact .none logs_spawnTask.1 logs_spawnTask.2 (telling_call hc rfl telling_spawnTask rfl)
  | trySend control =>
      cases control with
      | none =>
          cases h
          exact .none rfl rfl (telling_call hc rfl rfl rfl)
      | some r =>
          cases h
          exact .none logs_trySend.1 logs_trySend.2 (telling_call hc rfl telling_trySend rfl)

/-- Every run that is there after a call's step is tidy, if those before it were. -/
theorem stepCall_tidy {p : World × Call} (hruns : ∀ r run, w.runs r = some run → run.Tidy)
    (ht : c.pushesFirst = true) (h : w.stepCall c = some p) :
    p.2.pushesFirst = true ∧ ∀ r run, p.1.runs r = some run → run.Tidy := by
  have hset : ∀ {r' : RunId} {run' : Run}, run'.Tidy →
      ∀ r run, Function.update w.runs r' (some run') r = some run → run.Tidy := by
    intro r' run' htidy r run hr
    rcases eq_or_ne r r' with rfl | hne
    · rw [Function.update_self, Option.some.injEq] at hr
      exact hr ▸ htidy
    · rw [Function.update_of_ne hne] at hr
      exact hruns r run hr
  cases c with
  | returned result => cases h
  | emit event next =>
      cases h
      exact ⟨Call.pushesFirst_of_lineless ht, hruns⟩
  | log id line next =>
      cases h
      exact ⟨ht, hruns⟩
  | register spec =>
      cases h
      unfold World.register
      split <;> exact ⟨rfl, hruns⟩
  | unregister id =>
      cases h
      unfold World.unregister
      split
      · exact ⟨rfl, hruns⟩
      · split <;> exact ⟨rfl, hruns⟩
  | start id =>
      cases h
      unfold World.start
      split
      · exact ⟨rfl, hruns⟩
      · split
        · exact ⟨rfl, hruns⟩
        · exact ⟨rfl, hset ⟨rfl, fun _ => ⟨rfl, rfl⟩⟩⟩
  | stop id =>
      cases h
      unfold World.stop
      split
      · exact ⟨rfl, hruns⟩
      · split <;> exact ⟨rfl, hruns⟩
  | spawn r =>
      cases h
      refine ⟨rfl, ?_⟩
      simp only [World.spawnTask]
      cases hr : w.runs r with
      | none => exact hruns
      | some run =>
          dsimp only
          split
          next hat => exact hset ((hruns r run hr).goto rfl fun _ => by simp [hat])
          next => exact hruns
  | trySend control =>
      cases control with
      | none =>
          cases h
          exact ⟨rfl, hruns⟩
      | some r =>
          cases h
          refine ⟨rfl, ?_⟩
          simp only [World.trySend]
          cases hr : w.runs r with
          | none => exact hruns
          | some run =>
              dsimp only
              split
              · exact hruns
              · exact hset ⟨(hruns r run hr).task, (hruns r run hr).readers⟩

end Call

/-! ### The step of the supervisor -/

section Next

variable {w w' : World} {a : Action} {r : RunId} {run : Run}

theorem tidy_setRun {w₁ : World} {run' : Run} (ht : Tidy w) (hcalls : w₁.calls = w.calls)
    (hruns : w₁.runs = w.runs) (h : run'.Tidy) : Tidy (w₁.setRun r run') := by
  constructor
  · intro i run hr
    rcases eq_or_ne i r with rfl | hne
    · have heq : run' = run := by simpa [World.setRun] using hr
      exact heq ▸ h
    · have hr' : w.runs i = some run := by simpa [World.setRun, hne, hruns] using hr
      exact ht.runs i run hr'
  · intro k c hc
    exact ht.calls k c (hcalls ▸ hc)

theorem tidy_setCall {w₁ : World} {k : CallId} {c : Call} (ht : Tidy w) (hcalls : w₁.calls = w.calls)
    (hruns : ∀ r run, w₁.runs r = some run → run.Tidy) (h : c.pushesFirst = true) :
    Tidy (w₁.setCall k c) := by
  refine ⟨hruns, fun i c' hc => ?_⟩
  rcases eq_or_ne i k with rfl | hne
  · have heq : c = c' := by simpa [World.setCall] using hc
    exact heq ▸ h
  · have hc' : w.calls i = some c' := by simpa [World.setCall, hne, hcalls] using hc
    exact ht.calls i c' hc'

/-- A reader goes on where it was there. -/
theorem Run.Tidy.setReader (h : run.Tidy) {source : StreamSource} (reader : Reader)
    (hthere : World.reader run source ≠ .absent) : (World.setReader run source reader).Tidy := by
  refine ⟨by rw [task_setReader]; exact h.task, fun hpipes => ?_⟩
  rw [task_setReader] at hpipes
  obtain ⟨hout, herr⟩ := h.readers hpipes
  cases source with
  | stdout => exact absurd hout hthere
  | stderr => exact absurd herr hthere

theorem tidy_next (ht : Tidy w) (h : w.next a = some w') : Tidy w' := by
  cases a with
  | call c =>
      simp only [World.next, Option.ite_none_right_eq_some, Option.some.injEq] at h
      obtain ⟨hnew, rfl⟩ := h
      exact tidy_setCall ht rfl ht.runs (by cases c <;> first | rfl | cases hnew)
  | caller k =>
      obtain ⟨c, hc, h⟩ := Option.bind_eq_some_iff.mp h
      obtain ⟨p, hstep, h⟩ := Option.bind_eq_some_iff.mp h
      cases h
      obtain ⟨hpushes, hruns⟩ := stepCall_tidy ht.runs (ht.calls k c hc) hstep
      exact tidy_setCall ht (stepCall_calls hstep).1 hruns hpushes
  | task r answer =>
      obtain ⟨run, hr, h⟩ := Option.bind_eq_some_iff.mp h
      obtain ⟨hcalls, run', htidy, hruns⟩ :=
        (stepTask_tells (ht.runs r run hr) h).tidy (ht.runs r run hr)
      have hset : Tidy (w.setRun r run') := tidy_setRun ht rfl rfl htidy
      refine ⟨fun i x hx => hset.runs i x ?_, fun k c hc => ht.calls k c (hcalls ▸ hc)⟩
      rw [← hx, hruns]
      rfl
  | exit r status =>
      obtain ⟨run, hr, h⟩ := Option.bind_eq_some_iff.mp h
      simp only [Option.ite_none_right_eq_some, Option.some.injEq] at h
      obtain ⟨-, rfl⟩ := h
      exact tidy_setRun ht rfl rfl ⟨(ht.runs r run hr).task, (ht.runs r run hr).readers⟩
  | read r source line | eof r source =>
      obtain ⟨run, hr, h⟩ := Option.bind_eq_some_iff.mp h
      simp only [Option.ite_none_right_eq_some, Option.some.injEq] at h
      obtain ⟨hidle, rfl⟩ := h
      exact tidy_setRun ht rfl rfl ((ht.runs r run hr).setReader _ (by simp [hidle]))
  | readerEmit r source =>
      obtain ⟨run, hr, h⟩ := Option.bind_eq_some_iff.mp h
      split at h
      next line hemit =>
        cases h
        exact tidy_setRun ht rfl rfl ((ht.runs r run hr).setReader _ (by simp [hemit]))
      next => cases h
  | tick =>
      cases h
      exact ⟨ht.runs, ht.calls⟩

/-- **What a step of the supervisor does to the output.** -/
theorem next_output (ht : Tidy w) (hs : Sound w) (hfresh : CallsFresh w) (h : w.next a = some w') :
    Outputs w w' (w.output a) := by
  cases a with
  | call c =>
      simp only [World.next, Option.ite_none_right_eq_some, Option.some.injEq] at h
      obtain ⟨hnew, rfl⟩ := h
      refine .none rfl rfl ?_
      have hbefore : w.telling (.caller w.nextCall) = none := by
        simp [World.telling, hfresh _ (Nat.le_refl _)]
      have hnone : c.telling = none := by cases c <;> first | rfl | cases hnew
      rw [World.telling_setCall, hnone]
      exact World.update_telling hbefore
  | caller k =>
      obtain ⟨c, hc, h⟩ := Option.bind_eq_some_iff.mp h
      obtain ⟨p, hstep, h⟩ := Option.bind_eq_some_iff.mp h
      cases h
      rw [World.output, hc, Option.bind_some]
      exact stepCall_outputs (hs.fresh _ (Nat.le_refl _)) (ht.calls k c hc) hc hstep
  | task r answer =>
      obtain ⟨run, hr, h⟩ := Option.bind_eq_some_iff.mp h
      rw [World.output, hr, Option.bind_some]
      exact (stepTask_tells (ht.runs r run hr) h).outputs (ht.runs r run hr) hr
  | exit r status =>
      obtain ⟨run, hr, h⟩ := Option.bind_eq_some_iff.mp h
      simp only [Option.ite_none_right_eq_some, Option.some.injEq] at h
      obtain ⟨-, rfl⟩ := h
      exact .none rfl rfl (telling_changed hr rfl rfl fun source => by cases source <;> rfl)
  | read r source line =>
      obtain ⟨run, hr, h⟩ := Option.bind_eq_some_iff.mp h
      simp only [Option.ite_none_right_eq_some, Option.some.injEq] at h
      obtain ⟨hidle, rfl⟩ := h
      rw [World.output, hr, Option.map_some]
      have hr₁ : (w.pushLog run.id source line).runs r = some run := hr
      refine .push ?_ (World.logs_pushLog source line) rfl (World.telling_setReader hr₁ source _)
      rw [World.telling_reader hr, hidle]
      rfl
  | readerEmit r source =>
      obtain ⟨run, hr, h⟩ := Option.bind_eq_some_iff.mp h
      split at h
      next line hemit =>
        cases h
        rw [World.output, hr, Option.bind_some, hemit]
        have hr₁ : (w.send (.log run.id line)).runs r = some run := hr
        refine .emit ?_ rfl (World.logged_send _) (World.telling_setReader hr₁ source _)
        rw [World.telling_reader hr, hemit]
        rfl
      next => cases h
  | eof r source =>
      obtain ⟨run, hr, h⟩ := Option.bind_eq_some_iff.mp h
      simp only [Option.ite_none_right_eq_some, Option.some.injEq] at h
      obtain ⟨hidle, rfl⟩ := h
      refine .none rfl rfl ?_
      have hbefore : w.telling (.reader r source) = none := by
        rw [World.telling_reader hr, hidle]
        rfl
      rw [World.telling_setReader hr]
      exact World.update_telling hbefore
  | tick =>
      cases h
      exact .none rfl rfl (World.telling_congr rfl rfl)

theorem tidy_of_reachable : supervisor.Reachable w → Tidy w := by
  refine Lts.System.Reaches.invariant (fun w h => ?_) fun w a w' ht _ hn => tidy_next ht hn
  obtain ⟨-, hruns, hcalls, -⟩ := h
  exact ⟨fun r run hr => by simp [hruns] at hr, fun k c hc => by simp [hcalls] at hc⟩

/-- **Every step of a supervisor does what `World.output` tells.** -/
theorem outputs_of_reachable (hr : supervisor.Reachable w) (h : w.next a = some w') :
    Outputs w w' (w.output a) :=
  next_output (tidy_of_reachable hr) (sound_of_reachable hr) (callsFresh_of_reachable hr) h

end Next

end OpenVHost.Proc
