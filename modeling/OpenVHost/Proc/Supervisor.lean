/-
# The supervisor and its service tasks

The registry of services, the calls on it, and one task per run of a service, as
a transition system. Every block under the `entries` lock is one step and every
broadcast is one step, so that whatever the source does after it has released
the lock can be overtaken here too. A run is named by the control channel that
`start` makes for it.

Waits, processes and the orphan registry answer from outside: an answer is part
of the action. A `wait` on the child returns only once the child is gone, also
where it returns an error. Of the registry the world has the calls that were made
on it; what its file then holds is for the registry's own model to say.
-/

import Mathlib.Data.List.Infix
import Mathlib.Logic.Function.Basic
import OpenVHost.Lts.System
import OpenVHost.Orphan.FiniteMap

namespace OpenVHost.Proc

open OpenVHost.Orphan (Op ProcStartTime SupervisedRecord)

/-! ### Services, states and events -/

abbrev ServiceId := String

/-- The name of a run: of the control channel made for it. -/
abbrev RunId := Nat

abbrev CallId := Nat

structure SpawnSpec where
  program : String
  args : List String
  cwd : Option String
  env : List (String × String)
  deriving DecidableEq, Repr

/-- How a child is taken to be ready; durations are in milliseconds. -/
inductive ReadinessProbe where
  | aliveAfter (bound : Nat)
  | command (argv : List String) (deadline : Nat)
  deriving DecidableEq, Repr

structure ServiceSpec where
  id : ServiceId
  displayName : String
  endpoint : Option String
  spawn : SpawnSpec
  readiness : ReadinessProbe
  grace : Nat
  deriving DecidableEq, Repr

inductive ServiceState where
  | stopped
  | starting
  | running
  | failed (exit : Option Int) (stderrTail : List String)
  deriving DecidableEq, Repr

namespace ServiceState

/-- `Starting` or `Running`. -/
def live : ServiceState → Bool
  | starting | running => true
  | stopped | failed _ _ => false

end ServiceState

/-- A state that a run can end in. -/
abbrev Terminal := { s : ServiceState // s.live = false }

structure ServiceStatus where
  id : ServiceId
  displayName : String
  endpoint : Option String
  pid : Option Nat
  state : ServiceState
  deriving DecidableEq, Repr

inductive StreamSource where
  | stdout
  | stderr
  deriving DecidableEq, Repr

inductive LogLevel where
  | info
  | warn
  | error
  deriving DecidableEq, Repr

structure LogLine where
  tsMs : Nat
  level : LogLevel
  line : String
  deriving DecidableEq, Repr

inductive Event where
  | stateChanged (id : ServiceId) (state : ServiceState) (detail : Option String)
  | log (id : ServiceId) (line : LogLine)
  | registered (status : ServiceStatus)
  | unregistered (id : ServiceId)
  deriving DecidableEq, Repr

inductive ProcError where
  | notFound (id : ServiceId)
  | notTerminal (id : ServiceId) (state : String)
  deriving DecidableEq, Repr

def ringCapacity : Nat := 2000

def stderrTailMax : Nat := 10

/-- `str::contains` -/
def containsText (needle line : String) : Bool := decide (needle.toList <:+: line.toList)

def classifyLevel (line : String) : LogLevel :=
  if containsText "ERROR" line then .error
  else if containsText "WARN" line then .warn
  else .info

/-- Push to a queue of a fixed capacity, dropping its oldest element. -/
def pushBounded {α : Type} (capacity : Nat) (queue : List α) (x : α) : List α :=
  (if queue.length = capacity then queue.tail else queue) ++ [x]

/-! ### Exits -/

/-- A status that `wait` returned: the exit code, if it was no signal, and how it
is displayed. -/
structure ExitStatus where
  code : Option Int
  text : String
  deriving DecidableEq, Repr

def ExitStatus.success (s : ExitStatus) : Bool := s.code == some 0

def classifyExit (stopRequested : Bool) (status : Option ExitStatus) (stderrTail : List String) :
    ServiceState :=
  if stopRequested then .stopped
  else
    match status with
    | some s => if s.success then .stopped else .failed s.code stderrTail
    | none => .failed none stderrTail

/-- The rule for a child that was never confirmed ready. -/
def classifyExitDuringProbe (stopRequested : Bool) (status : Option ExitStatus)
    (stderrTail : List String) : ServiceState :=
  if stopRequested then .stopped else .failed (status.bind ExitStatus.code) stderrTail

theorem classifyExit_terminal (stopRequested : Bool) (status : Option ExitStatus)
    (tail : List String) : (classifyExit stopRequested status tail).live = false := by
  unfold classifyExit
  split
  · rfl
  · split
    · split <;> rfl
    · rfl

theorem classifyExitDuringProbe_terminal (stopRequested : Bool) (status : Option ExitStatus)
    (tail : List String) : (classifyExitDuringProbe stopRequested status tail).live = false := by
  unfold classifyExitDuringProbe
  split <;> rfl

/-- The detail of a terminal event. -/
def exitDetail (state : ServiceState) (status : Option ExitStatus) : Option String :=
  match state, status with
  | .failed _ _, some s => some ("exited with " ++ s.text)
  | .failed _ _, none => some "exit status unavailable (spawn failed or wait errored)"
  | _, some s => some s.text
  | _, none => none

def terminalLabel : ServiceState → String
  | .stopped => "Stopped"
  | .failed _ _ => "Failed"
  | _ => "?"

/-! ### Calls and tasks -/

/-- What is left of a call. -/
inductive Call where
  | register (spec : ServiceSpec)
  | unregister (id : ServiceId)
  | start (id : ServiceId)
  | stop (id : ServiceId)
  | emit (event : Event) (next : Call)
  | log (id : ServiceId) (line : String) (next : Call)
  /-- `tokio::spawn` of the task of a run that `start` has made. -/
  | spawn (run : RunId)
  /-- `try_send` on the control channel that `stop` has cloned. -/
  | trySend (control : Option RunId)
  | returned (result : Except ProcError Unit)

/-- What a terminal path was told: whether the child was still being probed, its
status, and lines to add to its tail. -/
structure Finish where
  probing : Bool
  status : Option ExitStatus
  extraTail : List String
  deriving DecidableEq, Repr

def Finish.classify (f : Finish) (stopRequested : Bool) (tail : List String) : Terminal :=
  if f.probing then
    ⟨classifyExitDuringProbe stopRequested f.status tail, classifyExitDuringProbe_terminal _ _ _⟩
  else ⟨classifyExit stopRequested f.status tail, classifyExit_terminal _ _ _⟩

/-- What is left of a service task. -/
inductive Task where
  /-- The run is made; its task is not spawned yet. -/
  | queued
  | spawn
  | setPid (pid : Option Nat)
  | recordRunning (pid : Nat)
  | takePipes
  | awaitReadiness
  /-- One probe attempt, raced against the child and the deadline. -/
  | probe (lastDetail : String)
  | probeRetry (lastDetail : String)
  | setRunning
  | supervise
  /-- Asked to stop: the child, raced against the grace. -/
  | terminate (probing : Bool) (extraTail : List String)
  /-- Killed: only the child is waited for. -/
  | reap (probing : Bool) (extraTail : List String)
  | drainReaders (f : Finish)
  | stderrTailSnapshot (f : Finish)
  | classify (f : Finish) (tail : List String)
  | removeRecord (state : Terminal) (detail : Option String)
  | setTerminal (state : Terminal) (detail : Option String)
  | log (source : StreamSource) (line : String) (next : Task)
  | emit (event : Event) (next : Task)
  | done

/-- A reader of one of the child's pipes. -/
inductive Reader where
  | absent
  | idle
  /-- A line is pushed and still to be broadcast. -/
  | emit (line : LogLine)
  | closed
  deriving DecidableEq, Repr

def Reader.finished : Reader → Bool
  | absent | closed => true
  | idle | emit _ => false

inductive Child where
  | unborn
  | alive
  /-- Gone, with what `wait` returns. -/
  | exited (status : Option ExitStatus)
  deriving DecidableEq, Repr

/-! ### The world -/

structure Entry where
  spec : ServiceSpec
  state : ServiceState
  pid : Option Nat
  logs : List LogLine
  stderrTail : List String
  /-- The cell of the flag that `stop` sets. -/
  stopRequested : Nat
  control : Option RunId

/-- A run of a service: what `start` hands to its task, the channel's one slot,
the task, its child and the two readers. -/
structure Run where
  id : ServiceId
  spec : SpawnSpec
  readiness : ReadinessProbe
  grace : Nat
  stopFlag : Nat
  mailbox : Bool
  task : Task
  child : Child
  stdout : Reader
  stderr : Reader

structure World where
  entries : ServiceId → Option Entry
  /-- The calls made on the process registry, in order, and whether each returned `Ok`. -/
  registry : List (Op × Bool)
  flags : Nat → Bool
  nextFlag : Nat
  runs : RunId → Option Run
  nextRun : RunId
  calls : CallId → Option Call
  nextCall : CallId
  /-- Everything that was broadcast, in order. -/
  events : List Event
  clock : Nat

/-- A supervisor without services; the registry may have been called before. -/
def World.Initial (w : World) : Prop :=
  (∀ id, w.entries id = none) ∧ (∀ r, w.runs r = none) ∧ (∀ k, w.calls k = none) ∧ w.events = []

def World.new : World :=
  { entries := fun _ => none
    registry := []
    flags := fun _ => false
    nextFlag := 0
    runs := fun _ => none
    nextRun := 0
    calls := fun _ => none
    nextCall := 0
    events := []
    clock := 0 }

def Entry.status (e : Entry) : ServiceStatus :=
  ⟨e.spec.id, e.spec.displayName, e.spec.endpoint, e.pid, e.state⟩

/-- What `snapshot` reports, by service. -/
def World.snapshot (w : World) (id : ServiceId) : Option ServiceStatus :=
  (w.entries id).map Entry.status

namespace World

/-! ### The blocks under the lock -/

/-- `get_mut`: change an entry that is there. -/
def modify (w : World) (id : ServiceId) (f : Entry → Entry) : World :=
  { w with entries := Function.update w.entries id ((w.entries id).map f) }

def insert (w : World) (id : ServiceId) (e : Entry) : World :=
  { w with entries := Function.update w.entries id (some e) }

def remove (w : World) (id : ServiceId) : World :=
  { w with entries := Function.update w.entries id none }

def send (w : World) (event : Event) : World := { w with events := w.events ++ [event] }

def setFlag (w : World) (flag : Nat) (b : Bool) : World :=
  { w with flags := Function.update w.flags flag b }

def setRun (w : World) (r : RunId) (run : Run) : World :=
  { w with runs := Function.update w.runs r (some run) }

def setCall (w : World) (k : CallId) (c : Call) : World :=
  { w with calls := Function.update w.calls k (some c) }

/-- The write of `set_state`. -/
def setState (w : World) (id : ServiceId) (state : ServiceState) : World :=
  w.modify id fun e =>
    if state.live then { e with state := state }
    else { e with state := state, pid := none, control := none }

def setPid (w : World) (id : ServiceId) (pid : Option Nat) : World :=
  w.modify id fun e => { e with pid := pid }

def askRegistry (w : World) (calls : List (Op × Bool)) : World :=
  { w with registry := w.registry ++ calls }

/-- The record of a child, as it is made now. -/
def recordOf (w : World) (id : ServiceId) (pid : Nat) (startTime : ProcStartTime) :
    SupervisedRecord :=
  ⟨id.toList, ⟨.ofNat pid, startTime⟩, .ofNat w.clock⟩

/-- `record_running`: where no start time was read there is nothing to record. -/
def recordRunning (w : World) (id : ServiceId) (pid : Nat) (startTime : Option ProcStartTime)
    (stored : Bool) : World :=
  w.askRegistry (startTime.toList.map fun t => (.record (w.recordOf id pid t), stored))

def removeRecord (w : World) (id : ServiceId) (stored : Bool) : World :=
  w.askRegistry [(.remove id.toList, stored)]

def logLine (w : World) (line : String) : LogLine := ⟨w.clock, classifyLevel line, line⟩

/-- The write of `push_log`. -/
def pushLog (w : World) (id : ServiceId) (source : StreamSource) (line : String) : World :=
  w.modify id fun e =>
    { e with
      logs := pushBounded ringCapacity e.logs (w.logLine line)
      stderrTail :=
        if source = .stderr then pushBounded stderrTailMax e.stderrTail line else e.stderrTail }

def stderrTail (w : World) (id : ServiceId) : List String :=
  ((w.entries id).map Entry.stderrTail).getD []

/-! ### Calls -/

/-- `register`'s block under the lock. -/
def register (w : World) (spec : ServiceSpec) : World × Call :=
  if (w.entries spec.id).any fun e => e.state.live then (w, .returned (.ok ()))
  else
    let entry : Entry :=
      { spec := spec
        state := .stopped
        pid := none
        logs := []
        stderrTail := []
        stopRequested := w.nextFlag
        control := none }
    (({ w with nextFlag := w.nextFlag + 1 }.setFlag w.nextFlag false).insert spec.id entry,
      .emit (.registered entry.status) (.returned (.ok ())))

/-- The guard of `unregister`, with the state's name in the refusal. -/
def checkTerminal (id : ServiceId) : ServiceState → Except ProcError Unit
  | .stopped | .failed _ _ => .ok ()
  | .starting => .error (.notTerminal id "starting")
  | .running => .error (.notTerminal id "running")

def unregister (w : World) (id : ServiceId) : World × Call :=
  match w.entries id with
  | none => (w, .returned (.error (.notFound id)))
  | some e =>
      match checkTerminal id e.state with
      | .error err => (w, .returned (.error err))
      | .ok () => (w.remove id, .emit (.unregistered id) (.returned (.ok ())))

def priorName : ServiceState → String
  | .stopped => "Stopped"
  | .failed _ _ => "Failed"
  | _ => "?"

/-- A supervisor's own line in a service's log. -/
def supervisorLine (line : String) : String := "supervisor: " ++ line

/-- `start`'s block under the lock: the guard, the new run, the `Starting` write. -/
def start (w : World) (id : ServiceId) : World × Call :=
  match w.entries id with
  | none => (w, .returned (.error (.notFound id)))
  | some e =>
      if e.state.live then (w, .returned (.ok ()))
      else
        let run : Run :=
          { id := id
            spec := e.spec.spawn
            readiness := e.spec.readiness
            grace := e.spec.grace
            stopFlag := e.stopRequested
            mailbox := false
            task := .queued
            child := .unborn
            stdout := .absent
            stderr := .absent }
        let entry := { e with stderrTail := [], control := some w.nextRun, state := .starting }
        ((({ w with nextRun := w.nextRun + 1 }.setFlag e.stopRequested false).insert id entry).setRun
            w.nextRun run,
          .emit (.stateChanged id .starting (some "requested by user"))
            (.log id ("state " ++ priorName e.state ++ " → Starting (requested by user)")
              (.spawn w.nextRun)))

def stop (w : World) (id : ServiceId) : World × Call :=
  match w.entries id with
  | none => (w, .returned (.error (.notFound id)))
  | some e =>
      if e.state.live then
        (w.setFlag e.stopRequested true, .log id "stop requested by user" (.trySend e.control))
      else (w, .returned (.ok ()))

/-- `tokio::spawn`: the task of a new run takes its first step. -/
def spawnTask (w : World) (r : RunId) : World :=
  match w.runs r with
  | none => w
  | some run =>
      match run.task with
      | .queued => w.setRun r { run with task := .spawn }
      | _ => w

/-- `try_send` into the channel's one slot; a full or closed channel takes nothing. -/
def trySend (w : World) (r : RunId) : World :=
  match w.runs r with
  | none => w
  | some run =>
      match run.task with
      | .done => w
      | _ => w.setRun r { run with mailbox := true }

/-- The next step of a call. -/
def stepCall (w : World) : Call → Option (World × Call)
  | .register spec => some (w.register spec)
  | .unregister id => some (w.unregister id)
  | .start id => some (w.start id)
  | .stop id => some (w.stop id)
  | .emit event next => some (w.send event, next)
  | .log id line next =>
      some (w.pushLog id .stdout (supervisorLine line),
        .emit (.log id (w.logLine (supervisorLine line))) next)
  | .spawn r => some (w.spawnTask r, .returned (.ok ()))
  | .trySend none => some (w, .returned (.ok ()))
  | .trySend (some r) => some (w.trySend r, .returned (.ok ()))
  | .returned _ => none

end World

/-! ### Service tasks -/

/-- What the outside answers where a task calls out or waits. -/
inductive Answer where
  | go
  | spawned (pid : Option Nat)
  | spawnError (error : String)
  /-- The start time that was read, if any, and whether the registry took the record. -/
  | recorded (startTime : Option ProcStartTime) (stored : Bool)
  | removed (stored : Bool)
  /-- A timer won: a bound, a grace, a retry interval or a drain budget. -/
  | elapsed
  /-- The child's exit won. -/
  | exited
  | probeReady
  | probeNotReady (detail : String)
  | probeDeadline (detail : Option String)
  /-- The control channel won. -/
  | received
  deriving DecidableEq, Repr

def showPid : Option Nat → String
  | none => "None"
  | some pid => "Some(" ++ toString pid ++ ")"

/-- A supervisor's own line, before the rest of a task. -/
def Task.note (line : String) (next : Task) : Task := .log .stdout (World.supervisorLine line) next

/-- `finish_with_state`, up to the write. -/
def Task.finishWithState (state : Terminal) (status : Option ExitStatus) : Task :=
  .note ("state → " ++ terminalLabel state.1) (.removeRecord state (exitDetail state.1 status))

namespace World

/-- Run `r` goes on as `run`, at `task`. The signals that a task sends to its child
are not modelled: a child may exit at any time. -/
def goto (w : World) (r : RunId) (run : Run) (task : Task) : World :=
  w.setRun r { run with task := task }

/-- Waiting for the child: its status, once it is gone. -/
def onExit (w : World) (r : RunId) (run : Run) (next : Option ExitStatus → Task) : Option World :=
  match run.child with
  | .exited status => some (w.goto r run (next status))
  | .unborn | .alive => none

/-- The next step of a run's task. An answer that does not fit where the task
stands has no step. -/
def stepTask (w : World) (r : RunId) (run : Run) (answer : Answer) : Option World :=
  match run.task, answer with
  | .spawn, .spawned pid => some (w.goto r { run with child := .alive } (.setPid pid))
  | .spawn, .spawnError e =>
      some (w.goto r run
        (.log .stderr ("ERROR spawn failed: " ++ e ++ " — " ++ run.spec.program)
          (.drainReaders ⟨false, none, []⟩)))
  | .setPid pid, .go =>
      let spawned := Task.note ("spawned pid " ++ showPid pid) .takePipes
      some ((w.setPid run.id pid).goto r run
        (match pid with
          | some p => .recordRunning p
          | none => spawned))
  | .recordRunning pid, .recorded startTime stored =>
      some ((w.recordRunning run.id pid startTime stored).goto r run
        (.note ("spawned pid " ++ showPid (some pid)) .takePipes))
  | .takePipes, .go => some (w.goto r { run with stdout := .idle, stderr := .idle } .awaitReadiness)
  | .awaitReadiness, answer =>
      match run.readiness, answer with
      | .aliveAfter _, .elapsed =>
          some (w.goto r run (.note "state Starting → Running" .setRunning))
      | .aliveAfter _, .exited => w.onExit r run fun status => .drainReaders ⟨false, status, []⟩
      | .command _ _, .go =>
          some (w.goto r run (.probe "probe deadline elapsed before any attempt completed"))
      | _, _ => none
  | .probe _, .probeReady => some (w.goto r run (.note "state Starting → Running" .setRunning))
  | .probe _, .probeNotReady detail =>
      some (w.goto r run (.note ("readiness probe not ready: " ++ detail) (.probeRetry detail)))
  | .probe _, .exited => w.onExit r run fun status => .drainReaders ⟨true, status, []⟩
  | .probe lastDetail, .probeDeadline detail =>
      let detail := detail.getD lastDetail
      some (w.goto r run
        (.note ("readiness probe deadline elapsed: " ++ detail)
          (.terminate true ["probe: " ++ detail])))
  | .probeRetry lastDetail, .elapsed => some (w.goto r run (.probe lastDetail))
  | .probeRetry _, .exited => w.onExit r run fun status => .drainReaders ⟨true, status, []⟩
  | .setRunning, .go =>
      some ((w.setState run.id .running).goto r run
        (.emit (.stateChanged run.id .running none) .supervise))
  | .supervise, .exited => w.onExit r run fun status => .drainReaders ⟨false, status, []⟩
  | .supervise, .received =>
      if run.mailbox then some (w.goto r { run with mailbox := false } (.terminate false []))
      else none
  | .terminate probing extra, .exited =>
      w.onExit r run fun status => .drainReaders ⟨probing, status, extra⟩
  | .terminate probing extra, .elapsed =>
      some (w.goto r run (.note "grace deadline passed — killing" (.reap probing extra)))
  | .reap probing extra, .exited =>
      w.onExit r run fun status => .drainReaders ⟨probing, status, extra⟩
  | .drainReaders f, .go =>
      if run.stdout.finished && run.stderr.finished then
        some (w.goto r run (.stderrTailSnapshot f))
      else none
  | .drainReaders f, .elapsed => some (w.goto r run (.stderrTailSnapshot f))
  | .stderrTailSnapshot f, .go =>
      some (w.goto r run (.classify f (w.stderrTail run.id ++ f.extraTail)))
  | .classify f tail, .go =>
      some (w.goto r run (.finishWithState (f.classify (w.flags run.stopFlag) tail) f.status))
  | .removeRecord state detail, .removed stored =>
      some ((w.removeRecord run.id stored).goto r run (.setTerminal state detail))
  | .setTerminal state detail, .go =>
      some ((w.setState run.id state.1).goto r run
        (.emit (.stateChanged run.id state.1 detail) .done))
  | .log source line next, .go =>
      some ((w.pushLog run.id source line).goto r run
        (.emit (.log run.id (w.logLine line)) next))
  | .emit event next, .go => some ((w.send event).goto r run next)
  | _, _ => none

/-! ### Readers and the outside -/

def reader (run : Run) : StreamSource → Reader
  | .stdout => run.stdout
  | .stderr => run.stderr

def setReader (run : Run) (source : StreamSource) (reader : Reader) : Run :=
  match source with
  | .stdout => { run with stdout := reader }
  | .stderr => { run with stderr := reader }

end World

inductive Action where
  /-- A caller makes a call. -/
  | call (c : Call)
  | caller (k : CallId)
  | task (r : RunId) (answer : Answer)
  /-- The child exits. -/
  | exit (r : RunId) (status : Option ExitStatus)
  /-- A reader pushes a line that it read. -/
  | read (r : RunId) (source : StreamSource) (line : String)
  /-- A reader broadcasts the line that it pushed. -/
  | readerEmit (r : RunId) (source : StreamSource)
  /-- A reader comes to the end of its pipe. -/
  | eof (r : RunId) (source : StreamSource)
  | tick

/-- The calls that a caller can make. -/
def Call.isNew : Call → Bool
  | .register _ | .unregister _ | .start _ | .stop _ => true
  | _ => false

namespace World

def next (w : World) : Action → Option World
  | .call c =>
      if c.isNew then some ({ w with nextCall := w.nextCall + 1 }.setCall w.nextCall c) else none
  | .caller k => do
      let c ← w.calls k
      let (w', c') ← w.stepCall c
      some (w'.setCall k c')
  | .task r answer => do
      let run ← w.runs r
      w.stepTask r run answer
  | .exit r status => do
      let run ← w.runs r
      if run.child = .alive then some (w.setRun r { run with child := .exited status }) else none
  | .read r source line => do
      let run ← w.runs r
      if reader run source = .idle then
        some ((w.pushLog run.id source line).setRun r
          (setReader run source (.emit (w.logLine line))))
      else none
  | .readerEmit r source => do
      let run ← w.runs r
      match reader run source with
      | .emit line => some ((w.send (.log run.id line)).setRun r (setReader run source .idle))
      | _ => none
  | .eof r source => do
      let run ← w.runs r
      if reader run source = .idle then some (w.setRun r (setReader run source .closed)) else none
  | .tick => some { w with clock := w.clock + 1 }

end World

/-- The supervisor as a system: any number of callers, in any order with the
tasks, the readers and the outside. -/
def supervisor : Lts.System World Action where
  init := World.Initial
  next := World.next

end OpenVHost.Proc
