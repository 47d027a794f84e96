/-
# Control requests and the quit

The desktop app over a supervisor: the handlers of control requests and
`perform_quit`, beside the service tasks, as a transition system. The supervisor
is the one of `OpenVHost.Proc.Supervisor`, step for step: a handler or the quit
makes a call on it and waits for the call to return, and every look at
`snapshot`, at the event stream or at the `Quitting` mark is one step of its own.

Nobody else calls the supervisor here: no tray, no window, no Apply.
-/

import Mathlib.Order.Basic
import OpenVHost.Proc.Supervisor

namespace OpenVHost.Desktop

open Proc (ServiceId ServiceState ServiceStatus ProcError CallId)

/-! ### Requests and responses -/

inductive Request where
  | status (id : Option ServiceId)
  | list
  | start (id : ServiceId) (wait : Bool)
  | stop (id : ServiceId) (wait : Bool)
  | restart (id : ServiceId) (wait : Bool)
  | stopAll
  deriving DecidableEq, Repr

inductive Disposition where
  | changed
  | unchanged
  deriving DecidableEq, Repr

/-- The codes that a handler answers with. -/
inductive ErrorCode where
  | unknownService
  | operationFailed
  | busy
  | timeout
  deriving DecidableEq, Repr

inductive Response where
  | services (services : List ServiceStatus)
  | transition (service : ServiceStatus) (disposition : Disposition)
  | stopAll (stragglers : List ServiceId)
  | error (code : ErrorCode) (message : String)
  deriving DecidableEq, Repr

/-- Whether a request changes what is running. -/
def mutates : Request → Bool
  | .list | .status _ => false
  | .start _ _ | .stop _ _ | .restart _ _ | .stopAll => true

/-- The state that a verb drives towards. -/
inductive Target where
  | running
  | stopped
  deriving DecidableEq, Repr

namespace Target

def verb : Target → String
  | running => "start"
  | stopped => "stop"

def stateName : Target → String
  | running => "running"
  | stopped => "stopped"

end Target

/-- What an observed state means for a wait. -/
inductive Step where
  | pending
  | reached
  | failed
  | diverted
  deriving DecidableEq, Repr

def step : Target → ServiceState → Step
  | .running, .running => .reached
  | .running, .failed _ _ => .failed
  | .running, .stopped => .diverted
  | .running, .starting => .pending
  | .stopped, .stopped => .reached
  | .stopped, .failed _ _ => .failed
  | .stopped, .running => .pending
  | .stopped, .starting => .pending

/-- Whether a verb has nothing to do. -/
def settled : Target → ServiceState → Bool
  | .running, .running => true
  | .running, .starting | .running, .stopped | .running, .failed _ _ => false
  | .stopped, .stopped | .stopped, .failed _ _ => true
  | .stopped, .running | .stopped, .starting => false

inductive Outcome where
  | reached (service : ServiceStatus) (disposition : Disposition)
  | refused (code : ErrorCode) (message : String)
  deriving DecidableEq, Repr

def Outcome.intoResponse : Outcome → Response
  | reached service disposition => .transition service disposition
  | refused code message => .error code message

/-! ### Messages -/

/-- In seconds. -/
def transitionTimeout : Nat := 45

def stateLabel : ServiceState → String
  | .stopped => "stopped"
  | .starting => "starting"
  | .running => "running"
  | .failed _ _ => "failed"

def failureMessage (target : Target) (displayName : String) (exit : Option Int)
    (stderrTail : List String) : String :=
  let code :=
    match exit with
    | some c => "exit code " ++ toString c
    | none => "no exit code (killed by a signal, or never launched)"
  let tail :=
    if stderrTail = [] then "(no stderr captured)" else String.intercalate "\n" stderrTail
  displayName ++ " failed to " ++ target.verb ++ " (" ++ code ++ "):\n" ++ tail

/-- What is said of an id that is not among the known ones. -/
def unknownMessage (id : ServiceId) (known : List ServiceId) : String :=
  if known = [] then
    "no service '" ++ id ++ "' is registered (this instance has no services at all)"
  else
    "no service '" ++ id ++ "' is registered; known services: " ++ String.intercalate ", " known

def timedOutMessage (target : Target) (id : ServiceId) (now : Option ServiceState) : String :=
  let hint :=
    match target with
    | .running => "it may still be coming up"
    | .stopped => "it may still be shutting down"
  "'" ++ id ++ "' did not become " ++ target.stateName ++ " within " ++ toString transitionTimeout ++
    "s (it is " ++ (now.map stateLabel).getD "gone" ++ "); " ++ hint ++ " — check the app"

def divertedMessage (target : Target) (id : ServiceId) (state : ServiceState) : String :=
  "'" ++ id ++ "' did not " ++ target.verb ++ ": it settled as " ++ stateLabel state ++
    " instead — the process exited cleanly without ever becoming ready, or something else (the " ++
    "menu bar, an Apply, another caller) stopped it"

def removedMessage (target : Target) (id : ServiceId) : String :=
  "'" ++ id ++ "' was removed while waiting for it to become " ++ target.stateName

def quittingMessage : String :=
  "OpenVHost is quitting; it is stopping its services and will not start anything new — relaunch " ++
    "the app and try again"

def busyMessage : String :=
  "another bulk operation (menu-bar Start all / Stop all, or an Apply) is already in flight; try " ++
    "again when it finishes"

/-- `could not start 'web': …`, with the error's own wording. -/
def kickMessage (target : Target) (id : ServiceId) (error : String) : String :=
  "could not " ++ target.verb ++ " '" ++ id ++ "': " ++ error

/-- The wording of `ProcError::NotTerminal`. -/
def notTerminalText (id : ServiceId) (state : String) : String :=
  "service '" ++ id ++ "' is " ++ state ++ "; it must be stopped before it can be removed"

/-! ### Handlers -/

/-- Which half of which verb a transition is. -/
inductive Half where
  /-- `start` or `stop`. -/
  | whole
  /-- The stop half of a `restart`, with the `wait` of its start half. -/
  | restartStop (wait : Bool)
  | restartStart
  deriving DecidableEq, Repr

structure Verb where
  half : Half
  target : Target
  id : ServiceId
  wait : Bool
  deriving DecidableEq, Repr

/-- What is left of `stop_all`. -/
inductive StopAll where
  /-- The next look at what is pending. -/
  | pending
  | decide (still : List ServiceId)
  | sweep (rest : List ServiceId)
  | stopping (call : CallId) (rest : List ServiceId)
  | sleep
  | returned (stragglers : List ServiceId)
  deriving DecidableEq, Repr

/-- What is left of a connection and of `execute`. A receiver is the number of
events that it is past. -/
inductive Handler where
  /-- The request is not read yet. -/
  | connected
  | execute (req : Request)
  | services (id : Option ServiceId)
  /-- A transition starts: subscribe. -/
  | transition (verb : Verb)
  /-- Read the row before. -/
  | before (verb : Verb) (rx : Nat)
  | kick (verb : Verb) (rx : Nat) (before : ServiceStatus)
  | kicking (verb : Verb) (rx : Nat) (before : ServiceStatus) (call : CallId)
  /-- `--no-wait`: answer with the row as it stands. -/
  | answerNow (verb : Verb) (before : ServiceStatus)
  | await (verb : Verb) (rx : Nat)
  /-- The receiver lagged: read the authoritative state. -/
  | reread (verb : Verb) (rx : Nat)
  /-- The wait is over; the row to report is still to be read. -/
  | observed (verb : Verb) (state : ServiceState)
  | failed (verb : Verb) (exit : Option Int) (stderrTail : List String)
  | timedOut (verb : Verb)
  | unknown (verb : Verb)
  | admitBulk
  | stoppingAll (loop : StopAll)
  | done (response : Response)
  deriving DecidableEq, Repr

/-- What follows the outcome of a transition. -/
def Handler.finish (verb : Verb) (outcome : Outcome) : Handler :=
  match verb.half, outcome with
  | .whole, outcome => .done outcome.intoResponse
  | .restartStop _, .refused code message => .done (.error code message)
  | .restartStop wait, .reached _ _ => .transition ⟨.restartStart, .running, verb.id, wait⟩
  | .restartStart, .refused code message => .done (.error code message)
  | .restartStart, .reached service _ => .done (.transition service .changed)

/-- How a wait goes on after an observed state. -/
def Handler.resolve (verb : Verb) (rx : Nat) (state : ServiceState) : Handler :=
  match step verb.target state with
  | .pending => .await verb rx
  | .reached => .observed verb state
  | .failed =>
      match state with
      | .failed exit stderrTail => .failed verb exit stderrTail
      | .running | .starting | .stopped => .failed verb none []
  | .diverted => .finish verb
      (.refused .operationFailed (divertedMessage verb.target verb.id state))

/-! ### The app -/

/-- What is left of `perform_quit`. -/
inductive Quit where
  | idle
  | unlink
  | abortInstall
  | stopAll (loop : StopAll)
  | destroyed (stragglers : List ServiceId)
  deriving DecidableEq, Repr

structure App where
  sup : Proc.World
  /-- The registered services, in the order of `snapshot`. -/
  ids : List ServiceId
  /-- The `Quitting` mark, if it is managed. -/
  quitting : Option Bool
  /-- The control socket is there to connect to. -/
  socket : Bool
  bulkLock : Bool
  applyLock : Bool
  handlers : Nat → Option Handler
  nextHandler : Nat
  quit : Quit

/-- What the outside answers: nothing, that a deadline has passed, or that the
socket could not be unlinked. -/
inductive Answer where
  | go
  | elapsed
  | failed
  deriving DecidableEq, Repr

inductive Action where
  /-- A call that was made, a task, a reader or the outside goes on. -/
  | supervisor (action : Proc.Action)
  | connect
  | request (h : Nat) (req : Request)
  | handler (h : Nat) (answer : Answer)
  | quit (answer : Answer)

/-- The capacity of the supervisor's broadcast channel. -/
def broadcastCapacity : Nat := 256

inductive Recv where
  | event (event : Proc.Event) (rx : Nat)
  | lagged (rx : Nat)
  | empty

/-- `rx.recv()` -/
def recv (events : List Proc.Event) (rx : Nat) : Recv :=
  if rx + broadcastCapacity < events.length then .lagged (events.length - broadcastCapacity)
  else
    match events[rx]? with
    | some event => .event event (rx + 1)
    | none => .empty

def isPending (state : ServiceState) : Bool := state.live

namespace App

variable (a : App)

def setHandler (h : Nat) (x : Handler) : App :=
  { a with handlers := Function.update a.handlers h (some x) }

/-- The rows of `snapshot`, sorted by id. -/
def snapshot : List ServiceStatus := a.ids.filterMap a.sup.snapshot

def status (id : ServiceId) : Option ServiceStatus := a.snapshot.find? fun row => row.id == id

def known : List ServiceId := a.snapshot.map ServiceStatus.id

def pendingServiceIds : List ServiceId :=
  (a.snapshot.filter fun row => isPending row.state).map ServiceStatus.id

/-- Make a call on the supervisor. -/
def call (c : Proc.Call) : Option (App × CallId) :=
  (a.sup.next (.call c)).map fun w => ({ a with sup := w }, a.sup.nextCall)

/-- What a call has returned. -/
def result (k : CallId) : Option (Except ProcError Unit) :=
  match a.sup.calls k with
  | some (.returned result) => some result
  | _ => none

def rowAsObserved (id : ServiceId) (state : ServiceState) : ServiceStatus :=
  match a.status id with
  | some row => { row with state := state }
  | none => ⟨id, id, none, none, state⟩

/-- The next step of `stop_all`. -/
def stopAllStep (answer : Answer) : StopAll → Option (App × StopAll)
  | .pending => some (a, .decide a.pendingServiceIds)
  | .decide [] => some (a, .returned [])
  | .decide still => some (a, if answer = .elapsed then .returned still else .sweep still)
  | .sweep [] => some (a, .sleep)
  | .sweep (id :: rest) => (a.call (.stop id)).map fun r => (r.1, .stopping r.2 rest)
  | .stopping k rest => (a.result k).map fun _ => (a, .sweep rest)
  | .sleep => some (a, .pending)
  | .returned _ => none

/-- The answer to an error of `kick`. -/
def refuseKick (v : Verb) : ProcError → Handler
  | .notFound _ => .unknown v
  | .notTerminal id state =>
      .finish v (.refused .operationFailed (kickMessage v.target v.id (notTerminalText id state)))

/-- What an event means to the wait of a verb. -/
def onEvent (v : Verb) (rx : Nat) : Proc.Event → Handler
  | .stateChanged changed state _ => if changed = v.id then .resolve v rx state else .await v rx
  | .registered _ | .log _ _ => .await v rx
  | .unregistered gone =>
      if gone = v.id then .finish v (.refused .unknownService (removedMessage v.target v.id))
      else .await v rx

/-- The next step of a handler. -/
def handlerStep (answer : Answer) : Handler → Option (App × Handler)
  | .connected => none
  | .execute req =>
      some (a,
        if mutates req && a.quitting.any id then .done (.error .busy quittingMessage)
        else
          match req with
          | .list => .services none
          | .status id => .services id
          | .start id wait => .transition ⟨.whole, .running, id, wait⟩
          | .stop id wait => .transition ⟨.whole, .stopped, id, wait⟩
          | .restart id wait => .transition ⟨.restartStop wait, .stopped, id, true⟩
          | .stopAll => .admitBulk)
  | .services none => some (a, .done (.services a.snapshot))
  | .services (some id) =>
      some (a, .done (match a.status id with
        | some row => .services [row]
        | none => .error .unknownService (unknownMessage id a.known)))
  | .transition v => some (a, .before v a.sup.events.length)
  | .before v rx =>
      some (a, match a.status v.id with
        | none => .unknown v
        | some before =>
            if settled v.target before.state then .finish v (.reached before .unchanged)
            else .kick v rx before)
  | .kick v rx before =>
      (a.call (match v.target with
        | .running => .start v.id
        | .stopped => .stop v.id)).map fun r => (r.1, .kicking v rx before r.2)
  | .kicking v rx before k =>
      (a.result k).map fun result =>
        (a, match result with
          | .error e => refuseKick v e
          | .ok () => if v.wait then .await v rx else .answerNow v before)
  | .answerNow v before => some (a, .finish v (.reached ((a.status v.id).getD before) .changed))
  | .await v rx =>
      if answer = .elapsed then some (a, .timedOut v)
      else
        match recv a.sup.events rx with
        | .event event rx => some (a, onEvent v rx event)
        | .lagged rx => some (a, .reread v rx)
        | .empty => none
  | .reread v rx =>
      some (a, match a.status v.id with
        | some row => .resolve v rx row.state
        | none => .await v rx)
  | .observed v state => some (a, .finish v (.reached (a.rowAsObserved v.id state) .changed))
  | .failed v exit stderrTail =>
      let display := ((a.status v.id).map ServiceStatus.displayName).getD v.id
      some (a, .finish v
        (.refused .operationFailed (failureMessage v.target display exit stderrTail)))
  | .timedOut v =>
      some (a, .finish v (.refused .timeout
        (timedOutMessage v.target v.id ((a.status v.id).map ServiceStatus.state))))
  | .unknown v => some (a, .finish v (.refused .unknownService (unknownMessage v.id a.known)))
  | .admitBulk =>
      if a.bulkLock || a.applyLock then some (a, .done (.error .busy busyMessage))
      else some ({ a with bulkLock := true, applyLock := true }, .stoppingAll .pending)
  | .stoppingAll (.returned stragglers) =>
      some ({ a with bulkLock := false, applyLock := false }, .done (.stopAll stragglers))
  | .stoppingAll loop => (a.stopAllStep answer loop).map fun r => (r.1, .stoppingAll r.2)
  | .done _ => none

/-- The next step of `perform_quit`. -/
def quitStep (answer : Answer) : Quit → Option App
  | .idle => some { a with quitting := a.quitting.map fun _ => true, quit := .unlink }
  | .unlink => some { a with socket := a.socket && answer = .failed, quit := .abortInstall }
  | .abortInstall => some { a with quit := .stopAll .pending }
  | .stopAll (.returned stragglers) => some { a with quit := .destroyed stragglers }
  | .stopAll loop => (a.stopAllStep answer loop).map fun r => { r.1 with quit := .stopAll r.2 }
  | .destroyed _ => none

/-- A new call on the supervisor; these are made by handlers and by the quit. -/
def isCall : Proc.Action → Bool
  | .call _ => true
  | _ => false

def next : Action → Option App
  | .supervisor action =>
      if isCall action then none else (a.sup.next action).map fun w => { a with sup := w }
  | .connect =>
      if a.socket then
        some ({ a with nextHandler := a.nextHandler + 1 }.setHandler a.nextHandler .connected)
      else none
  | .request h req =>
      if a.handlers h = some .connected then some (a.setHandler h (.execute req)) else none
  | .handler h answer => do
      let x ← a.handlers h
      let (a', x') ← a.handlerStep answer x
      some (a'.setHandler h x')
  | .quit answer => a.quitStep answer a.quit

/-- The app once it serves: its services registered, nobody's call under way. -/
structure Initial : Prop where
  supervisor : Proc.supervisor.Reachable a.sup
  calls : ∀ k c, a.sup.calls k = some c → ∃ result, c = .returned result
  ids : ∀ id, (a.sup.entries id).isSome = true ↔ id ∈ a.ids
  sorted : a.ids.Pairwise (· < ·)
  quitting : a.quitting = some false
  handlers : ∀ h, a.handlers h = none
  quit : a.quit = .idle

/-- `stop_all` has returned to the quit, with its stragglers. -/
def stopAllReturned : Option (List ServiceId) :=
  match a.quit with
  | .stopAll (.returned stragglers) | .destroyed stragglers => some stragglers
  | _ => none

end App

/-- The app as a system: any number of connections, in any order with the quit,
the tasks and the outside. -/
def app : Lts.System App Action where
  init := App.Initial
  next := App.next

end OpenVHost.Desktop
