/-
# One exchange of the command line tool

What the `openvhost` tool makes of the answer of the app, or of the error that it met
instead, and the exit status that follows. What an error of the system displays is given.
-/

import OpenVHost.Control.Protocol

namespace OpenVHost.Cli

open Control

/-! ### What can go wrong -/

/-- The answer of `InstanceLock::probe`. -/
inductive SupervisorPresence where
  | present
  | absent
  | indeterminate (reason : List Char)
  deriving DecidableEq, Repr

/-- The errors of the control channel; paths and errors of the system as they are displayed. -/
inductive ControlError where
  | socketPathTooLong (path : List Char) (len max : Nat)
  | notRunning (path : List Char)
  | notASocket (path : List Char)
  | unreachable (path source : List Char)
  | io (error : List Char)
  | protocol (detail : List Char)
  | invalidServiceId (detail : List Char)
  | unsupportedPlatform
  deriving DecidableEq, Repr

/-! ### Verbs -/

inductive Verb where
  | status (id : Option (List Char))
  | list
  | start (id : List Char)
  | stop (id : List Char)
  | restart (id : List Char)
  | stopAll
  deriving DecidableEq, Repr

/-- What a verb adds to the envelope of its answer. -/
inductive Header where
  | bare
  | supervisor
  | status
  deriving DecidableEq, Repr

def Verb.header : Verb → Header
  | status _ => .status
  | list => .supervisor
  | start _ | stop _ | restart _ | stopAll => .bare

def Header.reportsSupervisor : Header → Bool
  | supervisor | status => true
  | bare => false

/-- The `command` of the envelope, which is needed also where there is no request. -/
def Verb.commandName : Verb → List Char
  | status _ => "status".toList
  | list => "list".toList
  | start _ => "start".toList
  | stop _ => "stop".toList
  | restart _ => "restart".toList
  | stopAll => "stopAll".toList

/-- An invocation, as `clap` parsed it. -/
structure Invocation where
  json : Bool
  noWait : Bool
  verb : Verb
  deriving DecidableEq, Repr

/-- A service id, with what its error displays. -/
def serviceId (display : InvalidServiceId → List Char) (id : List Char) :
    Except ControlError ServiceId :=
  match ServiceId.parse id with
  | .ok id => .ok id
  | .error e => .error (.invalidServiceId (display e))

/-- The request of an invocation. -/
def Invocation.request (display : InvalidServiceId → List Char) (i : Invocation) :
    Except ControlError Request :=
  let wait := !i.noWait
  match i.verb with
  | .status none => .ok (.status none)
  | .status (some id) => do .ok (.status (some (← serviceId display id)))
  | .list => .ok .list
  | .start id => do .ok (.start (← serviceId display id) wait)
  | .stop id => do .ok (.stop (← serviceId display id) wait)
  | .restart id => do .ok (.restart (← serviceId display id) wait)
  | .stopAll => .ok .stopAll

/-! ### Exchanges -/

/-- What can be said of the supervisor after one exchange. -/
inductive SupervisorReport where
  | running
  | notRunning
  | unknown
  deriving DecidableEq, Repr

def SupervisorReport.asStr : SupervisorReport → List Char
  | running => "running".toList
  | notRunning => "notRunning".toList
  | unknown => "unknown".toList

def SupervisorReport.describe : SupervisorReport → List Char
  | running => "running".toList
  | notRunning => "not running".toList
  | unknown => "unknown".toList

structure Exchange where
  supervisor : SupervisorReport
  response : Response
  /-- What belongs with an answer that is no error. -/
  note : Option (List Char)
  deriving DecidableEq

namespace Exchange

def answered (response : Response) : Exchange := ⟨.running, response, none⟩

def refused (code : ErrorCode) (message : List Char) : Exchange :=
  ⟨.unknown, .error code message, none⟩

/-- What a missing socket is told as, by what the probe of the lock says. -/
def notRunningMessage : SupervisorPresence → List Char
  | .absent => "the OpenVHost app is not running. Start it, then run this again.".toList
  | .present =>
      ("the OpenVHost app appears to be running but has not opened its control socket yet; it " ++
        "may still be starting. Try again in a moment.").toList
  | .indeterminate reason =>
      "the OpenVHost app is not running, and whether one is live could not be checked (".toList ++
        reason ++ "). Start the app, then run this again.".toList

/-- A socket that refuses connections is an answer only where nothing holds the lock. -/
def fromUnreachable (path source : List Char) : SupervisorPresence → Exchange
  | .absent =>
      ⟨.notRunning, .error .supervisorUnavailable
        ("the OpenVHost app is not running, so the control socket at ".toList ++ path ++
          " is a leftover from a force quit (".toList ++ source ++
          ("). Start the app, then run this again; relaunching clears the stale socket.").toList),
        none⟩
  | .present =>
      ⟨.unknown, .error .controlChannelUnavailable
        ("the control socket at ".toList ++ path ++ " is not accepting connections (".toList ++
          source ++
          "). The OpenVHost app appears to be running; it may still be starting.".toList), none⟩
  | .indeterminate reason =>
      ⟨.unknown, .error .controlChannelUnavailable
        ("the control socket at ".toList ++ path ++ " is not accepting connections (".toList ++
          source ++ "), and whether an app is live could not be checked (".toList ++ reason ++
          ").".toList), none⟩

/-- The answer that stands for an error of the client. -/
def fromClientError (presence : SupervisorPresence) : ControlError → Exchange
  | .socketPathTooLong path len max =>
      ⟨.unknown, .error .badRequest
        (s!"the control socket path is {len} bytes, over the {max}-byte limit: ".toList ++ path ++
          ". Set OPENVHOST_HOME to a shorter path.".toList), none⟩
  | .notRunning _ =>
      ⟨.notRunning, .error .supervisorUnavailable (notRunningMessage presence), none⟩
  | .notASocket path =>
      ⟨.unknown, .error .controlChannelUnavailable
        (path ++ (" exists but is not a socket, so it will not be used or removed. Move it aside " ++
          "and relaunch the OpenVHost app.").toList), none⟩
  | .unreachable path source => fromUnreachable path source presence
  | .io e =>
      ⟨.unknown, .error .operationFailed
        ("the control channel failed mid-exchange: ".toList ++ e), none⟩
  | .protocol detail =>
      ⟨.unknown, .error .operationFailed
        ("the app spoke something this build does not understand: ".toList ++ detail ++
          ". The app and this command line tool may be different versions.".toList), none⟩
  | .invalidServiceId detail =>
      ⟨.unknown, .error .badRequest
        (detail ++ ". Run \x60openvhost list\x60 to see the registered service ids.".toList), none⟩
  | .unsupportedPlatform =>
      ⟨.unknown, .error .controlChannelUnavailable
        ("the control channel is not implemented on this platform yet (OpenVHost v1 is " ++
          "macOS-first)").toList, none⟩

/-- For `status` and `list`, that there is no supervisor is the answer. -/
def absentSupervisorIsAnAnswer (ex : Exchange) : Exchange :=
  match ex.supervisor with
  | .notRunning =>
      { supervisor := .notRunning
        response := .services []
        note := match ex.response with
          | .error _ message => some message
          | .services _ | .transition _ _ | .stopAll _ => ex.note }
  | .running | .unknown => ex

/-- What a verb makes of an exchange. -/
def under (header : Header) (ex : Exchange) : Exchange :=
  if header.reportsSupervisor then ex.absentSupervisorIsAnAnswer else ex

end Exchange

/-! ### Exit statuses -/

inductive Exit where
  | ok
  | usage
  | unknownService
  | unavailable
  | failure
  | busy
  | unauthorized
  deriving DecidableEq, Repr

def Exit.code : Exit → Nat
  | ok => 0
  | usage => 64
  | unknownService => 66
  | unavailable => 69
  | failure => 70
  | busy => 75
  | unauthorized => 77

def exitForState : ServiceState → Exit
  | .stopped | .starting | .running => .ok
  | .failed _ _ => .failure

def exitForError : ErrorCode → Exit
  | .unknownService => .unknownService
  | .supervisorUnavailable | .controlChannelUnavailable => .unavailable
  | .operationFailed => .failure
  | .busy | .timeout => .busy
  | .unauthorized => .unauthorized
  | .badRequest => .usage
  | .unsupportedVersion => .failure

def exitFor : Response → Exit
  | .services _ => .ok
  | .transition _ .unchanged => .ok
  | .transition service .changed => exitForState service.state
  | .stopAll stragglers => if stragglers.isEmpty then .ok else .failure
  | .error code _ => exitForError code

theorem Exit.code_eq_zero {e : Exit} : e.code = 0 ↔ e = .ok := by
  cases e <;> decide

theorem exitForError_ne_ok (code : ErrorCode) : exitForError code ≠ .ok := by
  cases code <;> decide

/-- An error of the client is told as one. -/
theorem Exchange.fromClientError_error (presence : SupervisorPresence) (e : ControlError) :
    ∃ code message, (Exchange.fromClientError presence e).response = .error code message := by
  cases e with
  | unreachable path source =>
      cases presence <;> exact ⟨_, _, rfl⟩
  | _ => exact ⟨_, _, rfl⟩

end OpenVHost.Cli
