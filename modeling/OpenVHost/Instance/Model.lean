/-
# One instance for a home

The processes that share the `run` directory of a home: launches of the app, which take the lock
on it, reap what an earlier instance left, bind the control socket and remove it when they quit;
and runs of the command line tool, which look for the socket and ask for the lock when nobody
answers. A system call is a step, anything may come between two of them, and a process may end
at any step. What the registry lists and what the process table answers is given, anew at every
step of a reap.

The services are known by their pids alone, and each leads its process group. Nothing else
writes to the directory.
-/

import OpenVHost.Cli.Exchange
import OpenVHost.Lts.Locks
import OpenVHost.Lts.System
import OpenVHost.Orphan.Reap

namespace OpenVHost.Instance

open Cli Control Lts Orphan

/-! ### Processes -/

/-- What is at the path of the control socket, by its inode. -/
inductive Place where
  | absent
  | socket (ino : Nat)
  | other (ino : Nat)
  deriving DecidableEq, Repr

/-- How far a launch of the app is. -/
inductive App where
  /-- About to create the directory, for the second time if `again`. -/
  | acquiring (again : Bool)
  /-- About to open the lock and to `flock` it. -/
  | locking (again : Bool)
  /-- In the pause before the second attempt. -/
  | waiting
  | alreadyRunning
  | runDirUnusable
  | locked
  /-- In `reap_orphans`, with the records that are left. -/
  | reaping (todo : List SupervisedRecord)
  /-- In `bind`, before the path is looked at. -/
  | binding
  /-- In `bind`, about to unlink the socket that it found. -/
  | clearing
  /-- In `bind`, with nothing at the path. -/
  | naming
  /-- The socket has its name, but does not listen yet. -/
  | named (ino : Nat)
  /-- It listens; its mode is still to be set, and its inode to be read. -/
  | listening (ino : Nat)
  /-- The app is up, with the identity of the socket if there is one. -/
  | ready (socket : Option Nat)
  /-- In `ControlSocket::remove`, of a quit or of a server that could not start. -/
  | removing (ino : Nat) (quit : Bool)
  /-- In `ControlSocket::remove`, after the identity was found to be the same. -/
  | unlinking (ino : Nat) (quit : Bool)
  /-- In `perform_quit`, past the socket. -/
  | quitting

/-- How far a run of the command line tool is. -/
inductive Client where
  | asking
  /-- A socket was seen at the path. -/
  | connecting
  | connected
  /-- No answer: about to probe the lock. -/
  | failed (e : ControlError)
  /-- The run directory is there: about to `flock`. -/
  | probing (e : ControlError)
  | holding (e : ControlError)
  | told (ex : Exchange)

inductive Process where
  | idle
  | app (a : App)
  | client (c : Client)
  | ended

variable {π : Type} [DecidableEq π]

/-- What the processes share. -/
structure World (π : Type) where
  runDir : Bool
  lock : Locks Unit π
  place : Place
  /-- The sockets that are listened on, by inode. -/
  listeners : Locks Nat π
  /-- The services that run, with the app that started them. -/
  services : UInt32 → Option π
  procs : π → Process

namespace World

def set (w : World π) (p : π) (x : Process) : World π :=
  { w with procs := fun q => if q = p then x else w.procs q }

/-- The services that are left by some calls of `kill`, of a pid or of the group it leads. -/
def killed (w : World π) (kills : List Kill) : World π :=
  { w with services := fun pid =>
      if kills.any fun k => k.signal = sigkill && (k.target = asPid pid || k.target = -asPid pid)
      then none else w.services pid }

end World

/-! ### Steps of the app -/

/-- A step of the app; `ok` is whether the system call succeeds. -/
inductive AppStep (me : Caller) where
  | launch
  | createDir (ok : Bool)
  | flock (ok : Bool)
  | wake
  | listCurrentBoot (records : List SupervisedRecord)
  | reapNext (t : ProcessTable me)
  | reaped
  | lookAtPath (ok : Bool)
  | removeFile (ok : Bool)
  | bindAt (ino : Nat)
  | bindFails
  | listen (ok : Bool)
  | setMode (ok : Bool)
  | serveFails
  | performQuit
  | compare (ok : Bool)

def AppStep.isLaunch {me : Caller} : AppStep me → Bool
  | launch => true
  | _ => false

/-- After `ControlSocket::remove`. -/
def App.removed (quit : Bool) : App := if quit then .quitting else .ready none

namespace World

variable {me : Caller}

/-- What a launch does next, and how far it is then. -/
def appNext (w : World π) (p : π) : App → AppStep me → Option (World π × App)
  | .acquiring again, .createDir true => some ({ w with runDir := true }, .locking again)
  | .acquiring _, .createDir false => some (w, .runDirUnusable)
  | .locking again, .flock true =>
      match w.lock.take () p with
      | some lock => some ({ w with lock }, .locked)
      | none => some (w, if again then .alreadyRunning else .waiting)
  | .locking _, .flock false => some (w, .runDirUnusable)
  | .waiting, .wake => some (w, .acquiring true)
  | .locked, .listCurrentBoot records => some (w, .reaping records)
  | .reaping (rec :: todo), .reapNext t => some (w.killed (consider t rec).2, .reaping todo)
  | .reaping [], .reaped => some (w, .binding)
  | .binding, .lookAtPath true =>
      some ({ w with runDir := true }, match w.place with
        | .absent => .naming
        | .socket _ => .clearing
        | .other _ => .ready none)
  | .binding, .lookAtPath false => some (w, .ready none)
  | .clearing, .removeFile true =>
      if w.place = .absent then some (w, .ready none)
      else some ({ w with place := .absent }, .naming)
  | .clearing, .removeFile false => some (w, .ready none)
  | .naming, .bindAt ino =>
      -- The inode of a socket that is listened on is in use, also when it has no name.
      if w.place = .absent ∧ w.listeners ino = none then
        some ({ w with place := .socket ino }, .named ino)
      else none
  | .naming, .bindFails => some (w, .ready none)
  | .named ino, .listen true =>
      (w.listeners.take ino p).map fun listeners => ({ w with listeners }, .listening ino)
  | .named _, .listen false => some (w, .ready none)
  | .listening _, .setMode true =>
      match w.place with
      | .absent => some ({ w with listeners := w.listeners.giveAll p }, .ready none)
      | .socket ino | .other ino => some (w, .ready (some ino))
  | .listening _, .setMode false =>
      some ({ w with listeners := w.listeners.giveAll p }, .ready none)
  | .ready (some ino), .serveFails =>
      some ({ w with listeners := w.listeners.giveAll p }, .removing ino false)
  | .ready (some ino), .performQuit => some (w, .removing ino true)
  | .ready none, .performQuit => some (w, .quitting)
  | .removing ino quit, .compare ok =>
      some (w, if ok ∧ w.place = .socket ino then .unlinking ino quit else .removed quit)
  | .unlinking _ quit, .removeFile true => some ({ w with place := .absent }, .removed quit)
  | .unlinking _ quit, .removeFile false => some (w, .removed quit)
  | _, _ => none

end World

/-- Whether the app has a supervisor that can start services. -/
def App.supervises : App → Bool
  | ready _ | removing _ _ | unlinking _ _ | quitting => true
  | _ => false

/-! ### Steps of the command line tool -/

inductive ClientStep where
  | start
  | lookAtPath (ok : Bool)
  | connect (ok : Bool)
  | answer (response : Response)
  | breakOff (e : List Char)
  | misread (detail : List Char)
  /-- `symlink_metadata` of the run directory, with what keeps it from being looked at. -/
  | lookAtDir (fault : Option (List Char))
  | flock (fault : Option (List Char))
  | release

def ClientStep.isStart : ClientStep → Bool
  | start => true
  | _ => false

namespace World

/-- What a run of the tool does next; `path` is the path of the socket and `e` what an error of
the system displays. The probe is asked for two kinds of errors, and the presence given with the
others is not looked at. -/
def clientNext (path e : List Char) (w : World π) (p : π) :
    Client → ClientStep → Option (World π × Client)
  | .asking, .lookAtPath true =>
      some (w, match w.place with
        | .absent => .failed (.notRunning path)
        | .socket _ => .connecting
        | .other _ => .told (.fromClientError .absent (.notASocket path)))
  | .asking, .lookAtPath false => some (w, .told (.fromClientError .absent (.io e)))
  | .connecting, .connect ok =>
      some (w, match w.place with
        | .absent => .failed (.notRunning path)
        | .socket ino =>
            if ok ∧ w.listeners ino ≠ none then .connected else .failed (.unreachable path e)
        | .other _ => .failed (.unreachable path e))
  | .connected, .answer response => some (w, .told (.answered response))
  | .connected, .breakOff e => some (w, .told (.fromClientError .absent (.io e)))
  | .connected, .misread detail => some (w, .told (.fromClientError .absent (.protocol detail)))
  | .failed err, .lookAtDir (some reason) =>
      some (w, .told (.fromClientError (.indeterminate reason) err))
  | .failed err, .lookAtDir none =>
      some (w, if w.runDir then .probing err else .told (.fromClientError .absent err))
  | .probing err, .flock (some reason) =>
      some (w, .told (.fromClientError (.indeterminate reason) err))
  | .probing err, .flock none =>
      match w.lock.take () p with
      | some lock => some ({ w with lock }, .holding err)
      | none => some (w, .told (.fromClientError .present err))
  | .holding err, .release =>
      some ({ w with lock := w.lock.give () p }, .told (.fromClientError .absent err))
  | _, _ => none

end World

/-! ### The system -/

inductive Action (caller : π → Caller) where
  | app (p : π) (step : AppStep (caller p))
  | client (p : π) (step : ClientStep)
  /-- A supervisor starts a service. -/
  | spawn (p : π) (pid : UInt32)
  /-- A service ends by itself, or is stopped by its supervisor. -/
  | finish (pid : UInt32)
  /-- The end of a process, at any point: what it holds goes with it. -/
  | stop (p : π)

namespace World

variable {caller : π → Caller}

def next (path e : List Char) (w : World π) : Action caller → Option (World π)
  | .app p step =>
      match w.procs p with
      | .idle => if step.isLaunch then some (w.set p (.app (.acquiring false))) else none
      | .app a => (w.appNext p a step).map fun r => r.1.set p (.app r.2)
      | .client _ | .ended => none
  | .client p step =>
      match w.procs p with
      | .idle => if step.isStart then some (w.set p (.client .asking)) else none
      | .client c => (w.clientNext path e p c step).map fun r => r.1.set p (.client r.2)
      | .app _ | .ended => none
  | .spawn p pid =>
      match w.procs p with
      | .app a =>
          if a.supervises = true ∧ w.services pid = none then
            some { w with services := fun pid' => if pid' = pid then some p else w.services pid' }
          else none
      | _ => none
  | .finish pid =>
      some { w with services := fun pid' => if pid' = pid then none else w.services pid' }
  | .stop p =>
      match w.procs p with
      | .app _ | .client _ =>
          some ({ w with
            lock := w.lock.giveAll p
            listeners := w.listeners.giveAll p }.set p .ended)
      | _ => none

/-- Nothing has been launched; the directory may hold anything. -/
def Initial (w : World π) : Prop :=
  (∀ p, w.procs p = .idle) ∧ w.lock = Locks.free ∧ w.listeners = Locks.free ∧
    ∀ pid, w.services pid = none

end World

def system (caller : π → Caller) (path e : List Char) : System (World π) (Action caller) :=
  ⟨World.Initial, World.next path e⟩

end OpenVHost.Instance
