/-
# The install lock

The commands that put a package on the machine, take one off it or set one up share
`InstallLock`: a guard, and a slot with the abort handle of the run that is under way. They
form a transition system with the tasks that they spawn, the cancel commands, and the part of
`perform_quit` that aborts what it finds in the slot. All of these are on several threads, so
anything may come between two steps; what a command does between two of its own that nobody
else can see is part of the first.

The `Quitting` mark is left out: none of these commands reads it.
-/

import OpenVHost.Lts.System
import OpenVHost.Uninstall.Model

namespace OpenVHost.Install

open OpenVHost.Runtime.Mysql (MysqlMajor)
open OpenVHost.Uninstall (PhpMajor Target PackagedPhp mariadbSeries)

/-! ### Runs and their tags -/

inductive InstallKind where
  | php
  | mysql
  | mariadb
  deriving DecidableEq, Repr

inductive PackageOperation where
  | install
  | uninstall
  | initialization
  deriving DecidableEq, Repr

abbrev Tag := InstallKind × PackageOperation

def phpInstallRun : Tag := (.php, .install)
def mysqlInstallRun : Tag := (.mysql, .install)
def mysqlInitRun : Tag := (.mysql, .initialization)
def mariadbInstallRun : Tag := (.mariadb, .install)
def mariadbInitRun : Tag := (.mariadb, .initialization)

def targetKind : Target → InstallKind
  | .php _ => .php
  | .mysql _ => .mysql
  | .mariadb => .mariadb

def pendingLabel : Target → String
  | .php major => String.ofList major.asStr
  | .mysql major => "MySQL " ++ String.ofList major.asStr
  | .mariadb => "MariaDB " ++ String.ofList mariadbSeries

inductive PhpInstallRoute where
  | package
  | homebrew
  deriving DecidableEq, Repr

/-- What a package command installs, initializes or removes, and by which route. -/
inductive PackageRun where
  | installPhp (major : PhpMajor) (route : PhpInstallRoute)
  | installMysql (major : MysqlMajor)
  | installMariadb
  | initializeMysql (major : MysqlMajor)
  | initializeMariadb
  | uninstallPackage (target : Target) (packaged : Option PackagedPhp)
  deriving DecidableEq, Repr

/-- How a run is carried out. -/
inductive Work where
  /-- In a task, by a child process that goes with the task. -/
  | task
  /-- In a task that runs `install_package`, which extracts on the blocking pool. -/
  | packageTask
  /-- By the command itself. -/
  | inline
  deriving DecidableEq, Repr

namespace PackageRun

def tag : PackageRun → Tag
  | installPhp _ _ => phpInstallRun
  | installMysql _ => mysqlInstallRun
  | installMariadb => mariadbInstallRun
  | initializeMysql _ => mysqlInitRun
  | initializeMariadb => mariadbInitRun
  | uninstallPackage target _ => (targetKind target, .uninstall)

def label : PackageRun → String
  | installPhp major _ => String.ofList major.asStr
  | installMysql major | initializeMysql major => "MySQL " ++ String.ofList major.asStr
  | installMariadb | initializeMariadb => "MariaDB " ++ String.ofList mariadbSeries
  | uninstallPackage target _ => pendingLabel target

def work : PackageRun → Work
  | installPhp _ .package | installMysql _ | installMariadb => .packageTask
  | installPhp _ .homebrew | initializeMysql _ | initializeMariadb => .task
  | uninstallPackage target packaged =>
      if (target.formula packaged).isSome then .task else .inline

end PackageRun

/-! ### Commands, tasks and the slot -/

/-- The number of a command, and of the task that it spawns. -/
abbrev RunId := Nat

structure RunningInstall where
  kind : InstallKind
  operation : PackageOperation
  label : String
  abort : RunId
  deriving DecidableEq, Repr

def PackageRun.running (run : PackageRun) (c : RunId) : RunningInstall :=
  ⟨run.tag.1, run.tag.2, run.label, c⟩

inductive Command where
  | package (run : PackageRun)
  /-- A rescan waits for the guard, and starts nothing. -/
  | rescan
  deriving DecidableEq, Repr

/-- How far a command is. -/
inductive Phase where
  | called
  | locked
  | spawned
  /-- Its run is in the slot, and its task is awaited. -/
  | awaiting
  | joined
  /-- It removes the program files itself. -/
  | removing
  /-- Its run is over, or there is none; it still holds the guard. -/
  | finishing
  | returned
  deriving DecidableEq, Repr

structure Task where
  work : Work
  /-- Its future is there, neither at its end nor dropped. -/
  live : Bool
  aborted : Bool
  /-- Its extraction is on the blocking pool, where an abort does not reach it. -/
  extracting : Bool
  deriving DecidableEq, Repr

inductive TaskStep where
  | extract
  | extracted
  /-- It ends in a success, an error or a panic. -/
  | complete
  /-- The runtime drops a future that is to be aborted. -/
  | drop
  deriving DecidableEq, Repr

namespace Task

def spawn (work : Work) : Task := ⟨work, true, false, false⟩

/-- `AbortHandle::abort` -/
def abort (t : Task) : Task := { t with aborted := t.aborted || t.live }

def step (t : Task) : TaskStep → Option Task
  | .extract =>
      if t.live && t.work = .packageTask && !t.extracting then some { t with extracting := true }
      else none
  | .extracted => if t.extracting then some { t with extracting := false } else none
  -- the extraction is awaited
  | .complete => if t.live && !t.extracting then some { t with live := false } else none
  | .drop => if t.live && t.aborted then some { t with live := false } else none

end Task

/-- How far `perform_quit` is with `abort_pending_install`. -/
inductive AbortInstall where
  | begun
  /-- The abort handle in the slot was read. -/
  | took (c : RunId)
  /-- The run was aborted, and is waited for. -/
  | aborting (c : RunId)
  | ended (inTime : Bool)
  deriving DecidableEq, Repr

structure App where
  guard : Option RunId
  running : Option RunningInstall
  commands : RunId → Option (Command × Phase)
  nextCommand : RunId
  tasks : RunId → Option Task
  quits : Nat → Option AbortInstall
  nextQuit : Nat

/-- The cancel commands. -/
inductive Cancel where
  | cancelPhpInstall
  | cancelMysqlInstall
  | cancelMariadbInstall
  deriving DecidableEq, Repr

def Cancel.tag : Cancel → Tag
  | cancelPhpInstall => phpInstallRun
  | cancelMysqlInstall => mysqlInstallRun
  | cancelMariadbInstall => mariadbInstallRun

/-- What the outside answers: nothing, that a check failed, or that a deadline has passed. -/
inductive Answer where
  | go
  | failed
  | elapsed
  deriving DecidableEq, Repr

inductive Action where
  | invoke (command : Command)
  | command (c : RunId) (answer : Answer)
  | task (c : RunId) (step : TaskStep)
  | cancel (request : Cancel)
  | performQuit
  | quit (q : Nat) (answer : Answer)
  deriving DecidableEq, Repr

namespace App

/-- The app once its states are managed. -/
def initial : App := ⟨none, none, fun _ => none, 0, fun _ => none, fun _ => none, 0⟩

variable (a : App)

def setPhase (c : RunId) (command : Command) (phase : Phase) : App :=
  { a with commands := Function.update a.commands c (some (command, phase)) }

def setTask (c : RunId) (t : Option Task) : App :=
  { a with tasks := Function.update a.tasks c t }

def setQuit (q : Nat) (x : AbortInstall) : App :=
  { a with quits := Function.update a.quits q (some x) }

/-- `abort` on the handle of a run. -/
def abort (c : RunId) : App := a.setTask c ((a.tasks c).map Task.abort)

/-- `is_finished` -/
def isFinished (c : RunId) : Bool := (a.tasks c).any fun t => !t.live

def setRunning (r : RunningInstall) : App := { a with running := some r }
def clearRunning : App := { a with running := none }

section Frames

variable {a} {c d : RunId} {command : Command} {phase : Phase} {t : Option Task} {q : Nat}
  {x : AbortInstall}

@[simp] theorem setPhase_self : (a.setPhase c command phase).commands c = some (command, phase) :=
  Function.update_self ..

theorem setPhase_of_ne (h : d ≠ c) : (a.setPhase c command phase).commands d = a.commands d :=
  Function.update_of_ne h ..

@[simp] theorem setTask_self : (a.setTask c t).tasks c = t := Function.update_self ..

theorem setTask_of_ne (h : d ≠ c) : (a.setTask c t).tasks d = a.tasks d :=
  Function.update_of_ne h ..

@[simp] theorem setQuit_self : (a.setQuit q x).quits q = some x := Function.update_self ..

theorem setQuit_of_ne {p : Nat} (h : p ≠ q) : (a.setQuit q x).quits p = a.quits p :=
  Function.update_of_ne h ..

theorem abort_of_ne (h : d ≠ c) : (a.abort c).tasks d = a.tasks d := setTask_of_ne h

@[simp] theorem abort_self : (a.abort c).tasks c = (a.tasks c).map Task.abort := setTask_self

end Frames

def abortRunningIf (kind : InstallKind) (operation : PackageOperation) : App × Bool :=
  match a.running with
  | none => (a, false)
  | some running =>
      if running.kind = kind ∧ running.operation = operation then (a.abort running.abort, true)
      else (a, false)

def cancel (request : Cancel) : App × Bool := a.abortRunningIf request.tag.1 request.tag.2

/-- The next step of a command. Whatever it checks may fail before it starts its run. -/
def commandStep (c : RunId) (command : Command) (answer : Answer) : Phase → Option App
  | .called =>
      if answer = .failed then some (a.setPhase c command .returned)
      else if a.guard = none then some ({ a with guard := some c }.setPhase c command .locked)
      else if command = .rescan then none
      else some (a.setPhase c command .returned)
  | .locked =>
      if answer = .failed then some (a.setPhase c command .finishing)
      else
        match command with
        | .rescan => some (a.setPhase c command .finishing)
        | .package run =>
            match run.work with
            | .inline => some (a.setPhase c command .removing)
            | work => some ((a.setTask c (some (.spawn work))).setPhase c command .spawned)
  | .spawned =>
      match command with
      | .rescan => none
      | .package run => some ((a.setRunning (run.running c)).setPhase c command .awaiting)
  | .awaiting => if a.isFinished c then some (a.setPhase c command .joined) else none
  -- the drop of `RunningInstallGuard`
  | .joined => some ((a.abort c).clearRunning.setPhase c command .finishing)
  | .removing => some (a.setPhase c command .finishing)
  | .finishing => some ({ a with guard := none }.setPhase c command .returned)
  | .returned => none

/-- The next step of `abort_pending_install`. -/
def quitStep (q : Nat) (answer : Answer) : AbortInstall → Option App
  | .begun =>
      some (match a.running with
        | none => a.setQuit q (.ended true)
        | some r => a.setQuit q (.took r.abort))
  | .took c => some ((a.abort c).setQuit q (.aborting c))
  | .aborting c =>
      if a.isFinished c then some (a.setQuit q (.ended true))
      else if answer = .elapsed then some (a.setQuit q (.ended false))
      else some a
  | .ended _ => none

def next : Action → Option App
  | .invoke command =>
      some ({ a with nextCommand := a.nextCommand + 1 }.setPhase a.nextCommand command .called)
  | .command c answer =>
      (a.commands c).bind fun (command, phase) => a.commandStep c command answer phase
  | .task c step => ((a.tasks c).bind fun t => t.step step).map fun t => a.setTask c (some t)
  | .cancel request => some (a.cancel request).1
  | .performQuit => some ({ a with nextQuit := a.nextQuit + 1 }.setQuit a.nextQuit .begun)
  | .quit q answer => (a.quits q).bind (a.quitStep q answer)

end App

def installs : Lts.System App Action where
  init a := a = .initial
  next := App.next

end OpenVHost.Install
