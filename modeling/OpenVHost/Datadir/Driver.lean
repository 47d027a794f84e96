/-
# Initializing a datadir

`runMysqlInit` and `initializeMariadb`: an empty datadir is staged, a temporary server is
started on it to set the root password, shut down again, and the staged directory is moved
into place. Each is a task over an `Attempt`: the disk of the data root, what the guard of
the temporary server knows, and the log of what was done.

What the children answer is given beforehand, one answer for each step that asks, and so is
the await at which the task is dropped, if there is one. The generated configuration and the
directory of the sockets are not on this disk: what comes of writing them is an answer too.
-/

import OpenVHost.Async.Task
import OpenVHost.Datadir.Calls
import OpenVHost.Datadir.Redact
import OpenVHost.FileTree.Paved
import OpenVHost.Site.RenderSet
import Mathlib.Algebra.GroupWithZero.Nat

namespace OpenVHost.Datadir

open FileTree
open Async (Task Exit)
open OpenVHost.Runtime.Mysql (MysqlMajor)

/-- A generated root credential. -/
structure RootPassword where
  value : List Char
  deriving DecidableEq, Repr

/-! ### Attempts -/

inductive Event where
  /-- The staging directory has been created. -/
  | created
  /-- The temporary server has been spawned. -/
  | spawned
  /-- A kill has been sent to the temporary server. -/
  | killed
  /-- The temporary server has run the statement that sets the password. -/
  | accepted (password : RootPassword)
  /-- The temporary server has been told to shut down, and has agreed. -/
  | shutDown
  /-- The temporary server has exited and been waited for. -/
  | waited
  /-- The staging directory has been removed, or that has failed. -/
  | removed (done : Bool)
  /-- The staging directory has been moved into place. -/
  | moved
  deriving DecidableEq, Repr

structure Attempt where
  disk : Disk
  /-- How many awaits there have been. -/
  awaits : Nat
  /-- `TempServerGuard::finished`. -/
  finished : Bool
  log : List Event
  /-- The tree of the disk when the temporary server had exited. -/
  atExit : Option Tree

def Attempt.start (d : Disk) : Attempt := ⟨d, 0, false, [], none⟩

/-- What is up to the operating system and to the children. -/
structure Outside where
  os : Os
  /-- The await at which the task is dropped. -/
  droppedAt : Option Nat
  /-- What the children write while the task awaits, given where the staging directory is. -/
  effect : Nat → Path → Tree → Tree
  /-- A child that is given a datadir writes beneath it. -/
  beneath : ∀ n s t q, (¬ s <+: q ∨ q = s) → (effect n s t).node q = t.node q

section Steps

variable {ω α : Type}

def Outside.write (out : Outside) (n : Nat) (staging : Path) (d : Disk) : Disk :=
  match d.tree.locate staging with
  | .ok s => { d with tree := out.effect n s d.tree }
  | .error _ => d

def await (out : Outside) (staging : Path) : Task Attempt ω Unit :=
  Task.await (fun a => out.droppedAt == some a.awaits) fun a =>
    { a with awaits := a.awaits + 1, disk := out.write a.awaits staging a.disk }

def onDisk (x : Io Empty α) : Task Attempt ω α := fun a =>
  .ok (settle x a.disk).1 { a with disk := (settle x a.disk).2 }

def note (e : Event) : Task Attempt ω Unit := Task.modify fun a => { a with log := a.log ++ [e] }

/-- The wait for the temporary server returns once it has exited. -/
def noteExit : Task Attempt ω Unit :=
  Task.modify fun a => { a with log := a.log ++ [.waited], atExit := some a.disk.tree }

def removeStaging (out : Outside) (staging : Path) : Task Attempt ω Unit := do
  let r ← onDisk (Io.attempt (removeStagingDir out.os staging))
  note (.removed r.toBool)

/-- `TempServerGuard::drop`. -/
def dropGuard (a : Attempt) : Attempt :=
  if a.finished then a else { a with log := a.log ++ [.killed] }

def setFinished : Task Attempt ω Unit := Task.modify fun a => { a with finished := true }

/-- Kill the temporary server and wait for it. -/
def killAndWait (out : Outside) (staging : Path) : Task Attempt ω Unit := do
  note .killed
  await out staging
  noteExit
  setFinished

/-- One turn of the wait for the temporary server. -/
structure PollTurn where
  answered : Bool
  died : Bool
  /-- The deadline has elapsed. -/
  late : Bool
  deriving DecidableEq, Repr

/-- `poll_until_ready`: the deadline is at the last of the turns, if not before. -/
def pollUntilReady (out : Outside) (staging : Path) : List PollTurn → Task Attempt ω Bool
  | [] => pure false
  | turn :: rest => do
      await out staging
      if turn.answered then pure true
      else if turn.died then pure false
      else if turn.late then pure false
      else do
        await out staging
        pollUntilReady out staging rest

end Steps

/-! ### Failures -/

/-- Why an attempt failed; `σ` is what the engine's classification reports. -/
inductive InitReason (σ : Type) where
  | text (s : String)
  /-- A text that quotes another's message. -/
  | quoted (what error : String)
  | disk (what : String) (path : Path) (e : Errno)
  | finalize (r : FinalizeReason σ)
  deriving DecidableEq, Repr

/-- How a step went whose failure ends the attempt. -/
abbrev Check (σ : Type) := Except (InitReason σ) Unit

/-- What the failures of an engine's attempt need. -/
structure Attempts (σ ω ι : Type) where
  /-- What a failure at a step returns. -/
  failed : ι → InitReason σ → ω
  out : Outside
  staging : Path

section Failing

variable {σ ω ι α : Type} (att : Attempts σ ω ι)

/-- `fail!`. -/
def fail (step : ι) (reason : InitReason σ) : Task Attempt ω α :=
  Task.early (att.failed step reason)

/-- Before there is a staging directory. -/
def check (step : ι) : Check σ → Task Attempt ω Unit
  | .ok () => pure ()
  | .error reason => fail att step reason

/-- `fail_cleanup!`: the staging directory is removed. -/
def failCleanup (step : ι) (reason : InitReason σ) : Task Attempt ω α := do
  removeStaging att.out att.staging
  fail att step reason

def checkStaged (step : ι) : Check σ → Task Attempt ω Unit
  | .ok () => pure ()
  | .error reason => failCleanup att step reason

/-- `fail_temp_server!`: the temporary server is killed as well. -/
def failTempServer (step : ι) (reason : InitReason σ) : Task Attempt ω α := do
  killAndWait att.out att.staging
  failCleanup att step reason

def checkServed (step : ι) : Check σ → Task Attempt ω Unit
  | .ok () => pure ()
  | .error reason => failTempServer att step reason

def createStaging (step : ι) : Task Attempt ω Unit := do
  match ← onDisk (Io.attempt (Io.createDirAll att.staging)) with
  | .ok () => note .created
  | .error e => fail att step (.disk "failed to create staging directory" att.staging e)

end Failing

/-- A one-shot run of a client of the engine. -/
structure CliOutcome where
  ok : Bool
  stdout : String
  stderr : String
  deriving DecidableEq, Repr

/-- What a client wrote to its standard error, or a text where that is blank. -/
def orText (stderr fallback : String) : String :=
  if (trim stderr.toList).isEmpty then fallback else stderr

def quoting {σ : Type} (what : String) : Except String Unit → Check σ
  | .ok () => .ok ()
  | .error e => .error (.quoted what e)

def given {σ : Type} (b : Bool) (s : String) : Check σ :=
  if b then .ok () else .error (.text s)

def clientCheck {σ : Type} (what : String) : Except String CliOutcome → Check σ
  | .ok outcome => if outcome.ok then .ok () else .error (.text (orText outcome.stderr what))
  | .error e => .error (.quoted "" e)

/-- `clientCheck`, once there is a password: what the client says is redacted. -/
def redactedCheck {σ : Type} (password : RootPassword) (what : String) :
    Except String CliOutcome → Check σ
  | .ok outcome =>
      if outcome.ok then .ok ()
      else .error (.text (redact (orText outcome.stderr what) password.value))
  | .error e => .error (.text (redact e password.value))

/-! ### MySQL -/

/-- The answers that an attempt of `run_mysql_init` gets. -/
structure MysqlAnswers where
  out : Outside
  paths : EnginePaths
  major : MysqlMajor
  suffix : UuidHex
  password : RootPassword
  /-- Whether the runtime's own directories are there. -/
  runtimeDirs : Bool
  generated : Except String Unit
  written : Except String Unit
  validated : Except String CliOutcome
  initTask : Except String (Option Int)
  runDir : Except String Unit
  spawned : Except String Unit
  turns : List PollTurn
  altered : Except String CliOutcome
  defaultsFile : Except String Unit
  shutdown : Except String CliOutcome
  /-- Whether the temporary server exits in time once it has agreed to. -/
  exits : Bool

namespace MysqlAnswers

abbrev Result := MysqlInitOutcome (InitReason DatadirState) × Option RootPassword

variable (ans : MysqlAnswers)

def staging : Path := stagingDirPath ans.paths.stagingParent ans.major ans.suffix

def attempts : Attempts DatadirState Result MysqlInitStep where
  failed step reason := (.failed step reason, none)
  out := ans.out
  staging := ans.staging

def validation : Check DatadirState :=
  clientCheck "mysqld --validate-config rejected the generated my.cnf" ans.validated

/-- The exit of `mysqld --initialize-insecure`. -/
def initExit : Check DatadirState :=
  match ans.initTask with
  | .ok (some code) =>
      if code = 0 then .ok ()
      else .error (.text ("mysqld --initialize-insecure exited " ++ toString code))
  | .ok none => .error (.text "mysqld --initialize-insecure was terminated by a signal")
  | .error e => .error (.quoted "failed to run mysqld --initialize-insecure: " e)

def lockDown : Task Attempt Result Unit := do
  match ← onDisk (Io.attempt (Io.chmod ans.staging 0o700)) with
  | .ok () => pure ()
  | .error e =>
      failCleanup ans.attempts .initializeDatadir
        (.disk "failed to lock down staging directory permissions" ans.staging e)

/-- Once the server has agreed to shut down. -/
def awaitExit : Task Attempt Result Unit := do
  await ans.out ans.staging
  if ans.exits then do
    noteExit
    setFinished
  else
    failTempServer ans.attempts .shutdown
      (.text "the temporary server did not exit after mysqladmin shutdown succeeded")

def finish : Task Attempt Result Result := do
  match ← onDisk (finalizeStaging ans.out.os ans.staging ans.paths.datadir) with
  | .initialized => do
      note .moved
      pure (.initialized, some ans.password)
  | .failed step reason => do
      removeStaging ans.out ans.staging
      pure (.failed step (.finalize reason), none)
  | .alreadyInitialized => pure (.alreadyInitialized, none)
  | .foreign dir found => pure (.foreign dir found, none)

/-- From the spawn of the temporary server on, which the guard holds. -/
def serve : Task Attempt Result Result := do
  note .spawned
  let ready ← pollUntilReady ans.out ans.staging ans.turns
  checkServed ans.attempts .startTempServer
    (given ready "the temporary server never became reachable via mysqladmin ping")
  await ans.out ans.staging
  checkServed ans.attempts .setPassword
    (redactedCheck ans.password "ALTER USER failed" ans.altered)
  note (.accepted ans.password)
  checkServed ans.attempts .shutdown
    (quoting "failed to write the ephemeral credential file: " ans.defaultsFile)
  await ans.out ans.staging
  checkServed ans.attempts .shutdown
    (redactedCheck ans.password "mysqladmin shutdown failed" ans.shutdown)
  note .shutDown
  ans.awaitExit
  ans.finish

def runMysqlInit : Task Attempt Result Result := do
  check ans.attempts .render
    (given ans.runtimeDirs
      "could not locate its plugin, charset and message directories")
  check ans.attempts .render (quoting "" ans.generated)
  check ans.attempts .render (quoting "" ans.written)
  await ans.out ans.staging
  check ans.attempts .validate ans.validation
  createStaging ans.attempts .initializeDatadir
  ans.lockDown
  await ans.out ans.staging
  checkStaged ans.attempts .initializeDatadir ans.initExit
  checkStaged ans.attempts .startTempServer
    (quoting "failed to create the run directory: " ans.runDir)
  checkStaged ans.attempts .startTempServer
    (quoting "failed to start the temporary server: " ans.spawned)
  Task.guarded dropGuard ans.serve

end MysqlAnswers

/-! ### MariaDB -/

/-- How the wait for `mariadb-install-db` ended. -/
inductive InstallWait where
  | exited (code : Option Int)
  | notWaited (e : String)
  | timedOut
  deriving DecidableEq, Repr

/-- The answers that an attempt of `initialize_mariadb` gets. -/
structure MariadbAnswers where
  out : Outside
  paths : EnginePaths
  suffix : UuidHex
  password : RootPassword
  runtimeDirs : Bool
  installDbPath : Bool
  generated : Except String Unit
  written : Except String Unit
  runDir : Except String Unit
  installSpawned : Except String Unit
  installed : InstallWait
  spawned : Except String Unit
  turns : List PollTurn
  altered : Except String CliOutcome
  defaultsFile : Except String Unit
  shutdown : Except String CliOutcome

namespace MariadbAnswers

abbrev Result := MariadbInitOutcome (InitReason MariadbDatadirState) × Option RootPassword

variable (ans : MariadbAnswers)

def staging : Path := mariadbStagingDirPath ans.paths.stagingParent ans.suffix

def attempts : Attempts MariadbDatadirState Result MariadbInitStep where
  failed step reason := (.failed step reason, none)
  out := ans.out
  staging := ans.staging

/-- An initialized or foreign datadir is reported before anything is written. -/
def classifyFinal : Task Attempt Result Unit := do
  match ← onDisk (Io.attempt (classifyMariadbDatadir ans.out.os ans.paths.datadir)) with
  | .ok .notInitialized => pure ()
  | .ok (.initialized _) => Task.early (.alreadyInitialized, none)
  | .ok state => Task.early (.foreign state, none)
  | .error e =>
      fail ans.attempts .render (.disk "failed to inspect the datadir" ans.paths.datadir e)

def pathBytes (p : Path) : Nat := (p.map fun n => Text.utf8Len n + 1).sum

def socketLengths : Check MariadbDatadirState :=
  given (decide (pathBytes ans.paths.socket ≤ Site.maxSocketPathBytes) &&
    decide (pathBytes ans.paths.initSocket ≤ Site.maxSocketPathBytes)) "socket path too long"

/-- The wait for `mariadb-install-db`, which is killed when it takes too long. -/
def awaitInstall : Task Attempt Result Unit := do
  await ans.out ans.staging
  match ans.installed with
  | .exited (some code) =>
      if code = 0 then pure ()
      else
        failCleanup ans.attempts .initializeDatadir
          (.text ("mariadb-install-db exited " ++ toString code))
  | .exited none =>
      failCleanup ans.attempts .initializeDatadir
        (.text "mariadb-install-db was terminated by a signal")
  | .notWaited e =>
      failCleanup ans.attempts .initializeDatadir
        (.quoted "failed to wait for mariadb-install-db: " e)
  | .timedOut => do
      await ans.out ans.staging
      failCleanup ans.attempts .initializeDatadir
        (.text "mariadb-install-db did not finish in time")

def setPassword : Check MariadbDatadirState :=
  match ans.altered with
  | .ok outcome =>
      if outcome.ok then .ok ()
      else .error (.quoted "failed to set the root password: " outcome.stderr)
  | .error e => .error (.quoted "failed to run the root-password client: " e)

def shutdownOk : Bool :=
  match ans.shutdown with
  | .ok outcome => outcome.ok
  | .error _ => false

def finish : Task Attempt Result Result := do
  match ← onDisk (finalizeMariadbStaging ans.out.os ans.staging ans.paths.datadir) with
  | .initialized => do
      note .moved
      pure (.initialized, some ans.password)
  | .failed step reason => do
      removeStaging ans.out ans.staging
      pure (.failed step (.finalize reason), none)
  | .alreadyInitialized => do
      removeStaging ans.out ans.staging
      pure (.alreadyInitialized, none)
  | .foreign state => do
      removeStaging ans.out ans.staging
      pure (.foreign state, none)

def serve : Task Attempt Result Result := do
  note .spawned
  let ready ← pollUntilReady ans.out ans.staging ans.turns
  checkServed ans.attempts .startTempServer
    (given ready "the temporary server did not become ready")
  await ans.out ans.staging
  checkServed ans.attempts .setPassword ans.setPassword
  note (.accepted ans.password)
  checkServed ans.attempts .shutdown
    (quoting "failed to write the ephemeral defaults file: " ans.defaultsFile)
  await ans.out ans.staging
  checkServed ans.attempts .shutdown
    (given ans.shutdownOk "mariadb-admin shutdown did not succeed")
  note .shutDown
  -- the server is confirmed dead before its datadir is renamed
  await ans.out ans.staging
  noteExit
  setFinished
  ans.finish

def initializeMariadb : Task Attempt Result Result := do
  ans.classifyFinal
  check ans.attempts .render ans.socketLengths
  check ans.attempts .render
    (given ans.runtimeDirs
      "could not locate its plugin, charset and message directories")
  check ans.attempts .render (given ans.installDbPath "no scripts/mariadb-install-db")
  check ans.attempts .render (quoting "" ans.generated)
  check ans.attempts .render (quoting "" ans.written)
  check ans.attempts .render (quoting "failed to create the run directory: " ans.runDir)
  createStaging ans.attempts .initializeDatadir
  checkStaged ans.attempts .initializeDatadir
    (quoting "failed to run mariadb-install-db: " ans.installSpawned)
  ans.awaitInstall
  checkStaged ans.attempts .startTempServer
    (quoting "failed to start the temporary server: " ans.spawned)
  Task.guarded dropGuard ans.serve

end MariadbAnswers

end OpenVHost.Datadir
