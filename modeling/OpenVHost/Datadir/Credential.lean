/-
# The stored root credential

The root password of a MySQL major is in two places: the server in its final datadir accepts
it, and the instance repository stores it. `initialize_mysql` and `reset_mysql_root_password`
change the first and then the second, with awaits in between.

* `ran_of_attempt` — what the task of an initialization comes to is a step of its call.
* `commands` — any number of calls of the two for one major, the sessions of their clients at
  the server, and every way in which a step can fail.
* `stored_credential_opens` — in a run whose steps are careful, the stored password is the one
  that the server accepts whenever no call is in progress.
* `killed_client_desyncs` — the SQL client is killed once the server has run its statement.
-/

import OpenVHost.Datadir.AllOrNothing
import OpenVHost.Lts.Owed
import OpenVHost.Lts.System

namespace OpenVHost.Datadir.Credential

open FileTree
open Lts
open Async (Exit Task)

/-! ### Calls -/

abbrev CallId := Nat

/-- Why a call returns an error. -/
inductive Refusal where
  | noPaths
  | alreadyRunning
  | storeUnavailable
  | notInCatalogue
  | socketTooLong
  | notInspected (e : Errno)
  | notDiscovered (e : String)
  | notInstalled
  | quitting
  | endedUnexpectedly
  | database (e : String)
  | noCredential
  | noDefaultsFile (e : String)
  | client (message : String)
  deriving DecidableEq, Repr

inductive ResetOutcome where
  | reset
  | authFailed (detail : String)
  deriving DecidableEq, Repr

inductive Returned where
  | initialized (o : MysqlInitOutcome (InitReason DatadirState))
  | reset (o : ResetOutcome)
  | refused (why : Refusal)
  deriving DecidableEq, Repr

/-- Whose password waits for the upsert. -/
inductive Purpose where
  | initializeMysql
  | resetMysqlRootPassword
  deriving DecidableEq, Repr

def Purpose.done : Purpose → Returned
  | initializeMysql => .initialized .initialized
  | resetMysqlRootPassword => .reset .reset

/-- Where a call stands: at which of its awaits, or how it has ended. -/
inductive Phase where
  | idle
  | discovering
  | running
  | reading
  | altering (current new : RootPassword)
  | storing (purpose : Purpose) (new : RootPassword)
  /-- `none` where the call was dropped. -/
  | ended (r : Option Returned)
  deriving DecidableEq, Repr

def Phase.inProgress : Phase → Bool
  | idle | ended _ => false
  | discovering | running | reading | altering _ _ | storing _ _ => true

/-- What the server has of the client of a reset. -/
inductive Session where
  | none
  /-- The client has been started, and will give `current` as the password. -/
  | waiting (current new : RootPassword)
  /-- It has been let in, and has sent its statement. -/
  | accepted (new : RootPassword)
  /-- The server has run the statement. -/
  | altered (new : RootPassword)
  deriving DecidableEq, Repr

/-- A client that is gone cannot come in any more; what it has sent is with the server. -/
def Session.clientGone : Session → Session
  | waiting _ _ => none
  | s => s

structure State where
  /-- The password that the server in the final datadir accepts, once there is one. -/
  accepted : Option RootPassword
  /-- `MysqlInstanceRepo`, at this major. -/
  stored : Option RootPassword
  /-- `InstallLock`. -/
  lock : Option CallId
  calls : CallId → Phase
  sessions : CallId → Session

namespace State

def setCall (s : State) (c : CallId) (p : Phase) : State :=
  { s with calls := Function.update s.calls c p }

def setSession (s : State) (c : CallId) (x : Session) : State :=
  { s with sessions := Function.update s.sessions c x }

def finish (s : State) (c : CallId) (r : Option Returned) : State :=
  { s.setCall c (.ended r) with
    lock := if s.lock = some c then none else s.lock
    sessions := Function.update s.sessions c (s.sessions c).clientGone }

def refuse (s : State) (c : CallId) (why : Refusal) : State := s.finish c (some (.refused why))

end State

/-! ### Steps -/

/-- What `initialize_mysql_gate` finds before its first await. -/
structure Gate where
  store : Bool
  parsed : Bool
  socketLengths : Bool
  inspected : Except Errno DatadirState
  deriving DecidableEq

/-- How the task of an initialization ends. -/
inductive TaskEnd where
  | returned (o : MysqlAnswers.Result)
  | cancelled
  | panicked

/-- What `reset_mysql_root_password` finds before its first await. -/
structure ResetGate where
  store : Bool
  parsed : Bool
  paths : Bool
  runtime : Bool
  deriving DecidableEq, Repr

inductive Action where
  | initializeMysql (c : CallId) (paths : Bool) (gate : Gate)
  | discovered (c : CallId) (r : Except String Bool)
  | ran (c : CallId) (e : TaskEnd)
  | resetMysqlRootPassword (c : CallId) (gate : ResetGate)
  /-- The stored credential is read, the defaults file written and the client started. -/
  | read (c : CallId) (row file : Except String Unit) (new : RootPassword)
  /-- The server lets the client in. -/
  | connected (c : CallId)
  /-- The server runs the client's statement. -/
  | altered (c : CallId)
  | exited (c : CallId) (r : Except String CliOutcome)
  | upserted (c : CallId) (r : Except String Unit)
  | dropped (c : CallId)

/-- `initialize_mysql_gate`: `none` where it goes on to discover the runtimes. -/
def initializeMysqlGate (g : Gate) : Option Returned :=
  if !g.store then some (.refused .storeUnavailable)
  else if !g.parsed then some (.refused .notInCatalogue)
  else if !g.socketLengths then some (.refused .socketTooLong)
  else match g.inspected with
    | .ok .initialized => some (.initialized .alreadyInitialized)
    | .ok (.foreign dir found) => some (.initialized (.foreign dir found))
    | .ok .notInitialized => none
    | .error e => some (.refused (.notInspected e))

def initializeMysql (s : State) (c : CallId) (paths : Bool) (g : Gate) : State :=
  if !paths then s.refuse c .noPaths
  else if s.lock.isSome then s.refuse c .alreadyRunning
  else match initializeMysqlGate g with
    | some r => s.finish c (some r)
    | none => { s.setCall c .discovering with lock := some c }

def discovered (s : State) (c : CallId) : Except String Bool → State
  | .ok true => s.setCall c .running
  | .ok false => s.refuse c .notInstalled
  | .error e => s.refuse c (.notDiscovered e)

def ran (s : State) (c : CallId) : TaskEnd → Option State
  | .returned (.initialized, some password) =>
      -- a directory was moved to where there had been none
      if s.accepted = none then
        some { s.setCall c (.storing .initializeMysql password) with accepted := some password }
      else none
  | .returned (.initialized, none) => none
  | .returned (o, _) => some (s.finish c (some (.initialized o)))
  | .cancelled => some (s.refuse c .quitting)
  | .panicked => some (s.refuse c .endedUnexpectedly)

def resetGate (s : State) (c : CallId) (g : ResetGate) : State :=
  if !g.store then s.refuse c .storeUnavailable
  else if !g.parsed then s.refuse c .notInCatalogue
  else if !g.paths then s.refuse c .noPaths
  else if !g.runtime then s.refuse c .notInstalled
  else s.setCall c .reading

def read (s : State) (c : CallId) (row file : Except String Unit) (new : RootPassword) : State :=
  match row, s.stored, file with
  | .error e, _, _ => s.refuse c (.database e)
  | .ok (), none, _ => s.refuse c .noCredential
  | .ok (), some _, .error e => s.refuse c (.noDefaultsFile e)
  | .ok (), some current, .ok () =>
      (s.setCall c (.altering current new)).setSession c (.waiting current new)

def connected (s : State) (c : CallId) : Option State :=
  match s.sessions c with
  | .waiting current new =>
      if s.accepted = some current then some (s.setSession c (.accepted new)) else none
  | _ => none

def altered (s : State) (c : CallId) : Option State :=
  match s.sessions c with
  | .accepted new => some { s.setSession c (.altered new) with accepted := some new }
  | _ => none

def looksLikeAuthFailure (stderr : String) : Bool :=
  decide ("Access denied".toList <:+: stderr.toList)

/-- What a client that does not succeed makes of a reset. Two passwords are known by then. -/
def clientFailed (current new : RootPassword) : Except String CliOutcome → Returned
  | .ok outcome =>
      if looksLikeAuthFailure outcome.stderr then
        .reset (.authFailed (redactAll outcome.stderr [current.value, new.value]))
      else
        .refused (.client
          (redactAll (orText outcome.stderr "ALTER USER failed") [current.value, new.value]))
  | .error e => .refused (.client (redactAll e [current.value, new.value]))

def succeeded : Except String CliOutcome → Bool
  | .ok outcome => outcome.ok
  | .error _ => false

def exited (s : State) (c : CallId) (current new : RootPassword) (r : Except String CliOutcome) :
    Option State :=
  if succeeded r then
    -- the client succeeds once the server has run its statement
    if s.sessions c = .altered new then
      some (s.setCall c (.storing .resetMysqlRootPassword new))
    else none
  else some (s.finish c (some (clientFailed current new r)))

def upserted (s : State) (c : CallId) (purpose : Purpose) (new : RootPassword) :
    Except String Unit → State
  | .ok () => { s.finish c (some purpose.done) with stored := some new }
  | .error e => s.refuse c (.database e)

def next (s : State) : Action → Option State
  | .initializeMysql c paths g =>
      if s.calls c = .idle then some (initializeMysql s c paths g) else none
  | .discovered c r => if s.calls c = .discovering then some (discovered s c r) else none
  | .ran c e => if s.calls c = .running then ran s c e else none
  | .resetMysqlRootPassword c g =>
      if s.calls c = .idle then some (resetGate s c g) else none
  | .read c row file new => if s.calls c = .reading then some (read s c row file new) else none
  | .connected c => connected s c
  | .altered c => altered s c
  | .exited c r =>
      match s.calls c with
      | .altering current new => exited s c current new r
      | _ => none
  | .upserted c r =>
      match s.calls c with
      | .storing purpose new => some (upserted s c purpose new r)
      | _ => none
  | .dropped c => if (s.calls c).inProgress then some (s.finish c none) else none

def TaskEnd.ofExit : Exit MysqlAnswers.Result → TaskEnd
  | .returned o => .returned o
  | .dropped => .cancelled

/-- **Every attempt of `run_mysql_init` ends in a step** of a call that is running, where the
final datadir is not initialized. -/
theorem ran_of_attempt (home : Path) (hhome : Plain home) (d : Disk) (ans : MysqlAnswers)
    (hpaths : ans.paths = mysqlPaths home ans.major)
    (hfresh : (mysqlPlace home hhome ans.major ans.suffix).Fresh d.tree) (s : State) (c : CallId)
    (hacc : s.accepted = none) :
    (ran s c (.ofExit (Task.finish ans.runMysqlInit (Attempt.start d)).1)).isSome = true := by
  have hends := mysql_ends home hhome d ans hpaths hfresh
  generalize Task.finish ans.runMysqlInit (Attempt.start d) = e at hends
  obtain ⟨o | _, a⟩ := e
  · obtain ⟨outcome, password⟩ := o
    cases outcome with
    | initialized =>
        obtain ⟨p, hp, -⟩ := hends
        cases hp
        simp [TaskEnd.ofExit, ran, hacc]
    | _ => rfl
  · rfl

/-- The stored password is the one that the server accepts. -/
def Opens (s : State) : Prop := ∀ p, s.accepted = some p → s.stored = some p

def Quiet (s : State) : Prop := ∀ c, (s.calls c).inProgress = false

/-- Before the first call. -/
structure Initial (s : State) : Prop where
  opens : Opens s
  unlocked : s.lock = none
  idle : ∀ c, s.calls c = .idle
  alone : ∀ c, s.sessions c = .none

/-- The calls of the two commands for one major. -/
def commands : System State Action where
  init := Initial
  next := next

/-! ### What is owed -/

/-- The password that a call has given to the server and not to the repository. -/
def State.owed (s : State) (c : CallId) : Option RootPassword :=
  match s.calls c, s.sessions c with
  | .storing _ new, _ => some new
  | .altering _ _, .altered new => some new
  | _, _ => none

/-- The server accepts what the call has yet to store. -/
def State.hasLastWord (s : State) (c : CallId) : Bool :=
  s.accepted.isSome && decide (s.owed c = s.accepted)

/-- A call leaves with what it owes only after the server was given another password, it
stores that over no newer one, and the server runs no statement of a client that is gone. -/
def careful (s : State) : Action → Bool
  | .altered c =>
      match s.calls c with
      | .altering _ _ => true
      | _ => false
  | .exited c r => succeeded r || !s.hasLastWord c
  | .upserted c (.error _) | .dropped c => !s.hasLastWord c
  | .upserted c (.ok ()) => decide (s.stored = s.accepted → s.accepted = s.owed c)
  | _ => true

/-- The repository agrees with the server, or the call that is to see to it is under way. -/
def State.Covers (s : State) : Prop := Covered s.accepted s.stored s.owed

section Steps

variable {s s' : State} {c : CallId} {r : Option Returned} {p : Phase} {x : Session}

theorem owed_congr {j : CallId} (hcall : s'.calls j = s.calls j)
    (hsession : s'.sessions j = s.sessions j) : s'.owed j = s.owed j := by
  rw [State.owed, State.owed, hcall, hsession]

theorem owed_finish_of_ne {j : CallId} (hj : j ≠ c) : (s.finish c r).owed j = s.owed j :=
  owed_congr (by simp [State.finish, State.setCall, hj]) (by simp [State.finish, hj])

theorem owed_setCall_of_ne {j : CallId} (hj : j ≠ c) : (s.setCall c p).owed j = s.owed j :=
  owed_congr (by simp [State.setCall, hj]) rfl

theorem owed_setSession_of_ne {j : CallId} (hj : j ≠ c) :
    (s.setSession c x).owed j = s.owed j :=
  owed_congr rfl (by simp [State.setSession, hj])

/-- A call that owes nothing the server accepts may end. -/
theorem covers_finish (h : s.Covers) (hk : s.hasLastWord c = false) : (s.finish c r).Covers := by
  refine Covered.forgiven h (fun j hj => owed_finish_of_ne hj) fun v hv hacc => ?_
  have hacc : s.accepted = some v := hacc
  simp [State.hasLastWord, hv, hacc] at hk

theorem hasLastWord_of_owed (h : s.owed c = none) : s.hasLastWord c = false := by
  cases ha : s.accepted with
  | none => simp [State.hasLastWord, ha]
  | some v => simp [State.hasLastWord, ha, h]

theorem covers_refuse {why : Refusal} (h : s.Covers) (hnone : s.owed c = none) :
    (s.refuse c why).Covers :=
  covers_finish h (hasLastWord_of_owed hnone)

theorem covers_setCall (h : s.Covers) (hnone : s.owed c = none) : (s.setCall c p).Covers :=
  Covered.forgiven h (fun j hj => owed_setCall_of_ne hj) fun v hv => by
    rw [hnone] at hv
    cases hv

/-! ### One step -/

theorem covers_initializeMysql {paths : Bool} {g : Gate} (h : s.Covers)
    (hcall : s.calls c = .idle) : (initializeMysql s c paths g).Covers := by
  have hnone : s.owed c = none := by simp [State.owed, hcall]
  unfold initializeMysql
  split
  · exact covers_refuse h hnone
  · split
    · exact covers_refuse h hnone
    · split
      · exact covers_finish h (hasLastWord_of_owed hnone)
      · exact covers_setCall h hnone

theorem covers_discovered {found : Except String Bool} (h : s.Covers)
    (hcall : s.calls c = .discovering) : (discovered s c found).Covers := by
  have hnone : s.owed c = none := by simp [State.owed, hcall]
  rcases found with e | _ | _
  · exact covers_refuse h hnone
  · exact covers_refuse h hnone
  · exact covers_setCall h hnone

/-- **A datadir that is moved into place** leaves its password to be stored. -/
theorem covers_ran {e : TaskEnd} (h : s.Covers) (hcall : s.calls c = .running)
    (hn : ran s c e = some s') : s'.Covers := by
  have hnone : s.owed c = none := by simp [State.owed, hcall]
  unfold ran at hn
  split at hn
  next password =>
    split at hn
    next =>
      cases hn
      exact Covered.changed (k := c) (by simp [State.owed, State.setCall])
    next => cases hn
  next => cases hn
  next =>
    cases hn
    exact covers_finish h (hasLastWord_of_owed hnone)
  next =>
    cases hn
    exact covers_refuse h hnone
  next =>
    cases hn
    exact covers_refuse h hnone

theorem covers_resetGate {g : ResetGate} (h : s.Covers) (hcall : s.calls c = .idle) :
    (resetGate s c g).Covers := by
  have hnone : s.owed c = none := by simp [State.owed, hcall]
  unfold resetGate
  repeat' split
  all_goals first
    | exact covers_refuse h hnone
    | exact covers_setCall h hnone

theorem covers_read {row file : Except String Unit} {new : RootPassword} (h : s.Covers)
    (hcall : s.calls c = .reading) : (read s c row file new).Covers := by
  have hnone : s.owed c = none := by simp [State.owed, hcall]
  unfold read
  split
  · exact covers_refuse h hnone
  · exact covers_refuse h hnone
  · exact covers_refuse h hnone
  · refine Covered.forgiven (k := c) h (fun j hj => ?_) fun v hv => ?_
    · exact (owed_setSession_of_ne hj).trans (owed_setCall_of_ne hj)
    · rw [hnone] at hv
      cases hv

theorem covers_connected (h : s.Covers) (hn : connected s c = some s') : s'.Covers := by
  unfold connected at hn
  split at hn
  next current new hsession =>
    split at hn
    next =>
      cases hn
      refine Covered.forgiven (k := c) h (fun j hj => owed_setSession_of_ne hj) fun v hv _ => ?_
      -- a call that owes something is at its upsert by now
      cases hcall : s.calls c <;> simp_all [State.owed, State.setSession]
    next => cases hn
  next => cases hn

/-- **The server runs a statement** whose client is still waited for. -/
theorem covers_altered (hcare : careful s (.altered c) = true) (hn : altered s c = some s') :
    s'.Covers := by
  unfold altered at hn
  split at hn
  next new hsession =>
    cases hn
    cases hcall : s.calls c with
    | altering _ _ => exact Covered.changed (k := c) (by simp [State.owed, State.setSession, hcall])
    | _ => simp [careful, hcall] at hcare
  next => cases hn

theorem covers_exited {current new : RootPassword} {result : Except String CliOutcome} (h : s.Covers)
    (hcall : s.calls c = .altering current new) (hcare : careful s (.exited c result) = true)
    (hn : exited s c current new result = some s') : s'.Covers := by
  unfold exited at hn
  split at hn
  next =>
    split at hn
    next hsession =>
      cases hn
      refine Covered.forgiven (k := c) h (fun j hj => owed_setCall_of_ne hj) fun v hv _ => ?_
      simp only [State.owed, hcall, hsession, Option.some.injEq] at hv
      simp [State.owed, State.setCall, hv]
    next => cases hn
  next hfail =>
    cases hn
    refine covers_finish h ?_
    simpa [careful, hfail] using hcare

/-- **A password is stored.** -/
theorem covers_upserted {purpose : Purpose} {new : RootPassword} {result : Except String Unit}
    (h : s.Covers) (hcall : s.calls c = .storing purpose new)
    (hcare : careful s (.upserted c result) = true) : (upserted s c purpose new result).Covers := by
  have howed : s.owed c = some new := by simp [State.owed, hcall]
  rcases result with e | _
  · exact covers_finish h (by simpa [careful] using hcare)
  · refine Covered.paid h (fun j hj => owed_finish_of_ne hj) howed fun hsame => ?_
    have hcare : s.stored = s.accepted → s.accepted = s.owed c := of_decide_eq_true hcare
    exact (hcare hsame).trans howed

/-- **One careful step** keeps the repository covered. -/
theorem covers_step {a : Action} (h : s.Covers) (hcare : careful s a = true)
    (hn : next s a = some s') : s'.Covers := by
  unfold next at hn
  cases a with
  | initializeMysql c paths g =>
      obtain ⟨hcall, hs⟩ := Option.ite_none_right_eq_some.mp hn
      cases hs
      exact covers_initializeMysql h hcall
  | discovered c r =>
      obtain ⟨hcall, hs⟩ := Option.ite_none_right_eq_some.mp hn
      cases hs
      exact covers_discovered h hcall
  | ran c e =>
      obtain ⟨hcall, hs⟩ := Option.ite_none_right_eq_some.mp hn
      exact covers_ran h hcall hs
  | resetMysqlRootPassword c g =>
      obtain ⟨hcall, hs⟩ := Option.ite_none_right_eq_some.mp hn
      cases hs
      exact covers_resetGate h hcall
  | read c row file new =>
      obtain ⟨hcall, hs⟩ := Option.ite_none_right_eq_some.mp hn
      cases hs
      exact covers_read h hcall
  | connected c => exact covers_connected h hn
  | altered c => exact covers_altered hcare hn
  | exited c r =>
      dsimp only at hn
      split at hn
      next current new hcall => exact covers_exited h hcall hcare hn
      next => cases hn
  | upserted c r =>
      dsimp only at hn
      split at hn
      next purpose new hcall =>
        cases hn
        exact covers_upserted h hcall hcare
      next => cases hn
  | dropped c =>
      obtain ⟨-, hs⟩ := Option.ite_none_right_eq_some.mp hn
      cases hs
      exact covers_finish h (by simpa [careful] using hcare)

end Steps

/-! ### Runs -/

/-- **The condition**: no call ends, other than by storing it, while the server accepts the
password that it has yet to store. Nobody else knows that password: a client that is given
up after its statement has run, an upsert that fails and a call that is dropped leave the
server with a password that is nowhere. Two calls at once may also store in the other order
than the server has run their statements. -/
def Careful (s : State) (a : Action) : Prop := careful s a = true

theorem covers_of_reaches {s : State} (h : commands.Reaches Careful s) : s.Covers := by
  refine System.Reaches.invariant (fun s hs v hv => ?_) (fun s a s' => ?_) h
  · exact .inl (hs.opens v hv)
  · intro hcov hcare hn
    exact covers_step hcov hcare hn

theorem owed_of_quiet {s : State} (h : Quiet s) (c : CallId) : s.owed c = none := by
  have hc := h c
  cases hcall : s.calls c with
  | storing purpose new => simp [hcall, Phase.inProgress] at hc
  | altering current new => simp [hcall, Phase.inProgress] at hc
  | _ => simp [State.owed, hcall]

/-- **The stored credential opens the server** whenever no call is in progress, in every run
whose steps are careful. -/
theorem stored_credential_opens (s : State) (h : commands.Reaches Careful s) (hq : Quiet s) :
    Opens s :=
  fun _ hp => (covers_of_reaches h).settled (owed_of_quiet hq) hp

/-! ### Samples -/

def samplePassword (n : Nat) : RootPassword := ⟨(toString n).toList⟩

/-- An initialized major whose password is stored, and one that is not there yet. -/
def sampleState (password : Option RootPassword) : State :=
  ⟨password, password, none, fun _ => .idle, fun _ => .none⟩

theorem initial_sampleState (password : Option RootPassword) : Initial (sampleState password) :=
  ⟨fun _ hp => hp, rfl, fun _ => rfl, fun _ => rfl⟩

def sampleGate : Gate := ⟨true, true, true, .ok .notInitialized⟩
def sampleResetGate : ResetGate := ⟨true, true, true, true⟩

/-- A reset up to where the server has run the statement of its client. -/
def sampleReset (c : CallId) : List Action :=
  [.resetMysqlRootPassword c sampleResetGate,
    .read c (.ok ()) (.ok ()) (samplePassword c), .connected c, .altered c]

/-- A major is initialized, and its password is reset twice. -/
def sampleRun : List Action :=
  [.initializeMysql 0 true sampleGate, .discovered 0 (.ok true),
    .ran 0 (.returned (.initialized, some (samplePassword 0))), .upserted 0 (.ok ())] ++
  sampleReset 1 ++ [.exited 1 wentWell, .upserted 1 (.ok ())] ++
  sampleReset 2 ++ [.exited 2 wentWell, .upserted 2 (.ok ())]

def sampleEnd : State :=
  (commands.execWhile careful (sampleState none) sampleRun).getD (sampleState none)

theorem quiet_sampleEnd : Quiet sampleEnd
  | 0 => rfl
  | 1 => rfl
  | 2 => rfl
  | _ + 3 => rfl

theorem stored_credential_opens_sample :
    Opens sampleEnd ∧ sampleEnd.accepted = some (samplePassword 2) := by
  have hrun : commands.execWhile careful (sampleState none) sampleRun = some sampleEnd := rfl
  have hreaches := (System.leads_of_execWhile (fun _ _ h => h) hrun).reaches
    (.init (initial_sampleState none))
  exact ⟨stored_credential_opens sampleEnd hreaches quiet_sampleEnd, rfl⟩

/-- A reset whose client takes too long, after the server has run its statement. -/
def killedRun : List Action := sampleReset 1 ++ [.exited 1 (.error "probe timed out")]

def killedEnd : State :=
  (commands.exec (sampleState (some (samplePassword 0))) killedRun).getD (sampleState none)

/-- **A client that is killed** once the server has run its statement leaves a password that
nothing holds. -/
theorem killed_client_desyncs : ∃ s, commands.Reachable s ∧ Quiet s ∧ ¬ Opens s := by
  have hrun : commands.exec (sampleState (some (samplePassword 0))) killedRun = some killedEnd :=
    rfl
  refine ⟨killedEnd, System.reaches_of_exec (.init (initial_sampleState _)) hrun, ?_, fun h => ?_⟩
  · intro c
    match c with
    | 0 => rfl
    | 1 => rfl
    | _ + 2 => rfl
  · have hstored : killedEnd.stored = some (samplePassword 0) := rfl
    have hnew := h (samplePassword 1) rfl
    rw [hstored] at hnew
    exact absurd hnew (by decide)

end OpenVHost.Datadir.Credential
