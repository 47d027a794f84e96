/-
# Root passwords in what is shown

Once a root password is known, what the children write is redacted before it is forwarded or
returned. What the program says itself is not: it quotes paths.

* `details_of_attempt` — the details of an attempt of `run_mysql_init`, after which there is a
  password.
* `verifyMysqlConnection` — the connection proof.
* `secrets_hidden` — no password is in a forwarded line or in a detail.
* `unredacted` — a line that was on its way before, and a path.
-/

import OpenVHost.Datadir.Credential
import OpenVHost.Datadir.InitLog

namespace OpenVHost.Datadir

open FileTree
open Async (Task Exit)

/-! ### What a failure says -/

/-- How the errors of the operating system, and the values in a message, are shown. -/
structure Shown where
  errno : Errno → List Char
  name : Name → List Char
  state : DatadirState → List Char

def pathText (p : Path) : List Char := p.flatMap fun n => '/' :: n

def ClutterError.text (shown : Shown) : ClutterError → List Char
  | io path e => pathText path ++ ": ".toList ++ shown.errno e
  | symlink path => pathText path ++ " is a symlink — refusing to finalize into it".toList
  | notFolder path => pathText path ++ " already exists and is not a folder".toList
  | holds path name => pathText path ++ " is not empty and contains ".toList ++ shown.name name ++
      ", which is not macOS Finder clutter — refusing to remove anything".toList

def FinalizeReason.text (shown : Shown) : FinalizeReason DatadirState → List Char
  | notInitialized staging state => "staging directory ".toList ++ pathText staging ++
      " did not contain the expected MySQL sentinels after init: ".toList ++ shown.state state
  | notInspected staging e => "failed to inspect staging directory ".toList ++ pathText staging ++
      ": ".toList ++ shown.errno e
  | inTheWay e => e.text shown
  | notMoved staging finalDir e => "failed to move ".toList ++ pathText staging ++
      " into place at ".toList ++ pathText finalDir ++ ": ".toList ++ shown.errno e

/-- The detail of a failure; there is no password yet where the staging directory is made. -/
def InitReason.detail (shown : Shown) : InitReason DatadirState → Option (List Char)
  | text s => some s.toList
  | quoted what error => some (what.toList ++ error.toList)
  | disk _ _ _ => none
  | finalize r => some (r.text shown)

/-- What an error of the operating system or of the database says: it holds no long run of
hexadecimal digits. -/
def SystemError (r : Except String Unit) : Prop := ∀ e, r = .error e → shortRuns e.toList = true

/-- The detail where the file of a credential cannot be written. -/
theorem hidden_credentialFile {secrets : List (List Char)} {e : String}
    (h : ∀ secret ∈ secrets, Generated secret) (he : shortRuns e.toList = true) :
    Hidden secrets ("failed to write the ephemeral credential file: " ++ e).toList := by
  have hfixed : "failed to write the ephemeral credential file: ".toList =
      "failed to write the ephemeral credential file:".toList ++ [' '] := by decide
  refine hidden_of_shortRuns h ?_
  rw [String.toList_append, hfixed, List.append_assoc, List.singleton_append,
    shortRuns_append (by decide), he, Bool.and_true]
  decide

/-! ### An attempt -/

section Attempts

variable {shown : Shown} {ans : MysqlAnswers} {α : Type} {Q : α → Prop}
  {step : MysqlInitStep} {reason : InitReason DatadirState}

/-- What an attempt returns after there is a password, up to the move into place. -/
def DetailHidden (shown : Shown) (ans : MysqlAnswers) : Exit MysqlAnswers.Result → Prop
  | .returned (.failed step reason, _) => step = .setPassword ∨ step = .shutdown →
      ∀ d, reason.detail shown = some d → Hidden [ans.password.value] d
  | _ => True

/-- No redacted text, and none without a long run of digits, holds the password. -/
def QuietReason (shown : Shown) (ans : MysqlAnswers) (reason : InitReason DatadirState) : Prop :=
  ∀ d, reason.detail shown = some d → Hidden [ans.password.value] d

theorem generated_singleton {p : RootPassword} (h : Generated p.value) :
    ∀ s ∈ [p.value], Generated s := by
  intro s hs
  rw [List.mem_singleton.mp hs]
  exact h

theorem quiet_redacted (h : Generated ans.password.value) (s : String) :
    QuietReason shown ans (.text (redact s ans.password.value)) := by
  rintro d ⟨⟩
  exact hidden_redact h s

theorem quiet_text (h : Generated ans.password.value) {s : String}
    (hs : shortRuns s.toList = true) : QuietReason shown ans (.text s) := by
  rintro d ⟨⟩
  exact hidden_of_shortRuns (generated_singleton h) hs

theorem quiet_redactedCheck (h : Generated ans.password.value) {what : String}
    {r : Except String CliOutcome} (hr : redactedCheck ans.password what r = .error reason) :
    QuietReason shown ans reason := by
  unfold redactedCheck at hr
  split at hr
  next outcome =>
    split_ifs at hr
    cases hr
    exact quiet_redacted h _
  next e =>
    cases hr
    exact quiet_redacted h e

theorem quiet_credentialFile (h : Generated ans.password.value)
    (hfile : SystemError ans.defaultsFile)
    (hr : quoting "failed to write the ephemeral credential file: " ans.defaultsFile =
      .error reason) : QuietReason shown ans reason := by
  unfold quoting at hr
  split at hr
  next => cases hr
  next e he =>
    cases hr
    rintro d ⟨⟩
    rw [← String.toList_append]
    exact hidden_credentialFile (generated_singleton h) (hfile e he)

/-! ### The steps of an attempt -/

theorem meets_onDisk {x : Io Empty α} {E : Exit MysqlAnswers.Result → Prop}
    (h : ∀ d, Q (settle x d).1) : Task.Meets (onDisk x : Task Attempt MysqlAnswers.Result α) Q E :=
  fun a => h a.disk

theorem meets_awaiting {out : Outside} {staging : Path} :
    Task.Meets (await out staging) (fun _ => True) (DetailHidden shown ans) :=
  Task.meets_await trivial trivial

theorem meets_note {e : Event} {E : Exit MysqlAnswers.Result → Prop} :
    Task.Meets (note e) (fun _ => True) E :=
  Task.meets_modify trivial

theorem meets_removeStaging :
    Task.Meets (removeStaging ans.out ans.staging) (fun _ => True) (DetailHidden shown ans) :=
  Task.meets_then (meets_onDisk fun _ => trivial) fun _ => meets_note

theorem meets_fail (h : step = .setPassword ∨ step = .shutdown → QuietReason shown ans reason) :
    Task.Meets (fail ans.attempts step reason : Task Attempt MysqlAnswers.Result α) Q
      (DetailHidden shown ans) :=
  Task.meets_early h

theorem meets_failCleanup
    (h : step = .setPassword ∨ step = .shutdown → QuietReason shown ans reason) :
    Task.Meets (failCleanup ans.attempts step reason : Task Attempt MysqlAnswers.Result α) Q
      (DetailHidden shown ans) :=
  Task.meets_then meets_removeStaging fun _ => meets_fail h

theorem meets_failTempServer
    (h : step = .setPassword ∨ step = .shutdown → QuietReason shown ans reason) :
    Task.Meets (failTempServer ans.attempts step reason : Task Attempt MysqlAnswers.Result α) Q
      (DetailHidden shown ans) := by
  have hkill : Task.Meets (killAndWait ans.attempts.out ans.attempts.staging) (fun _ => True)
      (DetailHidden shown ans) :=
    Task.meets_then meets_note fun _ => Task.meets_then meets_awaiting fun _ =>
      Task.meets_then (Task.meets_modify trivial) fun _ => Task.meets_modify trivial
  exact Task.meets_then hkill fun _ => meets_failCleanup h

theorem meets_check {c : Check DatadirState}
    (h : step = .setPassword ∨ step = .shutdown →
      ∀ reason, c = .error reason → QuietReason shown ans reason) :
    Task.Meets (check ans.attempts step c) (fun _ => True) (DetailHidden shown ans) := by
  cases c with
  | ok u => exact Task.meets_pure trivial
  | error reason => exact meets_fail fun hstep => h hstep reason rfl

theorem meets_checkStaged {c : Check DatadirState}
    (h : step = .setPassword ∨ step = .shutdown →
      ∀ reason, c = .error reason → QuietReason shown ans reason) :
    Task.Meets (checkStaged ans.attempts step c) (fun _ => True) (DetailHidden shown ans) := by
  cases c with
  | ok u => exact Task.meets_pure trivial
  | error reason => exact meets_failCleanup fun hstep => h hstep reason rfl

theorem meets_checkServed {c : Check DatadirState}
    (h : step = .setPassword ∨ step = .shutdown →
      ∀ reason, c = .error reason → QuietReason shown ans reason) :
    Task.Meets (checkServed ans.attempts step c) (fun _ => True) (DetailHidden shown ans) := by
  cases c with
  | ok u => exact Task.meets_pure trivial
  | error reason => exact meets_failTempServer fun hstep => h hstep reason rfl

theorem meets_pollUntilReady (turns : List PollTurn) :
    Task.Meets (pollUntilReady ans.out ans.staging turns) (fun _ => True)
      (DetailHidden shown ans) := by
  induction turns with
  | nil => exact Task.meets_pure trivial
  | cons turn turns ih =>
      refine Task.meets_then meets_awaiting fun _ => ?_
      split
      · exact Task.meets_pure trivial
      · split
        · exact Task.meets_pure trivial
        · split
          · exact Task.meets_pure trivial
          · exact Task.meets_then meets_awaiting fun _ => ih

/-- The move into place fails as such. -/
theorem finalizeStaging_step (os : Os) (staging finalDir : Path) (d : Disk)
    {r : FinalizeReason DatadirState}
    (h : (settle (finalizeStaging os staging finalDir) d).1 = .failed step r) :
    step = .finalize := by
  have hwp : Io.wp (@finalizeStaging Empty os staging finalDir)
      (fun o _ => ∀ step r, o = .failed step r → step = .finalize) (fun _ _ => False) d := by
    rw [finalizeStaging, Io.wp_bind, Io.wp_attempt]
    unfold Io.wp
    split
    · rintro step r ⟨⟩
    · rintro step r ⟨⟩
      rfl
  have hall := settle_of_wp hwp
  exact hall step r h

theorem meets_finish : Task.Meets ans.finish (fun o => DetailHidden shown ans (.returned o))
    (DetailHidden shown ans) := by
  have hmove : Task.Meets (onDisk (finalizeStaging ans.out.os ans.staging ans.paths.datadir))
      (fun o => ∀ step r, o = .failed step r → step = .finalize) (DetailHidden shown ans) :=
    meets_onDisk fun d _ _ => finalizeStaging_step _ _ _ d
  refine Task.meets_bind hmove fun o ho => ?_
  cases o with
  | initialized => exact Task.meets_then meets_note fun _ => Task.meets_pure trivial
  | alreadyInitialized => exact Task.meets_pure trivial
  | foreign dir found => exact Task.meets_pure trivial
  | failed step r =>
      refine Task.meets_then meets_removeStaging fun _ => Task.meets_pure fun hstep => ?_
      rw [ho step r rfl] at hstep
      rcases hstep with hstep | hstep <;> cases hstep

theorem meets_awaitExit (h : Generated ans.password.value) :
    Task.Meets ans.awaitExit (fun _ => True) (DetailHidden shown ans) := by
  refine Task.meets_then meets_awaiting fun _ => ?_
  split
  · exact Task.meets_then (Task.meets_modify trivial) fun _ => Task.meets_modify trivial
  · exact meets_failTempServer fun _ => quiet_text h (by decide)

theorem meets_serve (h : Generated ans.password.value) (hfile : SystemError ans.defaultsFile) :
    Task.Meets ans.serve (fun o => DetailHidden shown ans (.returned o))
      (DetailHidden shown ans) := by
  refine Task.meets_then meets_note fun _ => ?_
  refine Task.meets_then (meets_pollUntilReady _) fun ready => ?_
  refine Task.meets_then (meets_checkServed (by simp)) fun _ => ?_
  refine Task.meets_then meets_awaiting fun _ => ?_
  refine Task.meets_then (meets_checkServed fun _ _ => quiet_redactedCheck h) fun _ => ?_
  refine Task.meets_then meets_note fun _ => ?_
  refine Task.meets_then (meets_checkServed fun _ _ => quiet_credentialFile h hfile) fun _ => ?_
  refine Task.meets_then meets_awaiting fun _ => ?_
  refine Task.meets_then (meets_checkServed fun _ _ => quiet_redactedCheck h) fun _ => ?_
  refine Task.meets_then meets_note fun _ => ?_
  exact Task.meets_then (meets_awaitExit h) fun _ => meets_finish

theorem meets_runMysqlInit (h : Generated ans.password.value)
    (hfile : SystemError ans.defaultsFile) :
    Task.Meets ans.runMysqlInit (fun o => DetailHidden shown ans (.returned o))
      (DetailHidden shown ans) := by
  have hcreate : Task.Meets (createStaging ans.attempts .initializeDatadir) (fun _ => True)
      (DetailHidden shown ans) := by
    refine Task.meets_then (meets_onDisk fun _ => trivial) fun r => ?_
    cases r with
    | ok u => exact meets_note
    | error e => exact meets_fail (by simp)
  have hlock : Task.Meets ans.lockDown (fun _ => True) (DetailHidden shown ans) := by
    refine Task.meets_then (meets_onDisk fun _ => trivial) fun r => ?_
    cases r with
    | ok u => exact Task.meets_pure trivial
    | error e => exact meets_failCleanup (by simp)
  refine Task.meets_then (meets_check (by simp)) fun _ => ?_
  refine Task.meets_then (meets_check (by simp)) fun _ => ?_
  refine Task.meets_then (meets_check (by simp)) fun _ => ?_
  refine Task.meets_then meets_awaiting fun _ => ?_
  refine Task.meets_then (meets_check (by simp)) fun _ => ?_
  refine Task.meets_then hcreate fun _ => ?_
  refine Task.meets_then hlock fun _ => ?_
  refine Task.meets_then meets_awaiting fun _ => ?_
  refine Task.meets_then (meets_checkStaged (by simp)) fun _ => ?_
  refine Task.meets_then (meets_checkStaged (by simp)) fun _ => ?_
  refine Task.meets_then (meets_checkStaged (by simp)) fun _ => ?_
  exact Task.meets_guarded (meets_serve h hfile)

/-- **The details of an attempt**, once there is a password. -/
theorem details_of_attempt (shown : Shown) (ans : MysqlAnswers) (a : Attempt)
    (h : Generated ans.password.value) (hfile : SystemError ans.defaultsFile) :
    DetailHidden shown ans (Task.finish ans.runMysqlInit a).1 :=
  Task.meets_finish (meets_runMysqlInit h hfile) a

end Attempts

/-! ### A reset -/

namespace Credential

/-- What a call returns where it does not succeed, from the read of the stored credential on. -/
def Returned.detail : Returned → Option String
  | .reset (.authFailed detail) => some detail
  | .refused (.client message) => some message
  | .refused (.noDefaultsFile e) => some ("failed to write the ephemeral credential file: " ++ e)
  | .refused (.database e) => some e
  | _ => none

section Resets

variable {s s' : State} {c : CallId} {current new : RootPassword} {ret : Returned} {d : String}

theorem hidden_clientFailed (hcurrent : Generated current.value) (hnew : Generated new.value)
    {r : Except String CliOutcome} (hd : (clientFailed current new r).detail = some d) :
    Hidden [current.value, new.value] d.toList := by
  have hgen : ∀ secret ∈ [current.value, new.value], Generated secret := by
    intro secret hs
    rcases List.mem_pair.mp hs with rfl | rfl
    · exact hcurrent
    · exact hnew
  unfold clientFailed at hd
  split at hd
  next outcome =>
    split_ifs at hd
    · cases hd
      exact hidden_redactAll hgen _
    · cases hd
      exact hidden_redactAll hgen _
  next e =>
    cases hd
    exact hidden_redactAll hgen e

/-- What `reset_mysql_root_password` returns once the client has exited. -/
theorem hidden_exited (hcurrent : Generated current.value) (hnew : Generated new.value)
    {r : Except String CliOutcome} (hcall : s.calls c = .altering current new)
    (hn : next s (.exited c r) = some s') (hret : s'.calls c = .ended (some ret))
    (hd : ret.detail = some d) : Hidden [current.value, new.value] d.toList := by
  simp only [next, hcall, exited] at hn
  split_ifs at hn
  · cases hn
    simp [State.setCall] at hret
  · cases hn
    have hret : ret = clientFailed current new r := by
      simpa [State.finish, State.setCall, eq_comm] using hret
    rw [hret] at hd
    exact hidden_clientFailed hcurrent hnew hd

/-- What it returns before the client is started: an error of the database, or of the file of the
stored credential. -/
theorem hidden_read {secrets : List (List Char)} (h : ∀ secret ∈ secrets, Generated secret)
    {row file : Except String Unit} (hrow : SystemError row) (hfile : SystemError file)
    (hn : read s c row file new = s') (hret : s'.calls c = .ended (some ret))
    (hd : ret.detail = some d) : Hidden secrets d.toList := by
  have hrefused : ∀ {why}, s.refuse c why = s' → ret = .refused why := by
    rintro why rfl
    simpa [State.refuse, State.finish, State.setCall, eq_comm] using hret
  unfold read at hn
  rcases row with e | ⟨⟩
  · rw [hrefused hn] at hd
    cases hd
    exact hidden_of_shortRuns h (hrow _ rfl)
  · cases hstored : s.stored with
    | none =>
        rw [hstored] at hn
        rw [hrefused hn] at hd
        cases hd
    | some current =>
        rw [hstored] at hn
        rcases file with e | ⟨⟩
        · rw [hrefused hn] at hd
          cases hd
          exact hidden_credentialFile h (hfile e rfl)
        · subst hn
          simp [State.setCall, State.setSession] at hret

/-- What it returns once the client has succeeded. -/
theorem hidden_upserted {secrets : List (List Char)} (h : ∀ secret ∈ secrets, Generated secret)
    {purpose : Purpose} {r : Except String Unit} (hr : SystemError r)
    (hn : upserted s c purpose new r = s') (hret : s'.calls c = .ended (some ret))
    (hd : ret.detail = some d) : Hidden secrets d.toList := by
  rcases r with e | ⟨⟩
  · have hret : ret = .refused (.database e) := by
      subst hn
      simpa [upserted, State.refuse, State.finish, State.setCall, eq_comm] using hret
    rw [hret] at hd
    cases hd
    exact hidden_of_shortRuns h (hr _ rfl)
  · have hret : ret = purpose.done := by
      subst hn
      simpa [upserted, State.finish, State.setCall, eq_comm] using hret
    rw [hret] at hd
    cases purpose <;> cases hd

end Resets

end Credential

/-! ### The connection proof -/

open Credential (looksLikeAuthFailure)

inductive ConnectionProof where
  | ok (version : List Char) (port : Nat)
  | authFailed (detail : String)
  | failed (detail : String)
  deriving DecidableEq, Repr

/-- `str::parse` of a `u32`. -/
def parseU32 (s : List Char) : Option Nat :=
  let digits := match s with
    | '+' :: rest => rest
    | s => s
  if digits.isEmpty || !digits.all (fun c => '0'.toNat ≤ c.toNat && c.toNat ≤ '9'.toNat) then none
  else
    let n := digits.foldl (fun n c => 10 * n + (c.toNat - '0'.toNat)) 0
    if n < 2 ^ 32 then some n else none

/-- `parse_version_and_port`: a carriage return at the end of the line goes with the blanks. -/
def parseVersionAndPort (stdout : List Char) : Option (List Char × Nat) :=
  match (stdout.takeWhile (· != '\n')).splitOn '\t' with
  | version :: port :: _ => do
      let port ← parseU32 (trim port)
      if (trim version).isEmpty then none else some (trim version, port)
  | _ => none

/-- `verify_mysql_connection`, from the read of the stored credential on; `debug` is the `Debug`
of a text. -/
def verifyMysqlConnection (debug : String → String) (stored : RootPassword)
    (file : Except String Unit) (client : Except String CliOutcome) :
    Except String ConnectionProof :=
  match file with
  | .error e => .error ("failed to write the ephemeral credential file: " ++ e)
  | .ok () =>
      match client with
      | .error e => .ok (.failed (redact e stored.value))
      | .ok outcome =>
          if !outcome.ok then
            if looksLikeAuthFailure outcome.stderr then
              .ok (.authFailed (redact outcome.stderr stored.value))
            else
              .ok (.failed
                (redact (orText outcome.stderr "the connection attempt failed") stored.value))
          else
            match parseVersionAndPort outcome.stdout.toList with
            | some (version, port) => .ok (.ok version port)
            | none => .ok (.failed (redact
                ("could not parse a version/port from: " ++ debug outcome.stdout) stored.value))

/-- What a connection proof says where it fails. -/
def proofDetail : Except String ConnectionProof → Option String
  | .error message => some message
  | .ok (.authFailed detail) => some detail
  | .ok (.failed detail) => some detail
  | .ok (.ok _ _) => none

example : parseVersionAndPort "8.4.11\t3306\n".toList = some ("8.4.11".toList, 3306) := by
  decide

theorem hidden_verify {debug : String → String} {stored : RootPassword}
    {file : Except String Unit} {client : Except String CliOutcome} {d : String}
    (h : Generated stored.value) (hfile : SystemError file)
    (hd : proofDetail (verifyMysqlConnection debug stored file client) = some d) :
    Hidden [stored.value] d.toList := by
  unfold verifyMysqlConnection at hd
  split at hd
  next e =>
    cases hd
    exact hidden_credentialFile (generated_singleton h) (hfile e rfl)
  next =>
    split at hd
    · cases hd
      exact hidden_redact h _
    · split_ifs at hd
      · cases hd
        exact hidden_redact h _
      · cases hd
        exact hidden_redact h _
      · split at hd
        · cases hd
        · cases hd
          exact hidden_redact h _

/-! ### Together -/

/-- **No password that is known is in what is shown of a child.** A forwarded line does not hold
the generated password where its call of the sink has read it from the cell, and so not where it
was printed once a child had been given it; no detail of the steps that set the password and shut
the temporary server down does, and none that a reset or a connection proof returns from the read
of the stored credential on holds a password that is known by then. -/
theorem secrets_hidden :
    (∀ (s : InitLog.State), InitLog.initLog.Reachable s → ∀ password, s.password = some password →
      Generated password.value → ∀ f ∈ s.forwarded, f.secret.isSome = true ∨ f.knowing = true →
        Hidden [password.value] f.scrubbed.toList) ∧
      (∀ (shown : Shown) (ans : MysqlAnswers) (a : Attempt), Generated ans.password.value →
        SystemError ans.defaultsFile →
        ∀ step reason password,
          (Task.finish ans.runMysqlInit a).1 = .returned (.failed step reason, password) →
          step = .setPassword ∨ step = .shutdown →
          ∀ d, reason.detail shown = some d → Hidden [ans.password.value] d) ∧
      (∀ (s s' : Credential.State) (c : Credential.CallId) (current new : RootPassword)
        (row file : Except String Unit) (ret : Credential.Returned) (d : String),
        Generated current.value → s.stored = some current → SystemError row → SystemError file →
        Credential.next s (.read c row file new) = some s' → s'.calls c = .ended (some ret) →
        ret.detail = some d → Hidden [current.value] d.toList) ∧
      (∀ (s s' : Credential.State) (c : Credential.CallId) (current new : RootPassword)
        (client : Except String CliOutcome) (ret : Credential.Returned) (d : String),
        Generated current.value → Generated new.value → s.calls c = .altering current new →
        Credential.next s (.exited c client) = some s' → s'.calls c = .ended (some ret) →
        ret.detail = some d → Hidden [current.value, new.value] d.toList) ∧
      (∀ (s s' : Credential.State) (c : Credential.CallId) (current new : RootPassword)
        (stored : Except String Unit) (ret : Credential.Returned) (d : String),
        Generated current.value → Generated new.value → SystemError stored →
        s.calls c = .storing .resetMysqlRootPassword new →
        Credential.next s (.upserted c stored) = some s' → s'.calls c = .ended (some ret) →
        ret.detail = some d → Hidden [current.value, new.value] d.toList) ∧
      ∀ (debug : String → String) (stored : RootPassword) (file : Except String Unit)
        (client : Except String CliOutcome) (d : String), Generated stored.value →
        SystemError file →
        proofDetail (verifyMysqlConnection debug stored file client) = some d →
        Hidden [stored.value] d.toList := by
  have hpair : ∀ {a b : RootPassword}, Generated a.value → Generated b.value →
      ∀ secret ∈ [a.value, b.value], Generated secret := by
    intro a b ha hb secret hs
    rcases List.mem_pair.mp hs with rfl | rfl
    · exact ha
    · exact hb
  refine ⟨fun s h p hp hgen f hf => InitLog.scrubbed_hidden h hp hgen hf, ?_, ?_, ?_, ?_,
    fun debug stored file client d h hfile => hidden_verify h hfile⟩
  · intro shown ans a hgen hfile step reason password hend
    have hdetail := details_of_attempt shown ans a hgen hfile
    rw [hend] at hdetail
    exact hdetail
  · intro s s' c current new row file ret d hgen _ hrow hfile hn
    simp only [Credential.next] at hn
    split_ifs at hn
    exact Credential.hidden_read (generated_singleton hgen) hrow hfile (Option.some.inj hn)
  · intro s s' c current new client ret d hcurrent hnew hcall hn
    exact Credential.hidden_exited hcurrent hnew hcall hn
  · intro s s' c current new stored ret d hcurrent hnew hstored hcall hn
    simp only [Credential.next, hcall] at hn
    exact Credential.hidden_upserted (hpair hcurrent hnew) hstored (Option.some.inj hn)

def noLog : InitLog.State := ⟨none, none, false, fun _ => [], fun _ => none, []⟩

def knownPassword : RootPassword := ⟨sampleSuffix.chars⟩

def nextPassword : RootPassword := ⟨"fedcba9876543210fedcba9876543210".toList⟩

theorem generated_known : Generated knownPassword.value :=
  have hhex : knownPassword.value.all isLowerHex = true := by decide
  ⟨by decide, List.all_eq_true.mp hhex⟩

theorem generated_next : Generated nextPassword.value :=
  have hhex : nextPassword.value.all isLowerHex = true := by decide
  ⟨by decide, List.all_eq_true.mp hhex⟩

theorem systemError_locked : SystemError (.error "database is locked") := by
  rintro e ⟨⟩
  decide

/-- What a client prints that tells both passwords. -/
def tellingText : String :=
  "cannot run '" ++ String.ofList knownPassword.value ++ "', '" ++
    String.ofList nextPassword.value ++ "'"

def tellingClient : Except String CliOutcome := .ok ⟨false, "", tellingText⟩

theorem tellingText_failure :
    Credential.looksLikeAuthFailure tellingText = false ∧ orText tellingText = fun _ => tellingText := by
  have hblank : (trim tellingText.toList).isEmpty = false := by decide +kernel
  refine ⟨by decide +kernel, funext fun fallback => ?_⟩
  rw [orText, hblank]
  rfl

/-- An attempt whose password cannot be set. -/
def unaltered : MysqlAnswers := { sampleInit [] with
  password := knownPassword
  altered := tellingClient }

/-- The temporary server prints the password once a client has been given it. -/
def toldLog : List InitLog.Action :=
  [.generated knownPassword, .stored, .given, .printed .stdout (String.ofList knownPassword.value),
    .drained .stdout, .forwarded .stdout]

open Credential in
/-- A reset that is about to read the stored credential. -/
def readingState : State :=
  (next (sampleState (some knownPassword)) (.resetMysqlRootPassword 0 sampleResetGate)).getD
    (sampleState none)

open Credential in
/-- The reset once its client has been started. -/
def alteringState : State :=
  (next readingState (.read 0 (.ok ()) (.ok ()) nextPassword)).getD (sampleState none)

open Credential in
/-- The reset once its client has succeeded. -/
def storingState : State :=
  (commands.exec alteringState [.connected 0, .altered 0, .exited 0 wentWell]).getD
    (sampleState none)

/-- What an attempt says that could not set the password. -/
def unsetText : Exit MysqlAnswers.Result → Option String
  | .returned (.failed .setPassword (.text s), none) => some s
  | _ => none

theorem eq_of_unsetText {e : Exit MysqlAnswers.Result} {s : String} (h : unsetText e = some s) :
    e = .returned (.failed .setPassword (.text s), none) := by
  unfold unsetText at h
  split at h
  · cases h
    rfl
  · cases h

open Credential in
/-- A child tells the passwords, or the database refuses, on each way out. -/
theorem secrets_hidden_told :
    (∃ s, InitLog.initLog.Reachable s ∧ ∃ f ∈ s.forwarded, f.knowing = true ∧
      Hidden [knownPassword.value] f.scrubbed.toList) ∧
      (∃ s, (Task.finish unaltered.runMysqlInit (Attempt.start stagedDisk)).1 =
          .returned (.failed .setPassword (.text s), none) ∧
        Hidden [knownPassword.value] s.toList) ∧
      (∃ s' ret d, next readingState (.read 0 (.error "database is locked") (.ok ()) nextPassword) =
          some s' ∧ s'.calls 0 = .ended (some ret) ∧ ret.detail = some d ∧
        Hidden [knownPassword.value] d.toList) ∧
      (∃ s' ret d, next alteringState (.exited 0 tellingClient) = some s' ∧
        s'.calls 0 = .ended (some ret) ∧ ret.detail = some d ∧
        Hidden [knownPassword.value, nextPassword.value] d.toList) ∧
      (∃ s' ret d, next storingState (.upserted 0 (.error "database is locked")) = some s' ∧
        s'.calls 0 = .ended (some ret) ∧ ret.detail = some d ∧
        Hidden [knownPassword.value, nextPassword.value] d.toList) ∧
      ∃ d, proofDetail (verifyMysqlConnection id knownPassword (.ok ()) tellingClient) = some d ∧
        Hidden [knownPassword.value] d.toList := by
  obtain ⟨hlines, hattempt, hread, hexited, hupserted, hproof⟩ := secrets_hidden
  refine ⟨?_, ?_, ?_, ?_, ?_, ?_⟩
  · have hinit : InitLog.Initial noLog := ⟨rfl, rfl, rfl, fun _ => rfl, fun _ => rfl, rfl⟩
    have hrun : (InitLog.initLog.exec noLog toldLog).any (fun s =>
        decide (s.password = some knownPassword) && s.forwarded.any fun f => f.knowing) = true := by
      decide
    obtain ⟨s, hs, htold⟩ := Lts.System.exists_of_exec _ _ (.init hinit) hrun
    rw [Bool.and_eq_true, decide_eq_true_eq, List.any_eq_true] at htold
    obtain ⟨hpassword, f, hf, hknowing⟩ := htold
    exact ⟨s, hs, f, hf, hknowing, hlines s hs _ hpassword generated_known f hf (.inr hknowing)⟩
  · have hsome : (unsetText (Task.finish unaltered.runMysqlInit (Attempt.start stagedDisk)).1).isSome
        = true := by
      decide
    obtain ⟨s, hs⟩ := Option.isSome_iff_exists.mp hsome
    have hend := eq_of_unsetText hs
    have hfile : SystemError unaltered.defaultsFile := by rintro e ⟨⟩
    exact ⟨s, hend, hattempt ⟨fun _ => [], id, fun _ => []⟩ unaltered _ generated_known hfile _ _ _
      hend (.inl rfl) _ rfl⟩
  · have hfile : SystemError (.ok ()) := by rintro e ⟨⟩
    exact ⟨_, .refused (.database "database is locked"), _, rfl, rfl, rfl, hread readingState _ 0
      knownPassword nextPassword _ _ _ _ generated_known rfl systemError_locked hfile rfl rfl rfl⟩
  · have hdetail : (clientFailed knownPassword nextPassword tellingClient).detail =
        some (redactAll tellingText [knownPassword.value, nextPassword.value]) := by
      rw [tellingClient, clientFailed, tellingText_failure.1, tellingText_failure.2]
      rfl
    exact ⟨_, _, _, rfl, rfl, hdetail, hexited alteringState _ 0 knownPassword nextPassword
      tellingClient _ _ generated_known generated_next rfl rfl rfl hdetail⟩
  · exact ⟨_, _, _, rfl, rfl, rfl, hupserted storingState _ 0 knownPassword nextPassword _ _ _
      generated_known generated_next systemError_locked rfl rfl rfl rfl⟩
  · have hfile : SystemError (.ok ()) := by rintro e ⟨⟩
    have hdetail : proofDetail (verifyMysqlConnection id knownPassword (.ok ()) tellingClient) =
        some (redact tellingText knownPassword.value) := by
      rw [tellingClient, verifyMysqlConnection]
      simp only [Bool.not_false, if_true, tellingText_failure.1, tellingText_failure.2]
      rfl
    exact ⟨_, hdetail, hproof id knownPassword (.ok ()) tellingClient _ generated_known hfile hdetail⟩

/-- The temporary server prints a line, and the call that is to forward it has read the cell before
the password is there. -/
def inFlight (line : String) (password : RootPassword) : List InitLog.Action :=
  [.printed .stdout line, .drained .stdout, .generated password, .stored, .forwarded .stdout]

/-- An attempt that cannot move its staging directory into place. -/
def unmovable : MysqlAnswers := { sampleInit [] with password := ⟨sampleSuffix.chars⟩ }

/-- **What is not redacted**: a line on its way to the sink when the password is put into the cell,
and the path of the staging directory. -/
theorem unredacted :
    (∃ s, InitLog.initLog.Reachable s ∧ ∃ password, s.password = some password ∧
      Generated password.value ∧ ∃ f ∈ s.forwarded, f.existed = true ∧
        password.value <:+: f.scrubbed.toList) ∧
      ∃ (ans : MysqlAnswers) (a : Attempt) (reason : InitReason DatadirState),
        Generated ans.password.value ∧
          (Task.finish ans.runMysqlInit a).1 = .returned (.failed .finalize reason, none) ∧
          ∀ shown, ∃ d, reason.detail shown = some d ∧ ans.password.value <:+: d := by
  have hhex : sampleSuffix.chars.all isLowerHex = true := by decide
  have hgen : Generated sampleSuffix.chars := ⟨by decide, List.all_eq_true.mp hhex⟩
  constructor
  · have hinit : InitLog.Initial noLog := ⟨rfl, rfl, rfl, fun _ => rfl, fun _ => rfl, rfl⟩
    have hrun : (InitLog.initLog.exec noLog
        (inFlight "0123456789abcdef0123456789abcdef" ⟨sampleSuffix.chars⟩)).any (fun s =>
          decide (s.password = some ⟨sampleSuffix.chars⟩) && s.forwarded.any fun f =>
            f.existed && decide (sampleSuffix.chars <:+: f.scrubbed.toList)) = true := by
      decide
    obtain ⟨s, hs, hleak⟩ := Lts.System.exists_of_exec _ _ (.init hinit) hrun
    rw [Bool.and_eq_true, decide_eq_true_eq, List.any_eq_true] at hleak
    obtain ⟨hpassword, f, hf, hleak⟩ := hleak
    rw [Bool.and_eq_true, decide_eq_true_eq] at hleak
    exact ⟨s, hs, _, hpassword, hgen, f, hf, hleak⟩
  · refine ⟨unmovable, Attempt.start rootDisk,
      .finalize (.notInitialized sampleStaging .notInitialized), hgen, by decide,
      fun shown => ⟨_, rfl, ?_⟩⟩
    have hpath : sampleSuffix.chars <:+: pathText sampleStaging := by decide
    have hquoted : pathText sampleStaging <:+:
        FinalizeReason.text shown (.notInitialized sampleStaging .notInitialized) :=
      (List.infix_append _ _ _).trans List.infix_append_left
    exact hpath.trans hquoted

end OpenVHost.Datadir
