/-
# The tray and the supervisor

The tray's menu, the closures that redraw it on the main thread, the subscriber that
posts them, and the clicks and bulk actions beside it, as a transition system over the
supervisor. A snapshot is taken at one step and drawn at a later one; the closures that
are posted may run in any order. Whether a bulk action holds the lock is read when a
closure runs.

Anybody else may call the supervisor at any time; the control socket's stop-all takes the
same two locks as the tray's bulk actions, and Apply takes one of them.
-/

import OpenVHost.Desktop.Control
import OpenVHost.Proc.Signed
import OpenVHost.Tray.Model

namespace OpenVHost.Tray

open Proc (ServiceId ServiceState ServiceStatus RunId CallId Event Listing)
open Desktop (StopAll Answer)

/-! ### Failure dialogs -/

/-- The title and the body of the dialog. -/
def failureDialogText (displayName : String) (exit : Option Int) (stderrTail : List String) :
    String × String :=
  let exitLine :=
    match exit with
    | some code => "Exit code: " ++ toString code
    | none => "Exit code: unknown (killed by signal, or never launched)"
  let tail :=
    if stderrTail = [] then "(no stderr captured)" else String.intercalate "\n" stderrTail
  (displayName ++ " failed to start", exitLine ++ "\n\n" ++ tail)

/-- The dialog that a transition owes, and the marks that are left. -/
def dialogForTransition (tracked : List ServiceId) (id : ServiceId) (displayName : String) :
    ServiceState → Option (String × String) × List ServiceId
  | .starting => (none, tracked)
  | .failed exit stderrTail =>
      (if id ∈ tracked then some (failureDialogText displayName exit stderrTail) else none,
        tracked.erase id)
  | .running | .stopped => (none, tracked.erase id)

/-! ### Who is doing what -/

/-- Which bulk action. -/
inductive Bulk where
  | startAll
  | stopAll
  /-- The control socket's stop-all, which does not redraw the menu. -/
  | control
  deriving DecidableEq, Repr

/-- A snapshot, and how often what it shows had changed by then. -/
structure Look where
  services : List ServiceStatus
  moment : Nat
  deriving DecidableEq, Repr

/-- What is left of a click or of a bulk action. -/
inductive Job where
  | click (id : ServiceId)
  | mark (id : ServiceId)
  | start (id : ServiceId)
  | stop (id : ServiceId)
  | calling (call : CallId)
  /-- The two locks of `try_acquire_bulk`, one after the other. -/
  | tryBulk (b : Bulk)
  | tryApply (b : Bulk)
  | look (b : Bulk)
  | post (b : Bulk) (look : Look)
  /-- `start_all_with` -/
  | startAll (rest : List ServiceId)
  | startNext (id : ServiceId) (rest : List ServiceId)
  | starting (call : CallId) (rest : List ServiceId)
  | stopAll (b : Bulk) (loop : StopAll)
  | release (b : Bulk)
  | releaseApply (b : Bulk)
  | lookAgain
  | postAgain (look : Look)
  | done
  deriving DecidableEq, Repr

/-- Where the subscriber stands; it is past so many events. -/
inductive Subscriber where
  | recv (rx : Nat)
  /-- The name that a dialog would have is still to be read. -/
  | name (rx : Nat) (id : ServiceId) (state : ServiceState)
  | resolve (rx : Nat) (id : ServiceId) (state : ServiceState) (displayName : String)
  | look (rx : Nat)
  | post (rx : Nat) (look : Look)
  deriving DecidableEq, Repr

/-- The menu and the model that it was last brought to, with the snapshot and the state of
the lock that were drawn. -/
structure Handle where
  menu : TrayModel
  lastModel : TrayModel
  look : Look
  bulk : BulkState
  deriving DecidableEq, Repr

/-- A dialog that was shown, and the event that it was shown for. -/
structure Dialog where
  title : String
  body : String
  event : Nat
  deriving DecidableEq, Repr

structure MenuBar where
  sup : Listing
  /-- How often what the rows show has changed. -/
  moment : Nat
  handle : Option Handle
  subscriber : Option Subscriber
  /-- The closures that are posted to the main thread. -/
  posted : List Look
  bulkLock : Bool
  applyLock : Bool
  /-- Apply has its lock. -/
  applying : Bool
  jobs : Nat → Option Job
  nextJob : Nat
  tracked : List ServiceId
  dialogs : List Dialog
  /-- Of each event, the run whose task or readers broadcast it. -/
  sources : List (Option RunId)
  /-- The `start` calls that the tray has made. -/
  starts : List CallId
  /-- The runs that they have made. -/
  own : List RunId

/-- Whose turn it is. -/
inductive Turn where
  | supervisor (action : Proc.Action)
  | build
  | subscribe
  | subscriber
  /-- A closure that is posted runs. -/
  | main (i : Nat)
  | click (id : ServiceId)
  | bulk (b : Bulk)
  | job (k : Nat) (answer : Answer)
  | lockApply
  | unlockApply

namespace MenuBar

variable (t : MenuBar)

def setJob (k : Nat) (j : Job) : MenuBar := { t with jobs := Function.update t.jobs k (some j) }

def takeLook : Look := ⟨t.sup.snapshot, t.moment⟩

/-- Whether a step makes a run for the tray: it is the block of a `start` that the tray has
called, and there is one run more afterwards. -/
def makes (action : Proc.Action) (sup : Listing) : Bool :=
  match action with
  | .caller k => k ∈ t.starts ∧ sup.world.nextRun ≠ t.sup.world.nextRun
  | _ => false

/-- The supervisor takes a step. -/
def step (action : Proc.Action) : Option MenuBar :=
  (t.sup.next action).map fun sup =>
    { t with
      sup := sup
      moment :=
        if sup.snapshot.map face = t.sup.snapshot.map face then t.moment else t.moment + 1
      sources := Proc.sourcesNext t.sources t.sup.world sup.world action
      own := if t.makes action sup then t.own ++ [t.sup.world.nextRun] else t.own }

/-- Make a call on the supervisor. -/
def call (c : Proc.Call) : Option (MenuBar × CallId) :=
  (t.step (.call c)).map fun t' => (t', t.sup.world.nextCall)

def callStart (id : ServiceId) : Option (MenuBar × CallId) :=
  (t.call (.start id)).map fun r => ({ r.1 with starts := r.1.starts ++ [r.2] }, r.2)

/-- What a call has returned. -/
def returned (k : CallId) : Bool :=
  match t.sup.world.calls k with
  | some (.returned _) => true
  | _ => false

def mark (id : ServiceId) : MenuBar := { t with tracked := id :: t.tracked.erase id }

def probeBulkState : BulkState := if t.bulkLock then .busy else .idle

/-- `refresh_tray_if_built`, up to the main thread. -/
def refreshTrayIfBuilt (look : Look) : MenuBar :=
  match t.handle with
  | none => t
  | some _ => { t with posted := t.posted ++ [look] }

/-- The closure that it posts. -/
def redraw (h : Handle) (look : Look) : MenuBar :=
  let newModel := trayModel look.services t.probeBulkState
  { t with
    handle := some
      { menu := apply h.lastModel newModel h.menu
        lastModel := newModel
        look := look
        bulk := t.probeBulkState } }

/-- The next step of `stop_all`. -/
def stopAllStep (answer : Answer) : StopAll → Option (MenuBar × StopAll)
  | .pending =>
      some (t, .decide ((t.sup.snapshot.filter fun row => isPending row.state).map ServiceStatus.id))
  | .decide [] => some (t, .returned [])
  | .decide still => some (t, if answer = .elapsed then .returned still else .sweep still)
  | .sweep [] => some (t, .sleep)
  | .sweep (id :: rest) => (t.call (.stop id)).map fun r => (r.1, .stopping r.2 rest)
  | .stopping k rest => if t.returned k then some (t, .sweep rest) else none
  | .sleep => some (t, .pending)
  | .returned _ => none

/-- What a click on a row comes to. -/
def clicked (id : ServiceId) : Job :=
  match t.sup.snapshot.find? fun row => row.id = id with
  | none => .done
  | some status =>
      match toggleAction status.id status.state with
      | .start id | .retry id => .mark id
      | .stop id => .stop id
      | .none => .done

/-- The next step of a click or of a bulk action. -/
def jobStep (answer : Answer) : Job → Option (MenuBar × Job)
  | .click id => some (t, t.clicked id)
  | .mark id => some (t.mark id, .start id)
  | .start id => (t.callStart id).map fun r => (r.1, .calling r.2)
  | .stop id => (t.call (.stop id)).map fun r => (r.1, .calling r.2)
  | .calling k => if t.returned k then some (t, .done) else none
  | .tryBulk b =>
      some (if t.bulkLock then (t, .done) else ({ t with bulkLock := true }, .tryApply b))
  | .tryApply b =>
      some (if t.applyLock then ({ t with bulkLock := false }, .done)
        else ({ t with applyLock := true },
          match b with
          | .startAll | .stopAll => .look b
          | .control => .stopAll .control .pending))
  | .look b => some (t, .post b t.takeLook)
  | .post b look =>
      some (t.refreshTrayIfBuilt look,
        match b with
        | .startAll => .startAll (bulkStartIds look.services)
        | .stopAll | .control => .stopAll b .pending)
  | .startAll [] => some (t, .release .startAll)
  | .startAll (id :: rest) => some (t.mark id, .startNext id rest)
  | .startNext id rest => (t.callStart id).map fun r => (r.1, .starting r.2 rest)
  | .starting k rest => if t.returned k then some (t, .startAll rest) else none
  | .stopAll b (.returned _) => some (t, .release b)
  | .stopAll b loop => (t.stopAllStep answer loop).map fun r => (r.1, .stopAll b r.2)
  | .release b => some ({ t with bulkLock := false }, .releaseApply b)
  | .releaseApply b =>
      some ({ t with applyLock := false },
        match b with
        | .startAll | .stopAll => .lookAgain
        | .control => .done)
  | .lookAgain => some (t, .postAgain t.takeLook)
  | .postAgain look => some (t.refreshTrayIfBuilt look, .done)
  | .done => none

/-- What the subscriber makes of an event. -/
def onEvent (rx : Nat) : Event → Subscriber
  | .stateChanged id state _ => .name rx id state
  | .registered _ | .unregistered _ => .look rx
  | .log _ _ => .recv rx

def displayName (id : ServiceId) : String :=
  ((t.sup.snapshot.find? fun row => row.id = id).map ServiceStatus.displayName).getD id

/-- `dialog_for_transition`, and the dialog. -/
def resolve (n : Nat) (id : ServiceId) (state : ServiceState) (name : String) : MenuBar :=
  let (dialog, tracked) := dialogForTransition t.tracked id name state
  { t with
    tracked := tracked
    dialogs := t.dialogs ++ (dialog.map fun text => ⟨text.1, text.2, n⟩).toList }

/-- The next step of the subscriber. -/
def subscriberStep : Subscriber → Option (MenuBar × Subscriber)
  | .recv rx =>
      match Desktop.recv t.sup.world.events rx with
      | .event event rx => some (t, onEvent rx event)
      | .lagged rx => some (t, .look rx)
      | .empty => none
  | .name rx id state => some (t, .resolve rx id state (t.displayName id))
  | .resolve rx id state name => some (t.resolve (rx - 1) id state name, .look rx)
  | .look rx => some (t, .post rx t.takeLook)
  | .post rx look => some (t.refreshTrayIfBuilt look, .recv rx)

/-- A new click or bulk action. -/
def addJob (j : Job) : MenuBar := { t with nextJob := t.nextJob + 1 }.setJob t.nextJob j

def next : Turn → Option MenuBar
  | .supervisor action => t.step action
  | .build =>
      match t.handle with
      | none =>
          let initial := trayModel t.sup.snapshot .idle
          some { t with handle := some ⟨initial, initial, t.takeLook, .idle⟩ }
      | some _ => none
  | .subscribe =>
      match t.handle, t.subscriber with
      | some _, none => some { t with subscriber := some (.recv t.sup.world.events.length) }
      | _, _ => none
  | .subscriber => do
      let s ← t.subscriber
      let (t', s') ← t.subscriberStep s
      some { t' with subscriber := some s' }
  | .main i => do
      let look ← t.posted[i]?
      let h ← t.handle
      some ({ t with posted := t.posted.eraseIdx i }.redraw h look)
  -- the main thread takes clicks once it has left `build`
  | .click id => if t.subscriber.isSome then some (t.addJob (.click id)) else none
  | .bulk b => if b = .control ∨ t.subscriber.isSome then some (t.addJob (.tryBulk b)) else none
  | .job k answer => do
      let j ← t.jobs k
      let (t', j') ← t.jobStep answer j
      some (t'.setJob k j')
  | .lockApply => if t.applyLock then none else some { t with applyLock := true, applying := true }
  | .unlockApply => if t.applying then some { t with applyLock := false, applying := false } else none

/-- The tray is built over a supervisor without services, or later on. -/
structure Initial : Prop where
  world : t.sup.world.Initial
  ids : t.sup.ids = []
  handle : t.handle = none
  subscriber : t.subscriber = none
  posted : t.posted = []
  bulkLock : t.bulkLock = false
  jobs : ∀ k, t.jobs k = none
  tracked : t.tracked = []
  dialogs : t.dialogs = []
  sources : t.sources = []
  starts : t.starts = []
  own : t.own = []

end MenuBar

/-! ### What a job's step does -/

/-- The service that a job has marked, if its `start` is still to be called. -/
def Job.awaits : Job → Option ServiceId
  | .start id | .startNext id _ => some id
  | _ => none

/-- What a step of a job does beside its closures and its locks. -/
inductive JobMove (t : MenuBar) : Job → MenuBar → Job → Prop where
  | own {j j' : Job} (posted : List Look) (bulkLock applyLock : Bool) (hj : j.awaits = none)
      (hj' : j'.awaits = none) :
      JobMove t j { t with posted := posted, bulkLock := bulkLock, applyLock := applyLock } j'
  | mark {j j' : Job} (id : ServiceId) (hj : j.awaits = none) (hj' : j'.awaits = some id) :
      JobMove t j (t.mark id) j'
  | stop {j j' : Job} (id : ServiceId) {p : MenuBar × CallId} (hcall : t.call (.stop id) = some p)
      (hj : j.awaits = none) (hj' : j'.awaits = none) : JobMove t j p.1 j'
  | start {j j' : Job} (id : ServiceId) {p : MenuBar × CallId} (hcall : t.callStart id = some p)
      (hj : j.awaits = some id) (hj' : j'.awaits = none) : JobMove t j p.1 j'

section JobMove

variable {t : MenuBar} {j : Job} {answer : Answer}

theorem refresh_move {j' : Job} (look : Look) (hj : j.awaits = none) (hj' : j'.awaits = none) :
    JobMove t j (t.refreshTrayIfBuilt look) j' := by
  unfold MenuBar.refreshTrayIfBuilt
  split
  · exact .own t.posted t.bulkLock t.applyLock hj hj'
  · exact .own _ t.bulkLock t.applyLock hj hj'

theorem stopAllStep_move {j' : Job} {loop : StopAll} {p : MenuBar × StopAll}
    (h : t.stopAllStep answer loop = some p) (hj : j.awaits = none) (hj' : j'.awaits = none) :
    JobMove t j p.1 j' := by
  unfold MenuBar.stopAllStep at h
  split at h
  case h_5 id rest =>
    obtain ⟨p₁, hcall, rfl⟩ := Option.map_eq_some_iff.mp h
    exact .stop id hcall hj hj'
  case h_6 =>
    rw [Option.ite_none_right_eq_some] at h
    obtain ⟨-, h⟩ := h
    cases h
    exact .own t.posted t.bulkLock t.applyLock hj hj'
  case h_8 => cases h
  all_goals
    cases h
    exact .own t.posted t.bulkLock t.applyLock hj hj'

theorem awaits_clicked (id : ServiceId) : (t.clicked id).awaits = none := by
  unfold MenuBar.clicked
  split
  · rfl
  · split <;> rfl

/-- **What a job's step does.** -/
theorem jobStep_cases {p : MenuBar × Job} (h : t.jobStep answer j = some p) : JobMove t j p.1 p.2 := by
  have hown : ∀ {j' : Job}, j.awaits = none → j'.awaits = none → JobMove t j t j' := fun hj hj' =>
    .own t.posted t.bulkLock t.applyLock hj hj'
  cases j with
  | click id =>
      cases h
      exact hown rfl (awaits_clicked id)
  | mark id =>
      cases h
      exact .mark id rfl rfl
  | start id =>
      rw [MenuBar.jobStep] at h
      obtain ⟨p₁, hcall, rfl⟩ := Option.map_eq_some_iff.mp h
      exact .start id hcall rfl rfl
  | stop id =>
      rw [MenuBar.jobStep] at h
      obtain ⟨p₁, hcall, rfl⟩ := Option.map_eq_some_iff.mp h
      exact .stop id hcall rfl rfl
  | calling c | starting c rest =>
      simp only [MenuBar.jobStep, Option.ite_none_right_eq_some, Option.some.injEq] at h
      obtain ⟨-, rfl⟩ := h
      exact hown rfl rfl
  | tryBulk b =>
      cases h
      split
      · exact hown rfl rfl
      · exact .own t.posted true t.applyLock rfl rfl
  | tryApply b =>
      cases h
      split
      · exact .own t.posted false t.applyLock rfl rfl
      · cases b <;> exact .own t.posted t.bulkLock true rfl rfl
  | look b | lookAgain =>
      cases h
      exact hown rfl rfl
  | post b look =>
      cases h
      cases b <;> exact refresh_move look rfl rfl
  | startAll rest =>
      cases rest with
      | nil =>
          cases h
          exact hown rfl rfl
      | cons id rest =>
          cases h
          exact .mark id rfl rfl
  | startNext id rest =>
      rw [MenuBar.jobStep] at h
      obtain ⟨p₁, hcall, rfl⟩ := Option.map_eq_some_iff.mp h
      exact .start id hcall rfl rfl
  | stopAll b loop =>
      cases loop with
      | returned stragglers =>
          cases h
          exact hown rfl rfl
      | pending | decide | sweep | stopping | sleep =>
          unfold MenuBar.jobStep at h
          obtain ⟨p₁, hstep, rfl⟩ := Option.map_eq_some_iff.mp h
          exact stopAllStep_move hstep rfl rfl
  | release b =>
      cases h
      exact .own t.posted false t.applyLock rfl rfl
  | releaseApply b =>
      cases h
      cases b <;> exact .own t.posted t.bulkLock false rfl rfl
  | postAgain look =>
      cases h
      exact refresh_move look rfl rfl
  | done => cases h

end JobMove

/-- The tray as a system: any number of clicks and bulk actions, in any order with the
subscriber, the main thread and everybody who calls the supervisor. -/
def tray : Lts.System MenuBar Turn where
  init := MenuBar.Initial
  next := MenuBar.next

end OpenVHost.Tray
