/-
# Applying a configuration

`apply_config` writes the configuration under the apply lock; then it stops those of its services
that are running, waits until they have stopped, and starts them again. Other applies wait for the
lock, menu-bar and command-line bulk actions take it in between, and all the time other callers
start, stop, register and unregister services, which also end on their own. A child reads what is
written when it is spawned.

* `system` — the supervisor with any number of applies.
* `apply_outcome` — what an outcome says of the services: which it names, which of them run on
  the new configuration, and which may still run on an older one.
* `one_apply` — there is one apply at a time, and nobody else writes before it returns.
* `not_started_runs_on` — a service that was starting keeps the old configuration, and is
  reported as not started.
-/

import OpenVHost.Lts.System
import OpenVHost.Proc.Listing
import OpenVHost.Proc.Served
import OpenVHost.Proc.Stop

namespace OpenVHost.Desktop.Apply

open Proc (CallId Listing ProcError RunId ServiceId ServiceStatus)

abbrev JobId := Nat

/-! ### The command -/

/-- `ServiceProblemDto` -/
structure ServiceProblem where
  id : ServiceId
  reason : String
  deriving DecidableEq, Repr

/-- `ApplyOutcomeDto` -/
structure Outcome where
  applied : Nat
  restarted : List ServiceId
  notStarted : List ServiceId
  needsAttention : List ServiceProblem
  deriving DecidableEq, Repr

/-- The services that the configuration is for: php-fpm before nginx. -/
def serviceIds (majors : List String) : List ServiceId :=
  (majors.map fun major => "php-fpm-" ++ major) ++ ["nginx"]

/-- An apply that has written its files. -/
structure Written where
  applied : Nat
  ids : List ServiceId
  /-- Its place among the writes of the configuration. -/
  version : Nat
  /-- The runs that there were by then. -/
  before : RunId → Bool

/-- An apply that has also looked at the services. -/
structure Seen extends Written where
  snapshot : List ServiceStatus

def Seen.running (a : Seen) : List ServiceId :=
  a.ids.filter fun id => a.snapshot.any fun s => s.id == id && s.state == .running

def Seen.notStarted (a : Seen) : List ServiceId := a.ids.filter fun id => id ∉ a.running

/-- The services of `watched` that are not terminal. -/
def pending (watched : List ServiceId) (snapshot : List ServiceStatus) : List ServiceId :=
  ((snapshot.filter fun s => watched.contains s.id).filter fun s => s.state.live).map ServiceStatus.id

/-- 10 s, in milliseconds. -/
def stopTimeout : Nat := 10 * 1000

/-- What `restart_outcome` has come to. -/
structure Restarts where
  restarted : List ServiceId
  needsAttention : List ServiceProblem
  deriving DecidableEq, Repr

def Restarts.none : Restarts := ⟨[], []⟩

def straggler (id : ServiceId) : ServiceProblem :=
  ⟨id, "did not stop within 10s, so it was left alone — stop it and start it again to pick up " ++
    "the new config"⟩

def errorText : ProcError → String
  | .notFound id => "unknown service '" ++ id ++ "'"
  | .notTerminal id state =>
      "service '" ++ id ++ "' is " ++ state ++ "; it must be stopped before it can be removed"

def notStartedAgain (id : ServiceId) (e : ProcError) : ServiceProblem :=
  ⟨id, "stopped, but could not be started again: " ++ errorText e⟩

/-- What the answer of `start` adds. -/
def Restarts.add (r : Restarts) (id : ServiceId) : Except ProcError Unit → Restarts
  | .ok () => { r with restarted := r.restarted ++ [id] }
  | .error e => { r with needsAttention := r.needsAttention ++ [notStartedAgain id e] }

def Restarts.leave (r : Restarts) (id : ServiceId) : Restarts :=
  { r with needsAttention := r.needsAttention ++ [straggler id] }

/-- How far an apply is. -/
inductive Phase where
  /-- Before the lock. -/
  | waiting
  | planning
  | committing (majors : List String)
  | looking (a : Written)
  /-- In `stop_all_with`: before an observation, after one that shows somebody, between two calls
  of `stop`, and in one. -/
  | observing (a : Seen)
  | judging (a : Seen) (still : List ServiceId)
  | stopping (a : Seen) (todo : List ServiceId)
  | stopCall (a : Seen) (call : CallId) (todo : List ServiceId)
  /-- In `restart_outcome`: between two calls of `start`, and in one. -/
  | restarting (a : Seen) (stragglers todo : List ServiceId) (r : Restarts)
  | startCall (a : Seen) (stragglers : List ServiceId) (call : CallId) (id : ServiceId)
      (todo : List ServiceId) (r : Restarts)
  | failed (message : String)
  | unchanged
  | finished (a : Seen) (o : Outcome)

/-- Whether an apply holds the lock. -/
def Phase.inside : Phase → Bool
  | waiting | failed _ | unchanged | finished _ _ => false
  | _ => true

/-- What the outside answers an apply. -/
inductive Answer where
  | go
  /-- An error on the way, up to the commit. -/
  | refused (message : String)
  /-- The plan has no changes, or it is for the PHP versions of these majors. -/
  | unchanged
  | changes (majors : List String)
  /-- The commit went through, with so many changes. -/
  | applied (changes : Nat)
  /-- The time since `stop_all_with` was called. -/
  | elapsed (ms : Nat)

inductive Holder where
  | apply (k : JobId)
  | bulk
  deriving DecidableEq, Repr

structure State where
  sup : Listing
  lock : Option Holder
  jobs : JobId → Phase
  /-- How often the configuration was written, also where it was put back. -/
  version : Nat
  /-- What each run's child could read when it was spawned. -/
  read : RunId → Option Nat

inductive Action where
  /-- A step of the supervisor, of its services or of another caller. -/
  | supervisor (a : Proc.Action)
  /-- A bulk action takes the lock, or lets go of it. -/
  | bulkTake
  | bulkGive
  | job (k : JobId) (answer : Answer)

/-- The run whose child is spawned. -/
def spawned : Proc.Action → Option RunId
  | .task r (.spawned _) => some r
  | _ => none

namespace State

def release (s : State) : State := { s with lock := none }

def write (s : State) : State := { s with version := s.version + 1 }

def setPhase (s : State) (k : JobId) (phase : Phase) : State :=
  { s with jobs := fun j => if j = k then phase else s.jobs j }

/-- A step of the supervisor. -/
def supervise (s : State) (a : Proc.Action) : Option State :=
  (s.sup.next a).map fun sup =>
    { s with
      sup := sup
      read := match spawned a with
        | some r => Function.update s.read r (some s.version)
        | none => s.read }

/-- An apply calls the supervisor. -/
def calls (s : State) (c : Proc.Call) (phase : CallId → Phase) : Option (State × Phase) :=
  (s.supervise (.call c)).map fun s' => (s', phase s.sup.world.nextCall)

/-- The next step of an apply, and how far it is then. -/
def stepJob (s : State) (k : JobId) : Phase → Answer → Option (State × Phase)
  | .waiting, .refused message => some (s, .failed message)
  | .waiting, .go =>
      if s.lock = none then some ({ s with lock := some (.apply k) }, .planning) else none
  | .planning, .refused message => some (s.release, .failed message)
  | .planning, .unchanged => some (s.release, .unchanged)
  | .planning, .changes majors => some (s, .committing majors)
  | .committing _, .refused message => some (s.write.release, .failed message)
  | .committing majors, .applied changes =>
      some (s.write, .looking
        ⟨min changes (2 ^ 32 - 1), serviceIds majors, s.version + 1,
          fun r => (s.sup.world.runs r).isSome⟩)
  | .looking a, .go => some (s, .observing ⟨a, s.sup.snapshot⟩)
  | .observing a, .go =>
      match pending a.running s.sup.snapshot with
      | [] => some (s, .restarting a [] a.running Restarts.none)
      | still@(_ :: _) => some (s, .judging a still)
  | .judging a still, .elapsed ms =>
      if stopTimeout ≤ ms then some (s, .restarting a still a.running Restarts.none)
      else some (s, .stopping a still)
  | .stopping a [], .go => some (s, .observing a)
  | .stopping a (id :: todo), .go => s.calls (.stop id) fun call => .stopCall a call todo
  | .stopCall a call todo, .go =>
      match s.sup.world.calls call with
      | some (.returned _) => some (s, .stopping a todo)
      | _ => none
  | .restarting a _ [] r, .go =>
      some (s.release, .finished a ⟨a.applied, r.restarted, a.notStarted, r.needsAttention⟩)
  | .restarting a stragglers (id :: todo) r, .go =>
      if id ∈ stragglers then some (s, .restarting a stragglers todo (r.leave id))
      else s.calls (.start id) fun call => .startCall a stragglers call id todo r
  | .startCall a stragglers call id todo r, .go =>
      match s.sup.world.calls call with
      | some (.returned result) => some (s, .restarting a stragglers todo (r.add id result))
      | _ => none
  | _, _ => none

def next (s : State) : Action → Option State
  | .supervisor a => s.supervise a
  | .bulkTake => if s.lock = none then some { s with lock := some .bulk } else none
  | .bulkGive => if s.lock = some .bulk then some s.release else none
  | .job k answer => (s.stepJob k (s.jobs k) answer).map fun r => r.1.setPhase k r.2

structure Initial (s : State) : Prop where
  world : s.sup.world.Initial
  ids : s.sup.ids = []
  lock : s.lock = none
  jobs : ∀ k, s.jobs k = .waiting
  read : ∀ r, s.read r = none

end State

/-- The supervisor with any number of applies, each of which may come at any time. -/
def system : Lts.System State Action := ⟨State.Initial, State.next⟩

/-! ### What a step of an apply does -/

/-- The steps of apply `k`. -/
inductive Moves (s : State) (k : JobId) : Phase → State → Phase → Prop where
  | refuse (message : String) : Moves s k .waiting s (.failed message)
  | lock (h : s.lock = none) : Moves s k .waiting { s with lock := some (.apply k) } .planning
  | fail (message : String) : Moves s k .planning s.release (.failed message)
  | unchanged : Moves s k .planning s.release .unchanged
  | plan (majors : List String) : Moves s k .planning s (.committing majors)
  | rollBack (majors : List String) (message : String) :
      Moves s k (.committing majors) s.write.release (.failed message)
  | commit (majors : List String) (changes : Nat) :
      Moves s k (.committing majors) s.write (.looking
        ⟨changes, serviceIds majors, s.version + 1, fun r => (s.sup.world.runs r).isSome⟩)
  | look (a : Written) : Moves s k (.looking a) s (.observing ⟨a, s.sup.snapshot⟩)
  | observe (a : Seen) :
      Moves s k (.observing a) s (.judging a (pending a.running s.sup.snapshot))
  | goOn (a : Seen) (still : List ServiceId) : Moves s k (.judging a still) s (.stopping a still)
  | sleep (a : Seen) : Moves s k (.stopping a []) s (.observing a)
  | callStop {s₁ : State} (a : Seen) (id : ServiceId) (call : CallId) (todo : List ServiceId)
      (h : s.supervise (.call (.stop id)) = some s₁) :
      Moves s k (.stopping a (id :: todo)) s₁ (.stopCall a call todo)
  | stopped (a : Seen) (call : CallId) (todo : List ServiceId) :
      Moves s k (.stopCall a call todo) s (.stopping a todo)
  /-- The wait is over, with those that the last observation shows. -/
  | waited {phase : Phase} (a : Seen) (still : List ServiceId)
      (h : phase = .observing a ∧ still = pending a.running s.sup.snapshot ∨
        phase = .judging a still) :
      Moves s k phase s (.restarting a still a.running Restarts.none)
  | leave (a : Seen) (stragglers : List ServiceId) (id : ServiceId) (todo : List ServiceId)
      (r : Restarts) (h : id ∈ stragglers) :
      Moves s k (.restarting a stragglers (id :: todo) r) s
        (.restarting a stragglers todo (r.leave id))
  | callStart {s₁ : State} (a : Seen) (stragglers : List ServiceId) (id : ServiceId)
      (todo : List ServiceId) (r : Restarts) (hid : id ∉ stragglers)
      (h : s.supervise (.call (.start id)) = some s₁) :
      Moves s k (.restarting a stragglers (id :: todo) r) s₁
        (.startCall a stragglers s.sup.world.nextCall id todo r)
  | started (a : Seen) (stragglers : List ServiceId) (call : CallId) (id : ServiceId)
      (todo : List ServiceId) (r : Restarts) (result : Except ProcError Unit)
      (h : s.sup.world.calls call = some (.returned result)) :
      Moves s k (.startCall a stragglers call id todo r) s
        (.restarting a stragglers todo (r.add id result))
  | finish (a : Seen) (stragglers : List ServiceId) (r : Restarts) :
      Moves s k (.restarting a stragglers [] r) s.release
        (.finished a ⟨a.applied, r.restarted, a.notStarted, r.needsAttention⟩)

section Moves

variable {s s₁ : State} {k : JobId} {phase phase' : Phase} {answer : Answer}

theorem supervise_of_calls {c : Proc.Call} {next : CallId → Phase}
    (h : s.calls c next = some (s₁, phase')) :
    s.supervise (.call c) = some s₁ ∧ phase' = next s.sup.world.nextCall := by
  obtain ⟨s₂, hs₂, heq⟩ := Option.map_eq_some_iff.mp h
  cases heq
  exact ⟨hs₂, rfl⟩

theorem moves_of_stepJob (h : s.stepJob k phase answer = some (s₁, phase')) :
    Moves s k phase s₁ phase' := by
  unfold State.stepJob at h
  split at h
  case h_1 =>
    cases h
    exact .refuse _
  case h_2 =>
    split at h
    next hfree =>
      cases h
      exact .lock hfree
    next => cases h
  case h_3 =>
    cases h
    exact .fail _
  case h_4 =>
    cases h
    exact .unchanged
  case h_5 =>
    cases h
    exact .plan _
  case h_6 =>
    cases h
    exact .rollBack _ _
  case h_7 =>
    cases h
    exact .commit _ _
  case h_8 =>
    cases h
    exact .look _
  case h_9 =>
    split at h
    next hnobody =>
      cases h
      exact .waited _ _ (.inl ⟨rfl, hnobody.symm⟩)
    next hstill =>
      cases h
      rw [← hstill]
      exact .observe _
  case h_10 =>
    split at h
    next =>
      cases h
      exact .waited _ _ (.inr rfl)
    next =>
      cases h
      exact .goOn _ _
  case h_11 =>
    cases h
    exact .sleep _
  case h_12 =>
    obtain ⟨hs₁, rfl⟩ := supervise_of_calls h
    exact .callStop _ _ _ _ hs₁
  case h_13 =>
    split at h
    next =>
      cases h
      exact .stopped _ _ _
    next => cases h
  case h_14 =>
    cases h
    exact .finish _ _ _
  case h_15 =>
    split at h
    next hstraggler =>
      cases h
      exact .leave _ _ _ _ _ hstraggler
    next hid =>
      obtain ⟨hs₁, rfl⟩ := supervise_of_calls h
      exact .callStart _ _ _ _ _ hid hs₁
  case h_16 =>
    split at h
    next hreturned =>
      cases h
      exact .started _ _ _ _ _ _ _ hreturned
    next => cases h
  case h_17 => cases h

end Moves

/-! ### What an apply can rely on -/

open Proc (World)

/-- Nobody serves the service since before the files were written. -/
def Written.Renewed (a : Written) (w : World) (id : ServiceId) : Prop :=
  ∀ r, w.Serves id r → a.before r = false

/-- A run of the service was made since then. -/
def Written.Begun (a : Written) (w : World) (id : ServiceId) : Prop :=
  ∃ r run, w.runs r = some run ∧ run.id = id ∧ a.before r = false

structure Written.Fits (a : Written) (s : State) : Prop where
  version : a.version ≤ s.version
  before : ∀ r, a.before r = true → (s.sup.world.runs r).isSome = true
  read : ∀ r version, a.before r = false → s.read r = some version → a.version ≤ version

/-- The service was starting when the apply looked. -/
def Seen.Starting (a : Seen) (id : ServiceId) : Prop :=
  ∃ row ∈ a.snapshot, row.id = id ∧ row.state = .starting

structure Seen.Fits (a : Seen) (s : State) : Prop where
  written : a.toWritten.Fits s
  seen : ∀ id ∈ a.ids, id ∈ a.running ∨ a.Renewed s.sup.world id ∨ a.Starting id

/-- What holds in the middle of `restart_outcome`. -/
structure Restarts.Fits (a : Seen) (stragglers todo : List ServiceId) (r : Restarts) (s : State) :
    Prop where
  seen : a.Fits s
  stopped : ∀ id ∈ a.running, id ∉ stragglers → a.Renewed s.sup.world id
  restarted : ∀ id ∈ r.restarted, a.Begun s.sup.world id ∧ a.Renewed s.sup.world id
  named : (r.restarted ++ r.needsAttention.map ServiceProblem.id ++ todo).Perm a.running

/-- What holds of an apply. -/
def Phase.Fits (s : State) : Phase → Prop
  | waiting | planning | committing _ | failed _ | unchanged => True
  | looking a => a.Fits s
  | observing a | stopping a _ | stopCall a _ _ => a.Fits s
  | judging a still => a.Fits s ∧ ∀ id ∈ a.running, id ∉ still → a.Renewed s.sup.world id
  | restarting a stragglers todo r => r.Fits a stragglers todo s
  | startCall a stragglers call id todo r =>
      r.Fits a stragglers (id :: todo) s ∧ id ∉ stragglers ∧ call < s.sup.world.nextCall ∧
        Proc.Begins s.sup.world call id fun r => a.before r = false
  | finished a o =>
      (∃ stragglers, Restarts.Fits a stragglers [] ⟨o.restarted, o.needsAttention⟩ s) ∧
        o.notStarted = a.notStarted

/-- The commit of an apply that has not returned. -/
def Phase.written : Phase → Option Written
  | looking a => some a
  | observing a | judging a _ | stopping a _ | stopCall a _ _ => some a.toWritten
  | restarting a _ _ _ | startCall a _ _ _ _ _ => some a.toWritten
  | _ => none

/-- A later state, for those who only look. -/
structure Later (s s' : State) : Prop where
  version : s.version ≤ s'.version
  aged : Proc.Aged s.sup.world s'.sup.world
  nextCall : s.sup.world.nextCall ≤ s'.sup.world.nextCall
  read : ∀ r version, s'.read r = some version → s.read r = some version ∨ s.version ≤ version
  begins : ∀ {call id} {good : RunId → Prop}, call < s.sup.world.nextCall →
    Proc.Begins s.sup.world call id good → (∀ r, s.sup.world.Serves id r → good r) →
      (∀ r, s.sup.world.runs r = none → good r) → Proc.Begins s'.sup.world call id good

section Later

variable {s s' : State} {a : Written} {b : Seen} {id : ServiceId}

/-- What serves a service served it before, or is new. -/
theorem serves_before {w w' : World} (h : Proc.Aged w w') {r : RunId} (hs : w'.Serves id r) :
    w.Serves id r ∨ w.runs r = none := by
  obtain ⟨run', hr', hid, hend⟩ := hs
  cases hr : w.runs r with
  | none => exact .inr rfl
  | some run =>
      obtain ⟨run'', hr'', ho⟩ := h.kept r run hr
      rw [hr', Option.some.injEq] at hr''
      subst hr''
      refine .inl ⟨run, hr, ho.id.symm.trans hid, ?_⟩
      by_contra hended
      rw [ho.ended (by simpa using hended)] at hend
      cases hend

/-- A run that is not there was made later. -/
theorem Written.Fits.fresh (h : a.Fits s) {r : RunId} (hr : s.sup.world.runs r = none) :
    a.before r = false := by
  by_contra hbefore
  have hsome := h.before r (by simpa using hbefore)
  rw [hr] at hsome
  cases hsome

theorem Written.Fits.later (h : a.Fits s) (hl : Later s s') : a.Fits s' := by
  constructor
  · exact h.version.trans hl.version
  · intro r hr
    obtain ⟨run, hrun⟩ := Option.isSome_iff_exists.mp (h.before r hr)
    obtain ⟨run', hrun', -⟩ := hl.aged.kept r run hrun
    rw [hrun']
    rfl
  · intro r version hr hread
    rcases hl.read r version hread with hold | hnew
    · exact h.read r version hr hold
    · exact h.version.trans hnew

theorem Written.Renewed.later (hr : a.Renewed s.sup.world id) (h : a.Fits s) (hl : Later s s') :
    a.Renewed s'.sup.world id := by
  intro r hserves
  rcases serves_before hl.aged hserves with hold | hnew
  · exact hr r hold
  · exact h.fresh hnew

theorem Written.Begun.later (hb : a.Begun s.sup.world id) (hl : Later s s') :
    a.Begun s'.sup.world id := by
  obtain ⟨r, run, hr, hid, hbefore⟩ := hb
  obtain ⟨run', hr', ho⟩ := hl.aged.kept r run hr
  exact ⟨r, run', hr', ho.id.trans hid, hbefore⟩

theorem Seen.Fits.later (h : b.Fits s) (hl : Later s s') : b.Fits s' := by
  constructor
  · exact h.written.later hl
  · intro id hid
    rcases h.seen id hid with hrunning | hrenewed | hstarting
    · exact .inl hrunning
    · exact .inr (.inl (hrenewed.later h.written hl))
    · exact .inr (.inr hstarting)

theorem Restarts.Fits.later {stragglers todo : List ServiceId} {r : Restarts}
    (h : r.Fits b stragglers todo s) (hl : Later s s') : r.Fits b stragglers todo s' where
  seen := h.seen.later hl
  stopped id hid hnot := (h.stopped id hid hnot).later h.seen.written hl
  restarted id hid :=
    ⟨(h.restarted id hid).1.later hl, (h.restarted id hid).2.later h.seen.written hl⟩
  named := h.named

theorem Phase.Fits.later {phase : Phase} (h : phase.Fits s) (hl : Later s s') : phase.Fits s' := by
  cases phase with
  | waiting | planning | committing | failed | unchanged => trivial
  | looking => exact Written.Fits.later h hl
  | observing | stopping | stopCall => exact Seen.Fits.later h hl
  | judging a still =>
      obtain ⟨hfits, hstill⟩ := h
      exact ⟨hfits.later hl, fun id hid hnot => (hstill id hid hnot).later hfits.written hl⟩
  | restarting => exact Restarts.Fits.later h hl
  | startCall a stragglers call id todo r =>
      obtain ⟨hfits, hid, hcall, hbegins⟩ := h
      refine ⟨hfits.later hl, hid, hcall.trans_le hl.nextCall, ?_⟩
      apply hl.begins hcall hbegins
      · apply hfits.stopped id _ hid
        exact hfits.named.subset (List.mem_append_right _ List.mem_cons_self)
      · intro r hr
        exact hfits.seen.written.fresh hr
  | finished a o =>
      obtain ⟨⟨stragglers, hfits⟩, hnot⟩ := h
      exact ⟨⟨stragglers, hfits.later hl⟩, hnot⟩

/-- A step that leaves the supervisor alone. -/
theorem Later.same (hsup : s'.sup = s.sup) (hread : s'.read = s.read)
    (hversion : s.version ≤ s'.version) : Later s s' where
  version := hversion
  aged := .of_eq (by rw [hsup])
  nextCall := by rw [hsup]
  read r version h := .inl (hread ▸ h)
  begins _ hb _ _ := hsup ▸ hb

end Later

/-! ### Every run -/

/-- What holds of every state. -/
structure Sound (s : State) : Prop where
  world : Proc.supervisor.Reachable s.sup.world
  listing : s.sup.Sound
  read : ∀ r, (s.read r).isSome = true → (s.sup.world.runs r).isSome = true
  lock : ∀ k, (s.jobs k).inside = true → s.lock = some (.apply k)
  own : ∀ k a, (s.jobs k).written = some a → a.version = s.version
  fits : ∀ k, (s.jobs k).Fits s

section Sound

variable {s s' s₁ : State} {k : JobId} {phase' : Phase} {id : ServiceId}

/-- A step of the supervisor: nothing else changes. -/
structure Supervised (s s' : State) : Prop where
  later : Later s s'
  world : Proc.supervisor.Reachable s'.sup.world
  listing : s'.sup.Sound
  read : ∀ r, (s'.read r).isSome = true → (s'.sup.world.runs r).isSome = true
  jobs : s'.jobs = s.jobs
  lock : s'.lock = s.lock
  version : s'.version = s.version

theorem Sound.supervised (hs : Sound s) {a : Proc.Action} (h : s.supervise a = some s') :
    Supervised s s' := by
  obtain ⟨sup, hsup, rfl⟩ := Option.map_eq_some_iff.mp h
  have hnext := Listing.next_world hsup
  have hsound := Proc.sound_of_reachable hs.world
  have hserved := Proc.served_of_reachable hs.world
  have haged := Proc.aged_next hsound hnext
  have hread : ∀ r, ∀ version, (match spawned a with
        | some r => Function.update s.read r (some s.version)
        | none => s.read) r = some version →
      s.read r = some version ∨ spawned a = some r ∧ version = s.version := by
    intro r version hr
    cases hspawned : spawned a with
    | none =>
        rw [hspawned] at hr
        exact .inl hr
    | some r₁ =>
        rw [hspawned] at hr
        by_cases heq : r = r₁
        · subst heq
          exact .inr ⟨rfl, (Option.some.inj ((Function.update_self r _ _).symm.trans hr)).symm⟩
        · exact .inl ((Function.update_of_ne heq _ _).symm.trans hr)
  refine ⟨⟨Nat.le_refl _, haged, Proc.nextCall_le hnext, ?_, ?_⟩, .step hs.world trivial hnext,
    Listing.sound_next hs.listing hsup, ?_, rfl, rfl, rfl⟩
  · intro r version hr
    rcases hread r version hr with hold | ⟨-, rfl⟩
    · exact .inl hold
    · exact .inr (Nat.le_refl _)
  · intro call id good hcall hb hserves hnew
    exact Proc.begins_next hsound hserved hcall hb hserves
      (hnew _ (hsound.fresh _ (Nat.le_refl _))) hnext
  · intro r hr
    obtain ⟨version, hversion⟩ := Option.isSome_iff_exists.mp hr
    have hthere : (s.sup.world.runs r).isSome = true := by
      rcases hread r version hversion with hold | ⟨hspawned, -⟩
      · exact hs.read r (by rw [hold]; rfl)
      · -- the run whose child is spawned is there
        unfold spawned at hspawned
        split at hspawned
        next r₁ pid =>
          cases hspawned
          obtain ⟨run, hrun, -⟩ := Option.bind_eq_some_iff.mp hnext
          rw [hrun]
          rfl
        next => cases hspawned
    obtain ⟨run, hrun⟩ := Option.isSome_iff_exists.mp hthere
    obtain ⟨run', hrun', -⟩ := haged.kept r run hrun
    show (sup.world.runs r).isSome = true
    rw [hrun']
    rfl

theorem call_made {c : Proc.Call} (hc : c.isNew = true) (h : s.supervise (.call c) = some s') :
    s'.sup.world.calls s.sup.world.nextCall = some c ∧
      s.sup.world.nextCall < s'.sup.world.nextCall := by
  obtain ⟨sup, hsup, rfl⟩ := Option.map_eq_some_iff.mp h
  have hnext : s.sup.world.next (.call c) = some sup.world := Listing.next_world hsup
  rw [World.next, if_pos hc, Option.some.injEq] at hnext
  show sup.world.calls s.sup.world.nextCall = some c ∧ s.sup.world.nextCall < sup.world.nextCall
  rw [← hnext]
  exact ⟨Function.update_self .., Nat.lt_succ_self _⟩

/-- Who serves a service shows in its row. -/
theorem Sound.row_of_serves (hs : Sound s) {r : RunId} (h : s.sup.world.Serves id r) :
    ∃ row ∈ s.sup.snapshot, row.id = id ∧ row.state.live = true := by
  obtain ⟨run, hr, hid, hend⟩ := h
  have hcurrent := (Proc.sound_of_reachable hs.world).unended r run hr hend
  obtain ⟨e, he, hlive, -⟩ := World.current_eq_some.mp hcurrent
  rw [hid] at he
  have hrow : s.sup.world.snapshot id = some e.status := by rw [World.snapshot, he, Option.map_some]
  have hrowid := Proc.id_of_snapshot hs.listing hrow
  exact ⟨e.status, (Proc.mem_snapshot hs.listing).mpr (hrowid.symm ▸ hrow), hrowid, hlive⟩

/-- What an observation does not show has stopped. -/
theorem Sound.renewed_of_observed (hs : Sound s) {a : Seen} (hid : id ∈ a.running)
    (h : id ∉ pending a.running s.sup.snapshot) : a.Renewed s.sup.world id := by
  intro r hserves
  obtain ⟨row, hrow, rfl, hlive⟩ := hs.row_of_serves hserves
  refine absurd (List.mem_map.mpr ⟨row, ?_, rfl⟩) h
  exact List.mem_filter.mpr ⟨List.mem_filter.mpr ⟨hrow, List.contains_iff_mem.mpr hid⟩, hlive⟩

/-- What an apply sees: a service runs, or it has stopped, or it is starting. -/
theorem Sound.seen (hs : Sound s) (a : Written) (hid : id ∈ a.ids) :
    id ∈ Seen.running ⟨a, s.sup.snapshot⟩ ∨ a.Renewed s.sup.world id ∨
      Seen.Starting ⟨a, s.sup.snapshot⟩ id := by
  by_cases hrow : ∃ row ∈ s.sup.snapshot, row.id = id ∧ row.state.live = true
  · obtain ⟨row, hmem, hrowid, hlive⟩ := hrow
    cases hstate : row.state with
    | starting => exact .inr (.inr ⟨row, hmem, hrowid, hstate⟩)
    | running =>
        refine .inl (List.mem_filter.mpr ⟨hid, List.any_eq_true.mpr ⟨row, hmem, ?_⟩⟩)
        simp [hrowid, hstate]
    | stopped | failed =>
        rw [hstate] at hlive
        cases hlive
  · exact .inr (.inl fun r hserves => absurd (hs.row_of_serves hserves) hrow)

theorem Restarts.Fits.add {a : Seen} {stragglers todo : List ServiceId} {r : Restarts}
    {result : Except ProcError Unit} (h : r.Fits a stragglers (id :: todo) s)
    (hid : id ∉ stragglers) (hbegun : result = .ok () → a.Begun s.sup.world id) :
    (r.add id result).Fits a stragglers todo s := by
  have hrunning : id ∈ a.running :=
    h.named.subset (List.mem_append_right _ List.mem_cons_self)
  cases result with
  | ok =>
      refine ⟨h.seen, h.stopped, ?_, ?_⟩
      · intro i hi
        rcases List.mem_append.mp hi with hold | hnew
        · exact h.restarted i hold
        · rw [List.mem_singleton.mp hnew]
          exact ⟨hbegun rfl, h.stopped id hrunning hid⟩
      · refine List.Perm.trans ?_ h.named
        show ((r.restarted ++ [id]) ++ r.needsAttention.map ServiceProblem.id ++ todo).Perm _
        rw [List.append_assoc, List.append_assoc, List.append_assoc, List.singleton_append]
        exact List.perm_middle.symm.append_left r.restarted
  | error e =>
      refine ⟨h.seen, h.stopped, h.restarted, ?_⟩
      have hnamed := h.named
      simpa [Restarts.add, notStartedAgain] using hnamed

theorem Restarts.Fits.leave {a : Seen} {stragglers todo : List ServiceId} {r : Restarts}
    (h : r.Fits a stragglers (id :: todo) s) : (r.leave id).Fits a stragglers todo s := by
  refine ⟨h.seen, h.stopped, h.restarted, ?_⟩
  have hnamed := h.named
  simpa [Restarts.leave, straggler] using hnamed

/-- The wait is over: those that the last observation does not show have stopped. -/
theorem Seen.Fits.restarts {a : Seen} {stragglers : List ServiceId} (h : a.Fits s)
    (hstopped : ∀ id ∈ a.running, id ∉ stragglers → a.Renewed s.sup.world id) :
    Restarts.Fits a stragglers a.running .none s := by
  refine ⟨h, hstopped, ?_, ?_⟩
  · intro id hid
    cases hid
  · exact .refl _

/-- **What a step of an apply keeps.** -/
theorem Moves.fits (hs : Sound s) {phase : Phase} (h : Moves s k phase s₁ phase')
    (hf : phase.Fits s) : phase'.Fits s₁ := by
  cases h with
  | refuse | lock | fail | unchanged | plan | rollBack => trivial
  | commit majors changes =>
      refine ⟨Nat.le_refl _, fun r hr => hr, fun r version hr hread => ?_⟩
      have hthere := hs.read r (by rw [show s.read r = some version from hread]; rfl)
      have habsent : (s.sup.world.runs r).isSome = false := hr
      rw [habsent] at hthere
      cases hthere
  | look a => exact ⟨hf, fun id hid => hs.seen a hid⟩
  | observe a => exact ⟨hf, fun id hid hnot => hs.renewed_of_observed hid hnot⟩
  | goOn => exact hf.1
  | sleep | stopped => exact hf
  | callStop a id call todo h => exact Seen.Fits.later hf (hs.supervised h).later
  | waited a still h =>
      rcases h with ⟨rfl, rfl⟩ | rfl
      · exact Seen.Fits.restarts hf fun id hid hnot => hs.renewed_of_observed hid hnot
      · exact hf.1.restarts hf.2
  | leave => exact Restarts.Fits.leave hf
  | callStart a stragglers id todo r hid h =>
      obtain ⟨hcall, hlt⟩ := call_made (c := .start id) rfl h
      exact ⟨Restarts.Fits.later hf (hs.supervised h).later, hid, hlt, _, hcall, .inl rfl⟩
  | started a stragglers call id todo r result h =>
      obtain ⟨hfits, hid, -, c, hc, hcase⟩ := hf
      rw [h, Option.some.injEq] at hc
      subst hc
      refine hfits.add hid fun hok => ?_
      rcases hcase with hstart | ⟨-, hbegun⟩
      · cases hstart
      · exact hbegun (by rw [hok]; rfl)
  | finish a stragglers r =>
      exact ⟨⟨stragglers, Restarts.Fits.later hf (.same rfl rfl (Nat.le_refl _))⟩, rfl⟩

/-- A step of an apply looks at the supervisor, or calls it. -/
theorem Moves.supervised (hs : Sound s) {phase : Phase} (h : Moves s k phase s₁ phase') :
    Supervised s s₁ ∨ s₁.sup = s.sup ∧ s₁.read = s.read ∧ s₁.jobs = s.jobs := by
  cases h with
  | callStop _ _ _ _ h | callStart _ _ _ _ _ _ h => exact .inl (hs.supervised h)
  | _ => exact .inr ⟨rfl, rfl, rfl⟩

theorem Moves.later (hs : Sound s) {phase : Phase} (h : Moves s k phase s₁ phase') :
    Later s s₁ := by
  cases h with
  | callStop _ _ _ _ h | callStart _ _ _ _ _ _ h => exact (hs.supervised h).later
  | rollBack | commit => exact .same rfl rfl (Nat.le_succ _)
  | _ => exact .same rfl rfl (Nat.le_refl _)

/-- The lock of an apply, and that of another one. -/
theorem Moves.locks (hs : Sound s) {phase : Phase} (h : Moves s k phase s₁ phase')
    (hlock : phase.inside = true → s.lock = some (.apply k)) :
    (phase'.inside = true → s₁.lock = some (.apply k)) ∧
      ∀ j, j ≠ k → s.lock = some (.apply j) → s₁.lock = some (.apply j) ∧ s₁.version = s.version := by
  have hother : ∀ {p : Prop} j, j ≠ k → phase.inside = true → s.lock = some (.apply j) → p := by
    intro p j hj hin hheld
    cases (hlock hin).symm.trans hheld
    exact absurd rfl hj
  cases h with
  | refuse => exact ⟨nofun, fun j _ hheld => ⟨hheld, rfl⟩⟩
  | lock hfree =>
      refine ⟨fun _ => rfl, fun j _ hheld => ?_⟩
      cases hfree.symm.trans hheld
  | fail | unchanged | rollBack | finish => exact ⟨nofun, fun j hj hheld => hother j hj rfl hheld⟩
  | commit => exact ⟨hlock, fun j hj hheld => hother j hj rfl hheld⟩
  | callStop _ _ _ _ h | callStart _ _ _ _ _ _ h =>
      have hsup := hs.supervised h
      exact ⟨fun _ => hsup.lock.trans (hlock rfl), fun j _ hheld =>
        ⟨hsup.lock.trans hheld, hsup.version⟩⟩
  | waited a still h =>
      refine ⟨fun _ => hlock ?_, fun j _ hheld => ⟨hheld, rfl⟩⟩
      rcases h with ⟨rfl, -⟩ | rfl <;> rfl
  | _ => exact ⟨fun _ => hlock rfl, fun j _ hheld => ⟨hheld, rfl⟩⟩

/-- The commit that an apply is about is its own last one. -/
theorem Moves.own (hs : Sound s) {phase : Phase} (h : Moves s k phase s₁ phase')
    (hown : ∀ a, phase.written = some a → a.version = s.version) :
    ∀ a, phase'.written = some a → a.version = s₁.version := by
  cases h with
  | refuse | lock | fail | unchanged | plan | rollBack | finish => nofun
  | commit majors changes =>
      intro a ha
      cases ha
      rfl
  | callStop _ _ _ _ h | callStart _ _ _ _ _ _ h =>
      intro a ha
      exact (hown a ha).trans (hs.supervised h).version.symm
  | waited a still h =>
      rcases h with ⟨rfl, -⟩ | rfl <;> exact hown
  | _ => exact hown

theorem inside_of_written {phase : Phase} {a : Written} (h : phase.written = some a) :
    phase.inside = true := by
  cases phase <;> first | rfl | cases h

theorem sound_job (hs : Sound s) (h : Moves s k (s.jobs k) s₁ phase') :
    Sound (s₁.setPhase k phase') := by
  have hself : (s₁.setPhase k phase').jobs k = phase' := if_pos rfl
  have hjobs : s₁.jobs = s.jobs := (h.supervised hs).elim Supervised.jobs fun hsame => hsame.2.2
  have hother : ∀ j, j ≠ k → (s₁.setPhase k phase').jobs j = s.jobs j := fun j hj =>
    (if_neg hj).trans (congrFun hjobs j)
  have hlater : Later s (s₁.setPhase k phase') := by
    have hl := h.later hs
    exact ⟨hl.version, hl.aged, hl.nextCall, hl.read, hl.begins⟩
  obtain ⟨hlock, hlocks⟩ := h.locks hs (hs.lock k)
  constructor
  case world =>
    show Proc.supervisor.Reachable s₁.sup.world
    rcases h.supervised hs with hsup | ⟨hsup, -⟩
    · exact hsup.world
    · rw [hsup]
      exact hs.world
  case listing =>
    show s₁.sup.Sound
    rcases h.supervised hs with hsup | ⟨hsup, -⟩
    · exact hsup.listing
    · rw [hsup]
      exact hs.listing
  case read =>
    show ∀ r, (s₁.read r).isSome = true → (s₁.sup.world.runs r).isSome = true
    rcases h.supervised hs with hsup | ⟨hsup, hread, -⟩
    · exact hsup.read
    · rw [hsup, hread]
      exact hs.read
  case lock =>
    intro j hj
    by_cases heq : j = k
    · subst heq
      rw [hself] at hj
      exact hlock hj
    · rw [hother j heq] at hj
      exact (hlocks j heq (hs.lock j hj)).1
  case own =>
    intro j a ha
    by_cases heq : j = k
    · subst heq
      rw [hself] at ha
      exact h.own hs (hs.own j) a ha
    · rw [hother j heq] at ha
      have hheld := hs.lock j (inside_of_written ha)
      exact (hs.own j a ha).trans (hlocks j heq hheld).2.symm
  case fits =>
    intro j
    by_cases heq : j = k
    · subst heq
      rw [hself]
      exact (h.fits hs (hs.fits j)).later (.same rfl rfl (Nat.le_refl _))
    · rw [hother j heq]
      exact (hs.fits j).later hlater

theorem sound_lock {lock : Option Holder} (hs : Sound s)
    (h : ∀ k, s.lock = some (.apply k) → lock = some (.apply k)) : Sound { s with lock := lock } where
  world := hs.world
  listing := hs.listing
  read := hs.read
  lock k hk := h k (hs.lock k hk)
  own := hs.own
  fits k := (hs.fits k).later (.same rfl rfl (Nat.le_refl _))

theorem sound_next (hs : Sound s) {action : Action} (h : s.next action = some s') : Sound s' := by
  cases action with
  | supervisor a =>
      have hsup := hs.supervised h
      refine ⟨hsup.world, hsup.listing, hsup.read, ?_, ?_, ?_⟩
      · intro k hk
        rw [hsup.jobs] at hk
        exact hsup.lock.trans (hs.lock k hk)
      · intro k a ha
        rw [hsup.jobs] at ha
        exact (hs.own k a ha).trans hsup.version.symm
      · intro k
        rw [hsup.jobs]
        exact (hs.fits k).later hsup.later
  | bulkTake =>
      obtain ⟨hfree, heq⟩ := Option.ite_none_right_eq_some.mp h
      cases heq
      refine sound_lock hs fun k hk => ?_
      cases hfree.symm.trans hk
  | bulkGive =>
      obtain ⟨hheld, heq⟩ := Option.ite_none_right_eq_some.mp h
      cases heq
      refine sound_lock hs fun k hk => ?_
      cases hheld.symm.trans hk
  | job k answer =>
      obtain ⟨⟨s₁, phase'⟩, hstep, rfl⟩ := Option.map_eq_some_iff.mp h
      exact sound_job hs (moves_of_stepJob hstep)

theorem sound_of_reachable : system.Reachable s → Sound s := by
  apply Lts.System.Reaches.invariant
  · intro s hs
    refine ⟨.init hs.world, Listing.sound_of_initial hs.world hs.ids, ?_, ?_, ?_, ?_⟩
    · intro r hr
      rw [hs.read r] at hr
      cases hr
    · intro k hk
      rw [hs.jobs k] at hk
      cases hk
    · intro k a ha
      rw [hs.jobs k] at ha
      cases ha
    · intro k
      rw [hs.jobs k]
      trivial
  · intro s action s' hs _ hn
    exact sound_next hs hn

end Sound

/-! ### What an outcome says -/

section Outcome

variable {s : State} {k : JobId}

/-- The services are divided into those that were running and the others. -/
theorem Seen.running_notStarted (a : Seen) : (a.running ++ a.notStarted).Perm a.ids := by
  have hnot : a.notStarted = a.ids.filter fun id =>
      !(a.snapshot.any fun s => s.id == id && s.state == .running) := by
    refine List.filter_congr fun id hid => ?_
    have hmem : id ∈ a.running ↔
        (a.snapshot.any fun s => s.id == id && s.state == .running) = true := by
      rw [Seen.running, List.mem_filter]
      exact and_iff_right hid
    by_cases hrunning : id ∈ a.running
    · rw [hmem.mp hrunning]
      exact decide_eq_false (not_not_intro hrunning)
    · rw [Bool.eq_false_of_not_eq_true (mt hmem.mpr hrunning)]
      exact decide_eq_true hrunning
  rw [hnot]
  exact List.filter_append_perm _ _

/-- **What an outcome says of the services**, whatever else the supervisor is asked meanwhile and
from then on: it names each of them once. Of each that it calls restarted a run was made after the
configuration was written, which can only have read that one or a newer one. And a child that lives
on an older one is of a service that needs attention, or of one that was starting, which is called
not started. -/
theorem apply_outcome {a : Seen} {o : Outcome} (h : system.Reachable s)
    (hk : s.jobs k = .finished a o) :
    (o.restarted ++ o.notStarted ++ o.needsAttention.map ServiceProblem.id).Perm a.ids ∧
    (∀ id ∈ o.restarted, ∃ r run, s.sup.world.runs r = some run ∧ run.id = id ∧
      a.before r = false ∧ ∀ version, s.read r = some version → a.version ≤ version) ∧
    ∀ r run version, s.sup.world.runs r = some run → run.child = .alive →
      s.read r = some version → version < a.version → run.id ∈ a.ids →
        run.id ∈ o.needsAttention.map ServiceProblem.id ∨
          run.id ∈ o.notStarted ∧ a.Starting run.id := by
  have hs := sound_of_reachable h
  have hfits := hs.fits k
  rw [hk] at hfits
  obtain ⟨⟨stragglers, hfits⟩, hnot⟩ := hfits
  have hnamed : (o.restarted ++ o.needsAttention.map ServiceProblem.id).Perm a.running := by
    simpa using hfits.named
  refine ⟨?_, ?_, ?_⟩
  · calc (o.restarted ++ o.notStarted ++ o.needsAttention.map ServiceProblem.id).Perm
          (o.restarted ++ o.needsAttention.map ServiceProblem.id ++ o.notStarted) := by
          rw [List.append_assoc, List.append_assoc]
          exact List.perm_append_comm.append_left _
      _ |>.Perm (a.running ++ a.notStarted) := hnot ▸ hnamed.append_right _
      _ |>.Perm a.ids := a.running_notStarted
  · intro id hid
    obtain ⟨r, run, hr, hrid, hbefore⟩ := (hfits.restarted id hid).1
    exact ⟨r, run, hr, hrid, hbefore, fun version => hfits.seen.written.read r version hbefore⟩
  · intro r run version hr halive hread hold hid
    have hbefore : a.before r = true := by
      by_contra hnew
      have hle := hfits.seen.written.read r version (by simpa using hnew) hread
      omega
    have hserves : s.sup.world.Serves run.id r := by
      refine ⟨run, hr, rfl, ?_⟩
      by_contra hended
      have hfine := (Proc.sound_of_reachable hs.world).fine r run hr
      exact hfine.gone (Proc.childless_of_ended (by simpa using hended)) halive
    have hstale : ¬ a.Renewed s.sup.world run.id := by
      intro hrenewed
      rw [hrenewed r hserves] at hbefore
      cases hbefore
    by_cases hrunning : run.id ∈ a.running
    · rcases List.mem_append.mp (hnamed.symm.subset hrunning) with hrestarted | hproblem
      · exact absurd (hfits.restarted _ hrestarted).2 hstale
      · exact .inl hproblem
    · refine .inr ⟨?_, ?_⟩
      · rw [hnot]
        exact List.mem_filter.mpr ⟨hid, by simpa using hrunning⟩
      · rcases hfits.seen.seen _ hid with hrunning' | hrenewed | hstarting
        · exact absurd hrunning' hrunning
        · exact absurd hrenewed hstale
        · exact hstarting

/-- **One apply at a time**: between its plan and its return no other apply is there, and from its
commit to its return the configuration is the one that it has written. -/
theorem one_apply {j : JobId} (h : system.Reachable s) (hj : (s.jobs j).inside = true) :
    (∀ k, (s.jobs k).inside = true → k = j) ∧
      ∀ a, (s.jobs j).written = some a → a.version = s.version := by
  have hs := sound_of_reachable h
  refine ⟨fun k hk => ?_, hs.own j⟩
  have hlock := (hs.lock k hk).symm.trans (hs.lock j hj)
  simpa using hlock

end Outcome

/-! ### An apply while nginx starts, and one while it runs -/

def start : State := ⟨⟨World.new, []⟩, none, fun _ => .waiting, 0, fun _ => none⟩

theorem initial_start : start.Initial where
  world := Proc.initial_new
  ids := rfl
  lock := rfl
  jobs _ := rfl
  read _ := rfl

def jobSteps (answers : List Answer) : List Action := answers.map (.job 0)

def supSteps (actions : List Proc.Action) : List Action := actions.map .supervisor

/-- nginx is registered and started, as far as its living child. -/
def nginxStarting : List Action :=
  supSteps (Proc.callThrough 0 (.register (Proc.sampleSpec "nginx")) 2 ++
    Proc.callThrough 1 (.start "nginx") 5 ++ [.task 0 (.spawned (some 7))])

/-- An apply while nginx is starting. -/
def applyStarting : List Action :=
  nginxStarting ++ jobSteps [.go, .changes [], .applied 1, .go, .go, .go]

/-- **A service that is starting is not restarted**: its child, which was there before the files
were written, goes on with what it has read, and nothing needs attention. -/
theorem not_started_runs_on : ∃ (s : State) (a : Seen) (run : Proc.Run),
    system.Reachable s ∧ s.jobs 0 = .finished a ⟨1, [], ["nginx"], []⟩ ∧
      s.sup.world.runs 0 = some run ∧ run.child = .alive ∧ s.read 0 = some 0 ∧ a.version = 1 := by
  have hend : (system.exec start applyStarting).any (fun s =>
      (match s.jobs 0 with
        | .finished a o => decide (o = ⟨1, [], ["nginx"], []⟩) && decide (a.version = 1)
        | _ => false) && (Proc.aliveAt 0 s.sup.world && decide (s.read 0 = some 0))) = true := by
    decide +kernel
  obtain ⟨s, hs, hp⟩ := Lts.System.exists_of_exec applyStarting _ (.init initial_start) hend
  obtain ⟨hjob, hrest⟩ := Bool.and_eq_true_iff.mp hp
  obtain ⟨halive, hread⟩ := Bool.and_eq_true_iff.mp hrest
  obtain ⟨run, hr, hrun⟩ := (Option.any_eq_true _ _).mp halive
  split at hjob
  next a o hfinished =>
    obtain ⟨ho, hversion⟩ := Bool.and_eq_true_iff.mp hjob
    rw [of_decide_eq_true ho] at hfinished
    exact ⟨s, a, run, hs, hfinished, hr, by simpa using hrun, of_decide_eq_true hread,
      of_decide_eq_true hversion⟩
  next => cases hjob

theorem one_apply_committed : ∃ s : State, system.Reachable s ∧
    (∀ k, (s.jobs k).inside = true → k = 0) ∧ s.version = 1 ∧
      ∀ a, (s.jobs 0).written = some a → a.version = 1 := by
  have hend : (system.exec start (jobSteps [.go, .changes [], .applied 1])).any (fun s =>
      (s.jobs 0).inside && decide (s.version = 1)) = true := rfl
  obtain ⟨s, hs, hp⟩ := Lts.System.exists_of_exec _ _ (.init initial_start) hend
  obtain ⟨hinside, hversion⟩ := Bool.and_eq_true_iff.mp hp
  obtain ⟨halone, hown⟩ := one_apply hs hinside
  have hone : s.version = 1 := of_decide_eq_true hversion
  exact ⟨s, hs, halone, hone, fun a ha => (hown a ha).trans hone⟩

/-- nginx comes to run: it has been alive for as long as it takes. -/
def nginxRunning : List Action :=
  nginxStarting ++ supSteps [.task 0 .go, .task 0 (.recorded none false), .task 0 .go, .task 0 .go,
    .task 0 .go, .task 0 .elapsed, .task 0 .go, .task 0 .go, .task 0 .go, .task 0 .go]

/-- It is asked to stop, and its child exits. -/
def nginxStops : List Action :=
  supSteps (List.replicate 4 (.caller 2) ++ [.task 0 .received, .exit 0 (some ⟨some 0, "0"⟩),
    .task 0 .exited, .task 0 .elapsed, .task 0 .go, .task 0 .go, .task 0 .go, .task 0 .go,
    .task 0 (.removed true), .task 0 .go])

/-- An apply while nginx runs, with a new child of it at the end. -/
def applyRunning : List Action :=
  nginxRunning ++ jobSteps [.go, .changes [], .applied 1, .go, .go, .elapsed 0, .go] ++ nginxStops ++
    jobSteps [.go, .go, .go, .go] ++ supSteps (List.replicate 5 (.caller 3)) ++
    jobSteps [.go, .go] ++ supSteps [.task 1 (.spawned (some 8))]

theorem apply_outcome_restarted : ∃ (s : State) (a : Seen) (r : RunId) (run : Proc.Run),
    a.version = 1 ∧ s.sup.world.runs r = some run ∧ run.id = "nginx" ∧ a.before r = false ∧
      ∀ version, s.read r = some version → 1 ≤ version := by
  have hend : (system.exec start applyRunning).any (fun s => match s.jobs 0 with
      | .finished a o => decide (o = ⟨1, ["nginx"], [], []⟩) && decide (a.version = 1)
      | _ => false) = true := by
    decide +kernel
  obtain ⟨s, hs, hjob⟩ := Lts.System.exists_of_exec applyRunning _ (.init initial_start) hend
  split at hjob
  next a o hfinished =>
    obtain ⟨ho, hversion⟩ := Bool.and_eq_true_iff.mp hjob
    obtain rfl := of_decide_eq_true ho
    obtain ⟨-, hrestarted, -⟩ := apply_outcome hs hfinished
    obtain ⟨r, run, hr, hid, hbefore, hread⟩ := hrestarted "nginx" List.mem_cons_self
    have hone : a.version = 1 := of_decide_eq_true hversion
    exact ⟨s, a, r, run, hone, hr, hid, hbefore, hone ▸ hread⟩
  next => cases hjob

end OpenVHost.Desktop.Apply
