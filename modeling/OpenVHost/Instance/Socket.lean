/-
# What a missing answer says

The socket that an app serves is at its path from the moment the app is up until it removes it
itself, and it is listened on; the lock is held all that time. So the command line tool, which
takes a missing socket for a missing app, and a refused connection for one only where the lock
is free, never says so while an app is serving.

* `Bound`, `bound` — the path, the socket and the directory of an app.
* `told_while_serving` — what the tool is told while an app serves.
* `relaunch` — after any history, a launch that nothing fails comes to serve.
-/

import OpenVHost.Instance.Single

namespace OpenVHost.Instance

open Cli Control Lts Orphan

variable {π : Type} [DecidableEq π] {caller : π → Caller} {path e : List Char}

/-! ### The socket of an app -/

/-- The socket that is at the path while the app is here. -/
def App.name : App → Option Nat
  | named ino | listening ino => some ino
  | ready socket => socket
  | _ => none

/-- The socket that the app listens on. -/
def App.hears : App → Option Nat
  | listening ino => some ino
  | ready socket => socket
  | _ => none

/-- Whether the directory was created. -/
def App.hasDir : App → Bool
  | acquiring _ | waiting | alreadyRunning | runDirUnusable => false
  | _ => true

/-- What holds of the socket, the path and the directory in every state that a run reaches. -/
structure Bound (w : World π) : Prop where
  name : ∀ {p a ino}, w.procs p = .app a → a.name = some ino → w.place = .socket ino
  hears : ∀ {p a ino}, w.procs p = .app a → a.hears = some ino → w.listeners ino = some p
  runDir : ∀ {p a}, w.procs p = .app a → a.hasDir = true → w.runDir = true

section Steps

variable {w u w' : World π} {p q : π} {me : Caller} {a a' : App} {step : AppStep me}

theorem App.pastLock_of_name {ino : Nat} (h : a.name = some ino) : a.pastLock = true := by
  cases a <;> first | rfl | cases h

/-- The socket, the path and the directory of one app. -/
structure BoundAt (w : World π) (p : π) (a : App) : Prop where
  name : ∀ {ino}, a.name = some ino → w.place = .socket ino
  hears : ∀ {ino}, a.hears = some ino → w.listeners ino = some p
  runDir : a.hasDir = true → w.runDir = true

omit [DecidableEq π] in
theorem BoundAt.of_none (hname : a.name = none) (hhears : a.hears = none)
    (hdir : a.hasDir = true → w.runDir = true) : BoundAt w p a where
  name h := by
    rw [hname] at h
    cases h
  hears h := by
    rw [hhears] at h
    cases h
  runDir := hdir

theorem boundAt_appNext (hb : BoundAt w p a) (h : w.appNext p a step = some (u, a')) :
    BoundAt u p a' := by
  have hremoved : ∀ quit, (App.removed quit).name = none ∧ (App.removed quit).hears = none := by
    decide
  unfold World.appNext at h
  split at h
  case h_1 again =>
    cases h
    exact .of_none rfl rfl fun _ => rfl
  case h_3 again =>
    split at h
    next lock hlock =>
      cases h
      exact .of_none rfl rfl fun _ => hb.runDir rfl
    next =>
      cases h
      cases again with
      | false => exact .of_none rfl rfl nofun
      | true => exact .of_none rfl rfl nofun
  case h_9 =>
    cases h
    split
    · exact .of_none rfl rfl fun _ => rfl
    · exact .of_none rfl rfl fun _ => rfl
    · exact .of_none rfl rfl fun _ => rfl
  case h_11 =>
    split_ifs at h with habsent
    · cases h
      exact .of_none rfl rfl fun _ => hb.runDir rfl
    · cases h
      exact .of_none rfl rfl fun _ => hb.runDir rfl
  case h_13 ino =>
    split_ifs at h with hfree
    cases h
    refine ⟨fun heq => ?_, nofun, fun _ => hb.runDir rfl⟩
    cases heq
    rfl
  case h_15 ino =>
    obtain ⟨listeners, htake, heq⟩ := Option.map_eq_some_iff.mp h
    cases heq
    refine ⟨hb.name, fun heq => ?_, fun _ => hb.runDir rfl⟩
    cases heq
    exact Locks.held_of_take htake
  case h_17 ino =>
    have hplace : w.place = .socket ino := hb.name rfl
    rw [hplace] at h
    cases h
    exact ⟨hb.name, hb.hears, fun _ => hb.runDir rfl⟩
  case h_22 ino quit ok =>
    cases h
    split_ifs
    · exact .of_none rfl rfl fun _ => hb.runDir rfl
    · exact .of_none (hremoved quit).1 (hremoved quit).2 fun _ => hb.runDir rfl
  case h_23 ino quit =>
    cases h
    exact .of_none (hremoved quit).1 (hremoved quit).2 fun _ => hb.runDir rfl
  case h_24 ino quit =>
    cases h
    exact .of_none (hremoved quit).1 (hremoved quit).2 fun _ => hb.runDir rfl
  case h_25 => cases h
  case h_2 | h_4 | h_5 =>
    cases h
    exact .of_none rfl rfl nofun
  all_goals
    cases h
    exact .of_none rfl rfl fun _ => hb.runDir rfl

/-- A process goes on; nobody else has a name for the path, or the path is the same. -/
theorem Bound.set (hb : Bound w) (hlocal : Local w u p) {x : Process}
    (hplace : u.place = w.place ∨ ∀ q a ino, q ≠ p → w.procs q = .app a → a.name ≠ some ino)
    (happ : ∀ {a}, x = .app a → BoundAt u p a) : Bound (u.set p x) where
  name {q a ino} hq hname := by
    by_cases hqp : q = p
    · subst hqp
      rw [World.set_self] at hq
      exact (happ hq).name hname
    · rw [World.set_of_ne hqp, hlocal.procs] at hq
      rcases hplace with hplace | hnone
      · exact hplace.trans (hb.name hq hname)
      · exact absurd hname (hnone q a ino hqp hq)
  hears {q a ino} hq hhears := by
    by_cases hqp : q = p
    · subst hqp
      rw [World.set_self] at hq
      exact (happ hq).hears hhears
    · rw [World.set_of_ne hqp, hlocal.procs] at hq
      exact (hlocal.listeners q hqp ino).mpr (hb.hears hq hhears)
  runDir {q a} hq hdir := by
    by_cases hqp : q = p
    · subst hqp
      rw [World.set_self] at hq
      exact (happ hq).runDir hdir
    · rw [World.set_of_ne hqp, hlocal.procs] at hq
      exact hlocal.runDir (hb.runDir hq hdir)

omit [DecidableEq π] in
theorem Bound.boundAt (hb : Bound w) (hp : w.procs p = .app a) : BoundAt w p a :=
  ⟨hb.name hp, hb.hears hp, hb.runDir hp⟩

theorem Bound.begin (hb : Bound w) {x : Process}
    (happ : ∀ {a}, x = .app a → a.hasDir = false ∧ a.name = none ∧ a.hears = none) :
    Bound (w.set p x) := by
  refine hb.set (Local.refl w p) (.inl rfl) fun heq => ?_
  obtain ⟨hdir, hname, hhears⟩ := happ heq
  exact .of_none hname hhears fun h => by rw [hdir] at h; cases h

theorem Bound.next (hs : Sound w) (hb : Bound w) {action : Action caller}
    (h : w.next path e action = some w') : Bound w' := by
  cases moves_of_next h with
  | launch => exact hb.begin (by rintro a ⟨⟩; exact ⟨rfl, rfl, rfl⟩)
  | @app p step a a' u hp hnext =>
      have happ : ∀ {b}, Process.app a' = .app b → BoundAt u p b := by
        rintro b ⟨⟩
        exact boundAt_appNext (hb.boundAt hp) hnext
      rcases appNext_cases hnext with hunlocked | ⟨-, rfl, lock, htake, rfl⟩
      · refine hb.set hunlocked.toLocal (hunlocked.place.imp_right fun hpast => ?_) happ
        -- Only the holder of the lock changes what is at the path.
        intro q b ino hqp hq hname
        have hq' := hs.holds hq (App.pastLock_of_name hname)
        exact hqp (Option.some.inj (hq'.symm.trans (hs.holds hp hpast)))
      · exact hb.set (Local.of_take htake) (.inl rfl) happ
  | ask => exact hb.begin nofun
  | client hp hnext =>
      have hasks := clientNext_asks hnext
      exact hb.set hasks.toLocal (.inl hasks.place) nofun
  | spawn => exact ⟨hb.name, hb.hears, hb.runDir⟩
  | finish => exact ⟨hb.name, hb.hears, hb.runDir⟩
  | @stop p _ => exact hb.set (Local.released w p) (.inl rfl) nofun

end Steps

theorem bound {w : World π} (h : (system caller path e).Reachable w) : Bound w := by
  refine h.invariant_beside (fun w hw => sound hw) (fun w hw => ?_)
    fun w action w' hs hb _ hnext => Bound.next hs hb hnext
  constructor
  · intro p a ino hp
    cases (hw.1 p).symm.trans hp
  · intro p a ino hp
    cases (hw.1 p).symm.trans hp
  · intro p a hp
    cases (hw.1 p).symm.trans hp

/-! ### What the tool is told -/

section Told

variable {w u w' : World π} {p q : π} {c c' : Client} {step : ClientStep}

/-- Some app is up, with its socket. -/
def World.Serving (w : World π) : Prop := ∃ p ino, w.procs p = .app (.ready (some ino))

/-- A run of the tool that has not been told that there is no app, and will not be while there
is one. -/
def Client.hopeful : Client → Prop
  | asking | connecting | connected => True
  | failed err | probing err => ∃ path e, err = .unreachable path e
  | holding _ => False
  | told ex => ex.supervisor ≠ .notRunning

/-- **A step of the tool while an app serves.** -/
theorem hopeful_clientNext (hs : Sound w) (hb : Bound w) (hserving : w.Serving)
    (hc : c.hopeful) (h : w.clientNext path e p c step = some (u, c')) : c'.hopeful := by
  obtain ⟨server, ino, hserver⟩ := hserving
  have hplace : w.place = .socket ino := hb.name hserver rfl
  have hdir : w.runDir = true := hb.runDir hserver rfl
  have hlock : w.lock () = some server := hs.holds hserver rfl
  unfold World.clientNext at h
  split at h
  case h_1 =>
    rw [hplace] at h
    cases h
    trivial
  case h_2 =>
    cases h
    nofun
  case h_3 ok =>
    rw [hplace] at h
    cases h
    dsimp only
    split_ifs
    · trivial
    · exact ⟨path, e, rfl⟩
  case h_4 response =>
    cases h
    nofun
  case h_5 =>
    cases h
    nofun
  case h_6 =>
    cases h
    nofun
  case h_7 err reason =>
    obtain ⟨path', e', rfl⟩ := hc
    cases h
    nofun
  case h_8 err =>
    cases h
    rw [if_pos hdir]
    exact hc
  case h_9 err reason =>
    obtain ⟨path', e', rfl⟩ := hc
    cases h
    nofun
  case h_10 err =>
    obtain ⟨path', e', rfl⟩ := hc
    split at h
    next lock htake =>
      -- The lock is held by the app that serves.
      cases (Locks.take_eq_some.mp htake).1.symm.trans hlock
    next =>
      cases h
      nofun
  case h_11 err => exact absurd hc id
  case h_12 => cases h

/-- The process that a step is of. -/
def Action.mover : Action caller → Option π
  | .app p _ | .client p _ | .stop p => some p
  | .spawn _ _ | .finish _ => none

/-- A step of one process is no step of another. -/
theorem procs_next {action : Action caller} (hp : action.mover ≠ some p)
    (h : w.next path e action = some w') : w'.procs p = w.procs p := by
  have hset : ∀ {q : π} {u : World π} {x : Process}, some q ≠ some p → u.procs = w.procs →
      (u.set q x).procs p = w.procs p := by
    intro q u x hne hprocs
    rw [World.set_of_ne fun heq => hne (congrArg some heq.symm), hprocs]
  cases moves_of_next h with
  | launch => exact hset hp rfl
  | app _ hnext =>
      rcases appNext_cases hnext with hunlocked | ⟨-, -, lock, -, rfl⟩
      · exact hset hp hunlocked.procs
      · exact hset hp rfl
  | ask => exact hset hp rfl
  | client _ hnext => exact hset hp (clientNext_asks hnext).procs
  | spawn => rfl
  | finish => rfl
  | stop => exact hset hp rfl

theorem procs_exec {actions : List (Action caller)} (hp : ∀ action ∈ actions, action.mover ≠ some p)
    (h : (system caller path e).exec w actions = some w') : w'.procs p = w.procs p := by
  induction actions generalizing w with
  | nil =>
      cases h
      rfl
  | cons action rest ih =>
      obtain ⟨u, hnext, hrest⟩ := Option.bind_eq_some_iff.mp h
      exact (ih (fun a ha => hp a (List.mem_cons_of_mem _ ha)) hrest).trans
        (procs_next (hp action List.mem_cons_self) hnext)

/-- A run of the tool that is under way, or was broken off. -/
def Process.hopeful : Process → Prop
  | client c => c.hopeful
  | ended => True
  | idle | app _ => False

/-- **A step of any process while an app serves.** -/
theorem hopeful_next (hs : Sound w) (hb : Bound w) (hserving : w.Serving) {action : Action caller}
    (hp : (w.procs p).hopeful) (h : w.next path e action = some w') : (w'.procs p).hopeful := by
  by_cases hmover : action.mover = some p
  · cases moves_of_next h with
    | launch hidle =>
        cases hmover
        rw [hidle] at hp
        exact hp.elim
    | app happ =>
        cases hmover
        rw [happ] at hp
        exact hp.elim
    | ask hidle =>
        cases hmover
        rw [hidle] at hp
        exact hp.elim
    | client hclient hnext =>
        cases hmover
        rw [hclient] at hp
        rw [World.set_self]
        exact hopeful_clientNext hs hb hserving hp hnext
    | spawn => cases hmover
    | finish => cases hmover
    | stop =>
        cases hmover
        rw [World.set_self]
        trivial
  · rw [procs_next hmover h]
    exact hp

/-- **While an app serves, nobody is told that there is none**: a run of the tool that begins when
an app serves, with one serving at every step until it is told, is told something else, which
stands as it is for every verb; whatever the other processes do meanwhile, and whichever of its
own system calls fail. -/
theorem told_while_serving (hw : (system caller path e).Reachable w)
    (hask : w.procs p = .client .asking)
    (hrun : (system caller path e).Leads (fun w _ => w.Serving) w w') {ex : Exchange}
    (htold : w'.procs p = .client (.told ex)) :
    ex.supervisor ≠ .notRunning ∧ ∀ header, ex.under header = ex := by
  have hall : (Sound w' ∧ Bound w') ∧ (w'.procs p).hopeful := by
    refine hrun.invariant (I := fun w => (Sound w ∧ Bound w) ∧ (w.procs p).hopeful) ?_ ?_
    · refine ⟨⟨sound hw, bound hw⟩, ?_⟩
      rw [hask]
      trivial
    · rintro w action w' ⟨⟨hs, hb⟩, hp⟩ hserving hnext
      exact ⟨⟨hs.next hnext, hb.next hs hnext⟩, hopeful_next hs hb hserving hp hnext⟩
  have hnot : ex.supervisor ≠ .notRunning := by
    have hp := hall.2
    rw [htold] at hp
    exact hp
  refine ⟨hnot, fun header => ?_⟩
  obtain ⟨supervisor, response, note⟩ := ex
  unfold Exchange.under Exchange.absentSupervisorIsAnAnswer
  cases supervisor with
  | notRunning => exact absurd rfl hnot
  | running => exact ite_self _
  | unknown => exact ite_self _

end Told

/-! ### The next launch -/

/-- Whether a process runs. -/
def Process.alive : Process → Prop
  | app _ | client _ => True
  | idle | ended => False

/-- Only what runs holds the lock or listens, in every state that a run reaches. -/
structure Live (w : World π) : Prop where
  lock : ∀ {q}, w.lock () = some q → (w.procs q).alive
  listeners : ∀ {q ino}, w.listeners ino = some q → (w.procs q).alive

section Relaunch

variable {w u w' : World π} {p q : π} {x : Process} {a a' : App}

theorem Live.set (hv : Live w) (hlocal : Local w u p)
    (hx : x.alive ∨ (u.lock () ≠ some p ∧ ∀ ino, u.listeners ino ≠ some p)) :
    Live (u.set p x) where
  lock {q} hq := by
    by_cases hqp : q = p
    · subst hqp
      rw [World.set_self]
      exact hx.resolve_right fun hnone => hnone.1 hq
    · rw [World.set_of_ne hqp, hlocal.procs]
      exact hv.lock ((hlocal.lock q hqp).mp hq)
  listeners {q ino} hq := by
    by_cases hqp : q = p
    · subst hqp
      rw [World.set_self]
      exact hx.resolve_right fun hnone => hnone.2 ino hq
    · rw [World.set_of_ne hqp, hlocal.procs]
      exact hv.listeners ((hlocal.listeners q hqp ino).mp hq)

theorem Live.next (hv : Live w) {action : Action caller} (h : w.next path e action = some w') :
    Live w' := by
  cases moves_of_next h with
  | @launch p => exact hv.set (Local.refl w p) (.inl trivial)
  | @app p _ _ _ _ _ hnext =>
      rcases appNext_cases hnext with hunlocked | ⟨-, -, lock, htake, rfl⟩
      · exact hv.set hunlocked.toLocal (.inl trivial)
      · exact hv.set (Local.of_take htake) (.inl trivial)
  | @ask p => exact hv.set (Local.refl w p) (.inl trivial)
  | client _ hnext => exact hv.set (clientNext_asks hnext).toLocal (.inl trivial)
  | spawn => exact ⟨hv.lock, hv.listeners⟩
  | finish => exact ⟨hv.lock, hv.listeners⟩
  | @stop p _ =>
      exact hv.set (Local.released w p) (.inr ⟨Locks.giveAll_ne, fun _ => Locks.giveAll_ne⟩)

theorem live (h : (system caller path e).Reachable w) : Live w := by
  refine h.invariant (fun w hw => ?_) fun w action w' hv _ hnext => Live.next hv hnext
  obtain ⟨-, hlock, hlisteners, -⟩ := hw
  constructor
  · intro q hq
    rw [hlock] at hq
    cases hq
  · intro q ino hq
    rw [hlisteners] at hq
    cases hq

/-- The system calls of a launch that nothing fails: the process table is asked about every record
that is listed, and what is at the path of the socket is unlinked. -/
def launchSteps {me : Caller} (place : Place) (records : List SupervisedRecord)
    (tables : List (ProcessTable me)) (ino : Nat) : List (AppStep me) :=
  [.launch, .createDir true, .flock true, .listCurrentBoot records] ++ tables.map .reapNext ++
    (.reaped :: .lookAtPath true :: if place = .absent then [] else [.removeFile true]) ++
    [.bindAt ino, .listen true, .setMode true]

variable (caller path e)

/-- A step of one launch, before other actions. -/
theorem exec_app {step : AppStep (caller p)} {rest : List (Action caller)}
    (hp : w.procs p = .app a) (h : w.appNext p a step = some (u, a')) :
    (system caller path e).exec w (.app p step :: rest) =
      (system caller path e).exec (u.set p (.app a')) rest := by
  have hnext : w.next path e (.app p step : Action caller) = some (u.set p (.app a')) := by
    simp only [World.next, hp, h, Option.map_some]
  exact System.exec_cons hnext

/-- A launch that finds the lock free. -/
theorem exec_locked (hp : w.procs p = .idle) (hlock : w.lock () = none)
    (records : List SupervisedRecord) :
    ∃ u, (system caller path e).exec w [.app p .launch, .app p (.createDir true),
        .app p (.flock true), .app p (.listCurrentBoot records)] = some u ∧
      u.procs p = .app (.reaping records) ∧ u.place = w.place ∧ u.listeners = w.listeners := by
  have hlaunch : (system caller path e).next w (.app p .launch) =
      some (w.set p (.app (.acquiring false))) := by
    show w.next path e (.app p .launch) = _
    simp only [World.next, hp]
    rfl
  have hflock : ∀ v : World π, v.lock () = none →
      v.appNext p (.locking false) (.flock true : AppStep (caller p)) =
        some ({ v with lock := Function.update v.lock () (some p) }, .locked) := by
    intro v hfree
    have htake : v.lock.take () p = some (Function.update v.lock () (some p)) :=
      Locks.take_eq_some.mpr ⟨hfree, rfl⟩
    simp only [World.appNext, htake]
  rw [System.exec_cons hlaunch, exec_app caller path e World.set_self rfl,
    exec_app caller path e World.set_self (hflock _ (by exact hlock)), exec_app caller path e World.set_self rfl]
  exact ⟨_, rfl, World.set_self, rfl, rfl⟩

/-- A reap comes to its end, with the path and the sockets as they were. -/
theorem exec_reap {todo : List SupervisedRecord} {tables : List (ProcessTable (caller p))}
    (hp : w.procs p = .app (.reaping todo)) (hlength : tables.length = todo.length) :
    ∃ u, (system caller path e).exec w (tables.map fun t => .app p (.reapNext t)) = some u ∧
      u.procs p = .app (.reaping []) ∧ u.place = w.place ∧ u.listeners = w.listeners := by
  induction todo generalizing w tables with
  | nil =>
      obtain rfl := List.length_eq_zero_iff.mp hlength
      exact ⟨w, rfl, hp, rfl, rfl⟩
  | cons rec todo ih =>
      obtain ⟨t, tables, rfl⟩ := List.exists_cons_of_length_eq_add_one hlength
      obtain ⟨u, hu, hend, hplace, hlisteners⟩ :=
        ih (w := (w.killed (consider t rec).2).set p (.app (.reaping todo))) World.set_self
          (Nat.succ.inj hlength)
      refine ⟨u, ?_, hend, hplace, hlisteners⟩
      rw [List.map_cons, exec_app caller path e hp rfl]
      exact hu

/-- A socket that was left is cleared away. -/
theorem exec_naming (hp : w.procs p = .app (.reaping [])) (hplace : ∀ ino, w.place ≠ .other ino) :
    ∃ u, (system caller path e).exec w (.app p .reaped :: .app p (.lookAtPath true) ::
        if w.place = .absent then [] else [.app p (.removeFile true)]) = some u ∧
      u.procs p = .app .naming ∧ u.place = .absent ∧ u.listeners = w.listeners := by
  rw [exec_app caller path e hp rfl]
  have hclear : ∀ v : World π, v.place ≠ .absent →
      v.appNext p .clearing (.removeFile true : AppStep (caller p)) =
        some ({ v with place := .absent }, .naming) := by
    intro v hthere
    simp only [World.appNext, if_neg hthere]
  cases h : w.place with
  | other ino => exact absurd h (hplace ino)
  | absent =>
      have hlook : (w.set p (.app .binding)).appNext p .binding (.lookAtPath true : AppStep (caller p)) =
          some ({ w.set p (.app .binding) with runDir := true }, .naming) := by
        simp only [World.appNext, World.set, h]
      rw [if_pos rfl, exec_app caller path e World.set_self hlook]
      exact ⟨_, rfl, World.set_self, h, rfl⟩
  | socket ino =>
      have hlook : (w.set p (.app .binding)).appNext p .binding (.lookAtPath true : AppStep (caller p)) =
          some ({ w.set p (.app .binding) with runDir := true }, .clearing) := by
        simp only [World.appNext, World.set, h]
      rw [if_neg nofun, exec_app caller path e World.set_self hlook]
      have hthere : w.place ≠ .absent := by
        rw [h]
        nofun
      rw [exec_app caller path e World.set_self (hclear _ (by exact hthere))]
      exact ⟨_, rfl, World.set_self, rfl, rfl⟩

/-- A socket is bound where nothing is. -/
theorem exec_ready (hp : w.procs p = .app .naming) (hplace : w.place = .absent) {ino : Nat}
    (hlisteners : w.listeners ino = none) :
    ∃ u, (system caller path e).exec w
        [.app p (.bindAt ino), .app p (.listen true), .app p (.setMode true)] = some u ∧
      u.procs p = .app (.ready (some ino)) ∧ u.place = .socket ino ∧
      u.listeners ino = some p := by
  have hbind : w.appNext p .naming (.bindAt ino : AppStep (caller p)) =
      some ({ w with place := .socket ino }, .named ino) := by
    simp only [World.appNext, hplace, hlisteners, and_self, if_true]
  have hlisten : ∀ v : World π, v.listeners ino = none →
      v.appNext p (.named ino) (.listen true : AppStep (caller p)) =
        some ({ v with listeners := Function.update v.listeners ino (some p) },
          .listening ino) := by
    intro v hfree
    have htake : v.listeners.take ino p = some (Function.update v.listeners ino (some p)) :=
      Locks.take_eq_some.mpr ⟨hfree, rfl⟩
    simp only [World.appNext, htake, Option.map_some]
  rw [exec_app caller path e hp hbind, exec_app caller path e World.set_self (hlisten _ (by exact hlisteners)),
    exec_app caller path e World.set_self rfl]
  exact ⟨_, rfl, World.set_self, rfl, Function.update_self ..⟩

variable {caller path e}

/-- **No history keeps the next launch from serving**: in every reachable state in which nothing
runs, and with no foreign file in the place of the socket, a launch whose system calls succeed
comes to serve, whatever locks, sockets and records those before it left. It asks about every
record that the registry lists, and whatever the process table answers, it goes on. -/
theorem relaunch (hw : (system caller path e).Reachable w) (hquiet : ∀ q, ¬ (w.procs q).alive)
    (hp : w.procs p = .idle) (hplace : ∀ ino, w.place ≠ .other ino)
    (records : List SupervisedRecord) (tables : List (ProcessTable (caller p)))
    (hlength : tables.length = records.length) (ino : Nat) :
    ∃ w', (system caller path e).exec w
        ((launchSteps w.place records tables ino).map (.app p)) = some w' ∧
      w'.procs p = .app (.ready (some ino)) ∧ w'.place = .socket ino ∧
      w'.listeners ino = some p := by
  have hv := live hw
  have hlock : w.lock () = none := Option.eq_none_iff_forall_ne_some.mpr
    fun q hq => hquiet q (hv.lock hq)
  have hfree : w.listeners ino = none :=
    Option.eq_none_iff_forall_ne_some.mpr fun q hq => hquiet q (hv.listeners hq)
  obtain ⟨w₁, hlocked, hp₁, hplace₁, hlisteners₁⟩ := exec_locked caller path e hp hlock records
  obtain ⟨w₂, hreaped, hp₂, hplace₂, hlisteners₂⟩ := exec_reap caller path e hp₁ hlength
  have hsame : w₂.place = w.place := hplace₂.trans hplace₁
  obtain ⟨w₃, hnaming, hp₃, hplace₃, hlisteners₃⟩ := 
    exec_naming caller path e hp₂ fun ino => hsame ▸ hplace ino
  have hfree₃ : w₃.listeners ino = none := by
    rw [hlisteners₃, hlisteners₂, hlisteners₁]
    exact hfree
  obtain ⟨w₄, hready, hserving⟩ := exec_ready caller path e hp₃ hplace₃ hfree₃
  refine ⟨w₄, ?_, hserving⟩
  have hsteps : (launchSteps w.place records tables ino).map (Action.app p) =
      [.app p .launch, .app p (.createDir true), .app p (.flock true),
        .app p (.listCurrentBoot records)] ++ (tables.map fun t => .app p (.reapNext t)) ++
        (.app p .reaped :: .app p (.lookAtPath true) ::
          if w₂.place = .absent then [] else [.app p (.removeFile true)]) ++
        [.app p (.bindAt ino), .app p (.listen true), .app p (.setMode true)] := by
    rw [hsame, launchSteps]
    split <;> simp
  rw [hsteps, System.exec_append, System.exec_append, System.exec_append, hlocked]
  simp only [Option.bind_some, hreaped, hnaming, hready]

end Relaunch

/-! ### A refused connection -/

/-- A launch that comes to serve. -/
def served : List (Action sampleCaller) :=
  launched 0 [] ++ [.app 0 .reaped, .app 0 (.lookAtPath true), .app 0 (.bindAt 5),
    .app 0 (.listen true), .app 0 (.setMode true), .client 1 .start]

/-- A run of the tool whose connection is refused. -/
def refused : List (Action sampleCaller) :=
  [.client 1 (.lookAtPath true), .client 1 (.connect false), .client 1 (.lookAtDir none),
    .client 1 (.flock none)]

/-- Whether the process 0 serves. -/
def servedBy0 (w : World Nat) : Bool :=
  match w.procs 0 with
  | .app (.ready (some _)) => true
  | _ => false

/-- What the process 1 was told. -/
def toldTo1 (w : World Nat) : Option Exchange :=
  match w.procs 1 with
  | .client (.told ex) => some ex
  | _ => none

theorem told_while_serving_refused : ∃ ex, (∃ w : World Nat, toldTo1 w = some ex) ∧
    ex.supervisor ≠ .notRunning := by
  have hasked : ((system sampleCaller [] []).exec emptyWorld served).any (fun w =>
      (match w.procs 1 with | .client .asking => true | _ => false) &&
        ((system sampleCaller [] []).execWhile (fun w _ => servedBy0 w) w refused).any
          (fun w => (toldTo1 w).isSome)) = true := rfl
  obtain ⟨w, hw, hp⟩ := System.exists_of_exec served _ emptyWorld_reachable hasked
  obtain ⟨hask, hrefused⟩ := Bool.and_eq_true_iff.mp hp
  have hask' : w.procs 1 = .client .asking := by
    split at hask
    next heq => exact heq
    next => cases hask
  obtain ⟨w', hrun, htold⟩ := (Option.any_eq_true ..).mp hrefused
  obtain ⟨ex, hex⟩ := Option.isSome_iff_exists.mp htold
  have hserving : ∀ (w : World Nat) (action : Action sampleCaller), servedBy0 w = true →
      w.Serving := by
    intro w _ h
    unfold servedBy0 at h
    split at h
    next ino heq => exact ⟨0, ino, heq⟩
    next => cases h
  have htold' : w'.procs 1 = .client (.told ex) := by
    unfold toldTo1 at hex
    split at hex
    next heq =>
      cases hex
      exact heq
    next => cases hex
  exact ⟨ex, ⟨w', hex⟩,
    (told_while_serving hw hask' (System.leads_of_execWhile hserving hrun) htold').1⟩

/-- An app that clears a socket away, serves, starts a service and is killed. -/
def servedAndKilled : List (Action sampleCaller) :=
  launched 0 [] ++ [.app 0 .reaped, .app 0 (.lookAtPath true), .app 0 (.removeFile true),
    .app 0 (.bindAt 5), .app 0 (.listen true), .app 0 (.setMode true), .spawn 0 42, .stop 0]

/-- A launch after one that was killed: it finds the socket and the service that it left. -/
theorem relaunch_killed : ∃ w : World Nat, w.procs 1 = .app (.ready (some 6)) ∧
    w.place = .socket 6 ∧ w.listeners 6 = some 1 := by
  have hinit : (system sampleCaller [] []).Reachable { emptyWorld with place := .socket 9 } :=
    .init ⟨fun _ => rfl, rfl, rfl, fun _ => rfl⟩
  obtain ⟨w, hkilled, hended, hplace⟩ : ∃ w, (system sampleCaller [] []).exec
      { emptyWorld with place := .socket 9 } servedAndKilled = some w ∧
        w.procs 0 = .ended ∧ w.place = .socket 5 := ⟨_, rfl, rfl, rfl⟩
  have hidle : ∀ q, q ≠ 0 → w.procs q = .idle := by
    intro q hq
    refine procs_exec (fun action haction => ?_) hkilled
    have hmover : action.mover = some 0 ∨ action.mover = none := by
      revert action
      simp [servedAndKilled, launched, Action.mover]
    rcases hmover with hmover | hmover <;> simp [hmover, Ne.symm hq]
  have hquiet : ∀ q, ¬ (w.procs q).alive := by
    intro q
    by_cases hq : q = 0
    · rw [hq, hended]
      exact id
    · rw [hidle q hq]
      exact id
  obtain ⟨w', -, hserves⟩ := relaunch (System.reaches_of_exec hinit hkilled) hquiet
    (hidle 1 (by decide)) (by rw [hplace]; nofun) [⟨"nginx".toList, ⟨42, .unix 0 0⟩, 0⟩]
    [sampleTable] rfl 6
  exact ⟨w', hserves⟩

end OpenVHost.Instance
