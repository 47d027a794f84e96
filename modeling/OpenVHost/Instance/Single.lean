/-
# One instance at a time

Whoever is past the lock holds it until it ends, however launches, probes and crashes come
between each other's steps. So a launch that reaps finds no other instance whose services it
could take for orphans, whatever its registry lists and whatever it is told of the pids.

* `Sound`, `sound` — who holds the lock, and whose services run.
* `reap_spares` — what a reap ends belonged to an app that had ended before.
-/

import OpenVHost.Instance.Model

namespace OpenVHost.Instance

open Cli Control Lts Orphan

variable {π : Type} [DecidableEq π] {caller : π → Caller} {path e : List Char}

/-! ### What a step changes -/

/-- Whether a launch has come past the lock. -/
def App.pastLock : App → Bool
  | acquiring _ | locking _ | waiting | alreadyRunning | runDirUnusable => false
  | _ => true

/-- What a step of one process leaves as it is, as far as others can tell. -/
structure Local (w w' : World π) (p : π) : Prop where
  procs : w'.procs = w.procs
  runDir : w.runDir = true → w'.runDir = true
  lock : ∀ q, q ≠ p → (w'.lock () = some q ↔ w.lock () = some q)
  listeners : ∀ q, q ≠ p → ∀ ino, w'.listeners ino = some q ↔ w.listeners ino = some q
  services : ∀ pid q, w'.services pid = some q → w.services pid = some q

/-- A step of a launch that has nothing to do with the lock. -/
structure Unlocked (w w' : World π) (p : π) (a a' : App) : Prop extends Local w w' p where
  same : w'.lock = w.lock
  past : a'.pastLock = true → a.pastLock = true
  supervises : a.supervises = true → a'.supervises = true
  place : w'.place = w.place ∨ a.pastLock = true

section Steps

variable {w w' : World π} {p q : π} {me : Caller} {a a' : App} {c c' : Client}
  {step : AppStep me}

omit [DecidableEq π] in
theorem Local.refl (w : World π) (p : π) : Local w w p where
  procs := rfl
  runDir := id
  lock _ _ := Iff.rfl
  listeners _ _ _ := Iff.rfl
  services _ _ h := h

omit [DecidableEq π] in
theorem Local.of_take {lock : Locks Unit π} (h : w.lock.take () p = some lock) :
    Local w { w with lock } p :=
  { Local.refl w p with lock := fun _ hq => Locks.others_take h hq }

/-- What the end of a process leaves. -/
def World.released (w : World π) (p : π) : World π :=
  { w with lock := w.lock.giveAll p, listeners := w.listeners.giveAll p }

theorem Local.released (w : World π) (p : π) : Local w (w.released p) p :=
  { Local.refl w p with
    lock := fun _ hq => Locks.others_giveAll hq
    listeners := fun _ hq _ => Locks.others_giveAll hq }

/-- **A step of a launch either has nothing to do with the lock, or takes it.** -/
theorem appNext_cases (h : w.appNext p a step = some (w', a')) :
    Unlocked w w' p a a' ∨ (a.pastLock = false ∧ a' = .locked ∧
      ∃ lock, w.lock.take () p = some lock ∧ w' = { w with lock }) := by
  have hsame : ∀ {b b' : App}, (b'.pastLock = true → b.pastLock = true) →
      (b.supervises = true → b'.supervises = true) → Unlocked w w p b b' := fun hpast hsup =>
    { Local.refl w p with same := rfl, past := hpast, supervises := hsup, place := .inl rfl }
  have hlisteners : ∀ {b b' : App}, (b'.pastLock = true → b.pastLock = true) →
      (b.supervises = true → b'.supervises = true) →
      Unlocked w { w with listeners := w.listeners.giveAll p } p b b' := fun hpast hsup =>
    { Local.refl w p with
      same := rfl, past := hpast, supervises := hsup, place := .inl rfl
      listeners := fun _ hq _ => Locks.others_giveAll hq }
  have hplace : ∀ {b b' : App} (place : Place), b.pastLock = true →
      (b.supervises = true → b'.supervises = true) →
      Unlocked w { w with place } p b b' := fun _ hpast hsup =>
    { Local.refl w p with
      same := rfl, past := fun _ => hpast, supervises := hsup, place := .inr hpast }
  have hremoved : ∀ quit, (App.removed quit).supervises = true := by decide
  unfold World.appNext at h
  split at h
  case h_1 again =>
    cases h
    exact .inl { Local.refl w p with
      runDir := fun _ => rfl, same := rfl, past := id, supervises := id, place := .inl rfl }
  case h_2 again =>
    cases h
    exact .inl (hsame id id)
  case h_3 again =>
    split at h
    next lock hlock =>
      cases h
      exact .inr ⟨rfl, rfl, lock, hlock, rfl⟩
    next =>
      cases h
      cases again with
      | false => exact .inl (hsame id id)
      | true => exact .inl (hsame id id)
  case h_4 =>
    cases h
    exact .inl (hsame id id)
  case h_5 =>
    cases h
    exact .inl (hsame id id)
  case h_6 =>
    cases h
    exact .inl (hsame id id)
  case h_7 rec todo t =>
    cases h
    refine .inl { Local.refl w p with
      services := fun pid q hq => ?_, same := rfl, past := id, supervises := id, place := .inl rfl }
    unfold World.killed at hq
    dsimp only at hq
    split_ifs at hq
    exact hq
  case h_8 =>
    cases h
    exact .inl (hsame id id)
  case h_9 =>
    cases h
    refine .inl { Local.refl w p with
      runDir := fun _ => rfl, same := rfl, past := fun _ => rfl, supervises := nofun
      place := .inl rfl }
  case h_10 =>
    cases h
    exact .inl (hsame id nofun)
  case h_11 =>
    split_ifs at h with habsent
    · cases h
      exact .inl (hsame id nofun)
    · cases h
      exact .inl (hplace _ rfl nofun)
  case h_12 =>
    cases h
    exact .inl (hsame id nofun)
  case h_13 ino =>
    split_ifs at h with hfree
    cases h
    exact .inl (hplace _ rfl nofun)
  case h_14 =>
    cases h
    exact .inl (hsame id nofun)
  case h_15 ino =>
    obtain ⟨listeners, htake, heq⟩ := Option.map_eq_some_iff.mp h
    cases heq
    exact .inl { Local.refl w p with
      listeners := fun _ hq _ => Locks.others_take htake hq
      same := rfl, past := id, supervises := id, place := .inl rfl }
  case h_16 =>
    cases h
    exact .inl (hsame id nofun)
  case h_17 =>
    split at h
    · cases h
      exact .inl (hlisteners id nofun)
    · cases h
      exact .inl (hsame id nofun)
    · cases h
      exact .inl (hsame id nofun)
  case h_18 =>
    cases h
    exact .inl (hlisteners id nofun)
  case h_19 =>
    cases h
    exact .inl (hlisteners id id)
  case h_20 =>
    cases h
    exact .inl (hsame id id)
  case h_21 =>
    cases h
    exact .inl (hsame id id)
  case h_22 ino quit ok =>
    cases h
    refine .inl (hsame (fun _ => rfl) fun _ => ?_)
    split_ifs
    · rfl
    · exact hremoved quit
  case h_23 ino quit =>
    cases h
    exact .inl (hplace _ rfl fun _ => hremoved quit)
  case h_24 ino quit =>
    cases h
    exact .inl (hsame (fun _ => rfl) fun _ => hremoved quit)
  case h_25 => cases h

/-- What a run of the command line tool does with the lock. -/
structure Asks (w w' : World π) (p : π) (c c' : Client) : Prop extends Local w w' p where
  place : w'.place = w.place
  holds : ∀ {err}, c' = .holding err → w'.lock () = some p

theorem clientNext_asks {step : ClientStep} (h : w.clientNext path e p c step = some (w', c')) :
    Asks w w' p c c' := by
  have hsame : ∀ {c' : Client}, (∀ err, c' ≠ .holding err) → Asks w w p c c' := fun hnot =>
    { Local.refl w p with place := rfl, holds := fun heq => absurd heq (hnot _) }
  unfold World.clientNext at h
  split at h
  case h_10 err =>
    split at h
    next lock hlock =>
      cases h
      exact { Local.of_take hlock with place := rfl, holds := fun _ => Locks.held_of_take hlock }
    next =>
      cases h
      exact hsame nofun
  case h_11 err =>
    cases h
    exact { Local.refl w p with
      lock := fun _ hq => Locks.others_give hq
      place := rfl, holds := nofun }
  case h_12 => cases h
  case h_1 =>
    cases h
    refine hsame fun err => ?_
    split <;> nofun
  case h_3 ok =>
    cases h
    refine hsame fun err => ?_
    split
    · nofun
    · split_ifs <;> nofun
    · nofun
  case h_8 err =>
    cases h
    refine hsame fun err => ?_
    split_ifs <;> nofun
  all_goals
    cases h
    exact hsame nofun

end Steps

/-- A step, with what it says of the process that takes it. -/
inductive Moves (socket error : List Char) (w : World π) : Action caller → World π → Prop where
  | launch {p step} (hp : w.procs p = .idle) (hstep : step.isLaunch = true) :
      Moves socket error w (.app p step) (w.set p (.app (.acquiring false)))
  | app {p step a a' u} (hp : w.procs p = .app a) (h : w.appNext p a step = some (u, a')) :
      Moves socket error w (.app p step) (u.set p (.app a'))
  | ask {p step} (hp : w.procs p = .idle) :
      Moves socket error w (.client p step) (w.set p (.client .asking))
  | client {p step c c' u} (hp : w.procs p = .client c)
      (h : w.clientNext socket error p c step = some (u, c')) :
      Moves socket error w (.client p step) (u.set p (.client c'))
  | spawn {p pid a} (hp : w.procs p = .app a) (hsup : a.supervises = true) :
      Moves socket error w (.spawn p pid)
        { w with services := fun pid' => if pid' = pid then some p else w.services pid' }
  | finish {pid} :
      Moves socket error w (.finish pid)
        { w with services := fun pid' => if pid' = pid then none else w.services pid' }
  | stop {p} (hp : (∃ a, w.procs p = .app a) ∨ ∃ c, w.procs p = .client c) :
      Moves socket error w (.stop p) ((w.released p).set p .ended)

/-! ### Who holds the lock -/

/-- What holds of every state that a run reaches. -/
structure Sound (w : World π) : Prop where
  holds : ∀ {p a}, w.procs p = .app a → a.pastLock = true → w.lock () = some p
  probes : ∀ {p err}, w.procs p = .client (.holding err) → w.lock () = some p
  owned : ∀ {pid p}, w.services pid = some p →
    w.procs p = .ended ∨ ∃ a, w.procs p = .app a ∧ a.supervises = true

section Sound

variable {w u w' : World π} {p q : π} {x : Process}

theorem moves_of_next {action : Action caller} (h : w.next path e action = some w') :
    Moves path e w action w' := by
  unfold World.next at h
  cases action with
  | app p step =>
      dsimp only at h
      split at h
      next hp =>
        split_ifs at h with hstep
        cases h
        exact .launch hp hstep
      next a hp =>
        obtain ⟨⟨u, a'⟩, hnext, rfl⟩ := Option.map_eq_some_iff.mp h
        exact .app hp hnext
      all_goals cases h
  | client p step =>
      dsimp only at h
      split at h
      next hp =>
        split_ifs at h
        cases h
        exact .ask hp
      next c hp =>
        obtain ⟨⟨u, c'⟩, hnext, rfl⟩ := Option.map_eq_some_iff.mp h
        exact .client hp hnext
      all_goals cases h
  | spawn p pid =>
      dsimp only at h
      split at h
      next a hp =>
        split_ifs at h with hsup
        cases h
        exact .spawn hp hsup.1
      next => cases h
  | finish pid =>
      cases h
      exact .finish
  | stop p =>
      dsimp only at h
      split at h
      next a hp =>
        cases h
        exact .stop (.inl ⟨a, hp⟩)
      next c hp =>
        cases h
        exact .stop (.inr ⟨c, hp⟩)
      next => cases h

theorem World.set_self : (w.set p x).procs p = x := if_pos rfl

theorem World.set_of_ne (h : q ≠ p) : (w.set p x).procs q = w.procs q := if_neg h

theorem App.pastLock_of_supervises {a : App} (h : a.supervises = true) : a.pastLock = true := by
  cases a <;> first | rfl | cases h

/-- A process goes on, and the others do not. -/
theorem Sound.set (hs : Sound w) (hlocal : Local w u p)
    (happ : ∀ {a}, x = .app a → a.pastLock = true → u.lock () = some p)
    (hclient : ∀ {err}, x = .client (.holding err) → u.lock () = some p)
    (howner : w.procs p = .ended ∨ (∃ a, w.procs p = .app a ∧ a.supervises = true) →
      x = .ended ∨ ∃ a, x = .app a ∧ a.supervises = true) : Sound (u.set p x) where
  holds {q a} hq hpast := by
    by_cases hqp : q = p
    · subst hqp
      rw [World.set_self] at hq
      exact happ hq hpast
    · rw [World.set_of_ne hqp, hlocal.procs] at hq
      exact (hlocal.lock q hqp).mpr (hs.holds hq hpast)
  probes {q err} hq := by
    by_cases hqp : q = p
    · subst hqp
      rw [World.set_self] at hq
      exact hclient hq
    · rw [World.set_of_ne hqp, hlocal.procs] at hq
      exact (hlocal.lock q hqp).mpr (hs.probes hq)
  owned {pid q} hpid := by
    have hbefore := hs.owned (hlocal.services pid q hpid)
    by_cases hqp : q = p
    · subst hqp
      rw [World.set_self]
      exact howner hbefore
    · rw [World.set_of_ne hqp, hlocal.procs]
      exact hbefore

theorem Sound.app (hs : Sound w) {a a' : App} {step : AppStep (caller p)}
    (hp : w.procs p = .app a) (h : w.appNext p a step = some (u, a')) :
    Sound (u.set p (.app a')) := by
  have hnotEnded : w.procs p ≠ .ended := by
    rw [hp]
    nofun
  rcases appNext_cases h with hunlocked | ⟨hpast, rfl, lock, htake, rfl⟩
  · refine hs.set hunlocked.toLocal ?_ nofun ?_
    · rintro a'' ⟨⟩ hpast
      rw [hunlocked.same]
      exact hs.holds hp (hunlocked.past hpast)
    · rintro (hended | ⟨b, hb, hsup⟩)
      · exact absurd hended hnotEnded
      · cases hp.symm.trans hb
        exact .inr ⟨a', rfl, hunlocked.supervises hsup⟩
  · refine hs.set (Local.of_take htake) (fun _ _ => Locks.held_of_take htake) nofun ?_
    rintro (hended | ⟨b, hb, hsup⟩)
    · exact absurd hended hnotEnded
    · cases hp.symm.trans hb
      rw [App.pastLock_of_supervises hsup] at hpast
      cases hpast

theorem Sound.client (hs : Sound w) {c c' : Client} {step : ClientStep}
    (hp : w.procs p = .client c) (h : w.clientNext path e p c step = some (u, c')) :
    Sound (u.set p (.client c')) := by
  have hasks := clientNext_asks h
  refine hs.set hasks.toLocal nofun (fun heq => hasks.holds (Process.client.inj heq)) ?_
  rintro (hended | ⟨b, hb, hsup⟩)
  · cases hp.symm.trans hended
  · cases hp.symm.trans hb

/-- Nobody who is idle holds anything or owns a service. -/
theorem Sound.begin (hs : Sound w) (hp : w.procs p = .idle)
    (happ : ∀ {a}, x = .app a → a.pastLock = false)
    (hclient : ∀ {err}, x ≠ .client (.holding err)) :
    Sound (w.set p x) := by
  refine hs.set (Local.refl w p) ?_ (fun heq => absurd heq hclient) ?_
  · intro a heq hpast
    rw [happ heq] at hpast
    cases hpast
  · rintro (hended | ⟨b, hb, hsup⟩)
    · cases hp.symm.trans hended
    · cases hp.symm.trans hb

theorem Sound.next (hs : Sound w) {action : Action caller}
    (h : w.next path e action = some w') : Sound w' := by
  cases moves_of_next h with
  | launch hp _ => exact hs.begin hp (by rintro a ⟨⟩; rfl) nofun
  | app hp hnext => exact hs.app hp hnext
  | ask hp => exact hs.begin hp nofun nofun
  | client hp hnext => exact hs.client hp hnext
  | @spawn p pid a hp hsup =>
      refine ⟨hs.holds, hs.probes, fun {pid' q} hq => ?_⟩
      dsimp only at hq ⊢
      split_ifs at hq with heq
      · cases hq
        exact .inr ⟨a, hp, hsup⟩
      · exact hs.owned hq
  | finish =>
      refine ⟨hs.holds, hs.probes, fun {pid' q} hq => ?_⟩
      dsimp only at hq ⊢
      split_ifs at hq
      exact hs.owned hq
  | @stop p _ => exact hs.set (Local.released w p) nofun nofun fun _ => .inl rfl

/-- **Who is past the lock holds it**, in every state that a run reaches. -/
theorem sound (h : (system caller path e).Reachable w) : Sound w := by
  refine h.invariant (fun w hw => ?_) fun w action w' hs _ hnext => hs.next hnext
  obtain ⟨hidle, hlock, -, hservices⟩ := hw
  constructor
  · intro p a hp
    cases (hidle p).symm.trans hp
  · intro p err hp
    cases (hidle p).symm.trans hp
  · intro pid p hpid
    cases (hservices pid).symm.trans hpid

/-- Two launches are never past the lock at once. -/
theorem pastLock_unique (hw : (system caller path e).Reachable w) {a b : App}
    (hp : w.procs p = .app a) (ha : a.pastLock = true) (hq : w.procs q = .app b)
    (hb : b.pastLock = true) : p = q :=
  Option.some.inj (((sound hw).holds hp ha).symm.trans ((sound hw).holds hq hb))

theorem reaping_of_reapNext {t : ProcessTable (caller p)}
    (h : (system caller path e).next w (.app p (.reapNext t)) = some w') :
    ∃ todo, w.procs p = .app (.reaping todo) := by
  have hmoves : Moves path e w (.app p (.reapNext t)) w' := moves_of_next h
  cases hmoves with
  | launch _ hstep => cases hstep
  | @app p t a a' u hp hnext =>
      cases a with
      | reaping todo => exact ⟨todo, hp⟩
      | ready socket => cases socket <;> cases hnext
      | _ => cases hnext

/-- **A reap meets orphans only**: whenever a launch takes a step of its reap, every service that
runs was started by an app that has ended, and no other launch is past the lock; whatever the
registry lists, whatever the process table answers, and however launches, probes and ends of
processes came between. -/
theorem reap_spares (hw : (system caller path e).Reachable w) {t : ProcessTable (caller p)}
    (h : (system caller path e).next w (.app p (.reapNext t)) = some w') :
    (∀ pid b, w.services pid = some b → w.procs b = .ended) ∧
      ∀ q a, w.procs q = .app a → a.pastLock = true → q = p := by
  obtain ⟨todo, hp⟩ := reaping_of_reapNext h
  constructor
  · intro pid b hpid
    rcases (sound hw).owned hpid with hended | ⟨a, hb, hsup⟩
    · exact hended
    · have hsame : b = p := pastLock_unique hw hb (App.pastLock_of_supervises hsup) hp rfl
      subst hsame
      cases hp.symm.trans hb
      cases hsup
  · intro q a hq ha
    exact pastLock_unique hw hq ha hp rfl

end Sound

/-! ### A crash, and the launch after it -/

def sampleCaller : Nat → Caller := fun _ => ⟨7, 7⟩

def emptyWorld : World Nat :=
  ⟨false, Locks.free, .absent, Locks.free, fun _ => none, fun _ => .idle⟩

/-- A launch until it reaps, with what the registry lists. -/
def launched (p : Nat) (records : List SupervisedRecord) : List (Action sampleCaller) :=
  [.app p .launch, .app p (.createDir true), .app p (.flock true),
    .app p (.listCurrentBoot records)]

/-- An app starts a service and is killed; another finds the service in the registry. -/
def crashed : List (Action sampleCaller) :=
  launched 0 [] ++ [.app 0 .reaped, .app 0 (.lookAtPath false), .spawn 0 42, .stop 0] ++
    launched 1 [⟨"nginx".toList, ⟨42, .unix 0 0⟩, 0⟩]

theorem emptyWorld_reachable : (system sampleCaller path e).Reachable emptyWorld :=
  .init ⟨fun _ => rfl, rfl, rfl, fun _ => rfl⟩

theorem reap_spares_crashed : ∃ w : World Nat, w.services 42 = some 0 ∧ w.procs 0 = .ended := by
  have hend : ((system sampleCaller [] []).exec emptyWorld crashed).any (fun w =>
      w.services 42 == some 0 && ((system sampleCaller [] []).next w
        (.app 1 (.reapNext sampleTable))).isSome) = true := rfl
  obtain ⟨w, hw, hp⟩ := System.exists_of_exec crashed _ emptyWorld_reachable hend
  obtain ⟨hservice, hnext⟩ := Bool.and_eq_true_iff.mp hp
  obtain ⟨w', hw'⟩ := Option.isSome_iff_exists.mp hnext
  exact ⟨w, eq_of_beq hservice, (reap_spares hw hw').1 42 0 (eq_of_beq hservice)⟩

end OpenVHost.Instance
