/-
# What the install slot tells

Whatever the slot describes is the run of the command that holds the guard, a cancel aborts
that run or none, and without a command under the guard the slot is empty: this holds in
every run. That at most one package run is in progress, and none once a quit has aborted what
it found, takes more:

* a quit looks at the slot while every run in progress is in it,
* nothing starts between its look and its abort, nor after the abort,
* the aborted run ends within the bound,
* no task is dropped while its extraction is on the blocking pool.

* `App.Orderly` — the steps that meet this.
* `slot_tells_truth` — in a run of such steps, all of it holds in every state.
-/

import OpenVHost.Install.Model

namespace OpenVHost.Install

variable {a a' : App} {c c' : RunId} {command : Command} {phase : Phase} {answer : Answer}

/-! ### What is said of a state -/

/-- The phases under the guard. -/
def Phase.holds : Phase → Bool
  | .called | .returned => false
  | .locked | .spawned | .awaiting | .joined | .removing | .finishing => true

def AbortInstall.pastAbort : AbortInstall → Bool
  | .begun | .took _ => false
  | .aborting _ | .ended _ => true

namespace App

variable (a)

/-- The run of a command is in progress: its task is there, an extraction of it goes on, or
the command removes the files. -/
def InProgress (c : RunId) : Prop :=
  (∃ t, a.tasks c = some t ∧ (t.live = true ∨ t.extracting = true)) ∨
    ∃ command, a.commands c = some (command, .removing)

/-- A run in progress that is not in the slot. -/
def Unseen (c : RunId) : Prop :=
  ∃ command, (a.commands c = some (command, .spawned) ∧ a.isFinished c = false) ∨
    a.commands c = some (command, .removing)

def Aborted (c : RunId) : Prop := ∃ t, a.tasks c = some t ∧ t.aborted = true

/-- What may be in progress beside a quit. -/
def Still : AbortInstall → Prop
  | .begun | .took _ => True
  | .aborting c => ∀ c', a.InProgress c' → c' = c
  | .ended _ => ∀ c, ¬ a.InProgress c

/-- The slot tells the truth. -/
structure TellsTruth : Prop where
  one : ∀ c c', a.InProgress c → a.InProgress c' → c = c'
  describes : ∀ r, a.running = some r → ∃ run phase, a.guard = some r.abort ∧
    a.commands r.abort = some (.package run, phase) ∧ (phase = .awaiting ∨ phase = .joined) ∧
    r = run.running r.abort
  cancels : ∀ request c, ¬ a.Aborted c → (a.cancel request).1.Aborted c →
    ∃ run phase, a.running = some (run.running c) ∧
      a.commands c = some (.package run, phase) ∧ run.tag = request.tag
  empty : (∀ c command phase, a.commands c = some (command, phase) → phase.holds = false) →
    a.running = none
  quits : ∀ q x, a.quits q = some x → a.Still x

/-- **The condition**: no step starts a run behind a quit's back, nor leaves one behind. A quit
reads the slot once and aborts the run that it finds there; it sees neither a run that its
command has not put into the slot yet nor a removal. So no command starts its run once a quit
is past the abort, a quit finds the slot empty only where no run is unseen, nothing else is in
progress beside the run that it took, and it waits for that run's end. A task that is dropped
while it extracts leaves an extraction that goes on. -/
def Orderly : Action → Prop
  | .command c answer =>
      answer ≠ .failed → (∃ run, a.commands c = some (.package run, .locked)) →
        ∀ q x, a.quits q = some x → x.pastAbort = false
  | .task c .drop => ∀ t, a.tasks c = some t → t.extracting = false
  | .quit q answer =>
      match a.quits q with
      | some .begun => a.running = none → ∀ c, ¬ a.Unseen c
      | some (.took c) => ∀ c', a.InProgress c' → c' = c
      | some (.aborting c) => answer = .elapsed → a.isFinished c = true
      | some (.ended _) | none => True
  | _ => True

end App

/-! ### What every run keeps -/

/-- What a command in a phase has in the slot. -/
def slotOf (c : RunId) : Command × Phase → Option RunningInstall
  | (.package run, .awaiting) | (.package run, .joined) => some (run.running c)
  | _ => none

/-- The task that a command may have in a phase. -/
def Phase.Fits : Phase → Task → Prop
  | .called, _ | .locked, _ | .removing, _ => False
  | .spawned, _ | .awaiting, _ => True
  | .joined, t | .finishing, t | .returned, t => t.live = false

namespace App

/-- The slot of the command under the guard. -/
def described (a : App) : Option RunningInstall :=
  a.guard.bind fun c => (a.commands c).bind (slotOf c)

structure Coherent (a : App) : Prop where
  fresh : ∀ c, a.nextCommand ≤ c → a.commands c = none
  guard : ∀ c command phase, a.commands c = some (command, phase) → phase.holds = true →
    a.guard = some c
  slot : a.running = a.described
  tasks : ∀ c t, a.tasks c = some t → ∃ run phase, a.commands c = some (.package run, phase) ∧
    phase.Fits t

theorem described_of_guard (hg : a.guard = some c) (hslot : a.running = slotOf c (command, phase)) :
    a.running = (a.setPhase c command phase).described := by
  rw [hslot]
  simp [described, setPhase, hg]

theorem described_of_eq {phase' : Phase} (hc : a.commands c = some (command, phase))
    (h : slotOf c (command, phase') = slotOf c (command, phase)) :
    (a.setPhase c command phase').described = a.described := by
  unfold described setPhase
  cases hg : a.guard with
  | none => rfl
  | some d =>
      by_cases hd : d = c
      · subst hd
        simp [hc, h]
      · simp [Function.update_of_ne hd]

/-- **A command goes on to a phase**, which is all that changes for the other commands. -/
theorem Coherent.turn {b : App} {phase' : Phase} (h : a.Coherent)
    (hc : a.commands c = some (command, phase)) (hnext : b.nextCommand = a.nextCommand)
    (hcommands : b.commands = a.commands)
    (hguard : ∀ d, d ≠ c → a.guard = some d → b.guard = some d)
    (hholds : phase'.holds = true → b.guard = some c)
    (htasks : ∀ d, d ≠ c → b.tasks d = a.tasks d)
    (hfits : ∀ t, b.tasks c = some t → (∃ run, command = .package run) ∧ phase'.Fits t)
    (hslot : b.running = (b.setPhase c command phase').described) :
    (b.setPhase c command phase').Coherent where
  fresh d hd := by
    have hne : d ≠ c := by
      rintro rfl
      have := h.fresh d (hnext ▸ hd)
      rw [hc] at this
      cases this
    rw [setPhase_of_ne hne, hcommands]
    exact h.fresh d (hnext ▸ hd)
  guard d command' phase'' hd hholds' := by
    by_cases hdc : d = c
    · subst hdc
      rw [setPhase_self] at hd
      cases hd
      exact hholds hholds'
    · rw [setPhase_of_ne hdc, hcommands] at hd
      exact hguard d hdc (h.guard d command' phase'' hd hholds')
  slot := hslot
  tasks d t hd := by
    by_cases hdc : d = c
    · subst hdc
      obtain ⟨⟨run, rfl⟩, hfit⟩ := hfits t hd
      exact ⟨run, phase', setPhase_self, hfit⟩
    · obtain ⟨run, phase'', hcommand, hfit⟩ := h.tasks d t ((htasks d hdc).symm.trans hd)
      refine ⟨run, phase'', ?_, hfit⟩
      rw [setPhase_of_ne hdc, hcommands]
      exact hcommand

/-- The tasks are all that changes, and none comes back to life. -/
theorem Coherent.of_tasks {t' : Task} (h : a.Coherent) {t : Task} (ht : a.tasks c = some t)
    (hlive : t'.live = true → t.live = true) : (a.setTask c (some t')).Coherent where
  fresh := h.fresh
  guard := h.guard
  slot := h.slot
  tasks d u hd := by
    by_cases hdc : d = c
    · subst hdc
      rw [setTask_self] at hd
      cases hd
      obtain ⟨run, phase, hcommand, hfit⟩ := h.tasks d t ht
      refine ⟨run, phase, hcommand, ?_⟩
      cases phase <;> simp only [Phase.Fits] at hfit ⊢
      all_goals
        rw [Bool.eq_false_iff] at hfit ⊢
        exact fun h => hfit (hlive h)
    · exact h.tasks d u ((setTask_of_ne hdc).symm.trans hd)

theorem setTask_none (c : RunId) (h : a.tasks c = none) : a.setTask c none = a := by
  unfold setTask
  rw [← h, Function.update_eq_self]

theorem Coherent.abort (h : a.Coherent) (c : RunId) : (a.abort c).Coherent := by
  unfold App.abort
  cases ht : a.tasks c with
  | none => simpa [setTask_none c ht] using h
  | some t => exact h.of_tasks ht id

/-- A turn that touches neither the guard nor the slot, between phases that agree on both. -/
theorem Coherent.stay {phase' : Phase} (h : a.Coherent)
    (hc : a.commands c = some (command, phase)) (hholds : phase'.holds = true → phase.holds = true)
    (hfits : ∀ t, phase.Fits t → a.tasks c = some t → phase'.Fits t)
    (hslot : slotOf c (command, phase') = slotOf c (command, phase)) :
    (a.setPhase c command phase').Coherent := by
  refine h.turn hc rfl rfl (fun _ _ hd => hd) (fun hp => h.guard c command phase hc (hholds hp))
    (fun _ _ => rfl) ?_ (h.slot.trans (described_of_eq hc hslot).symm)
  intro t ht
  obtain ⟨run, _, hcommand, hfit⟩ := h.tasks c t ht
  rw [hc] at hcommand
  cases hcommand
  exact ⟨⟨run, rfl⟩, hfits t hfit ht⟩

theorem Coherent.commandStep (h : a.Coherent) (hc : a.commands c = some (command, phase))
    (hn : a.commandStep c command answer phase = some a') : a'.Coherent := by
  cases phase <;> simp only [App.commandStep] at hn
  case called =>
    have hno : ∀ t, a.tasks c ≠ some t := by
      intro t ht
      obtain ⟨_, _, hcommand, hfit⟩ := h.tasks c t ht
      rw [hc] at hcommand
      cases hcommand
      exact hfit
    have hreturn : (a.setPhase c command .returned).Coherent :=
      h.stay hc (fun hp => by cases hp) (fun t hfit _ => hfit.elim) (by cases command <;> rfl)
    split_ifs at hn with hfail hfree hrescan
    · cases hn
      exact hreturn
    · cases hn
      refine h.turn hc rfl rfl ?_ (fun _ => rfl) (fun _ _ => rfl) (fun t ht => (hno t ht).elim) ?_
      · intro d _ hd
        rw [hfree] at hd
        cases hd
      · refine described_of_guard rfl (h.slot.trans ?_)
        rw [described, hfree]
        cases command <;> rfl
    · cases hn
      exact hreturn
  case locked =>
    have hfinish : (a.setPhase c command .finishing).Coherent :=
      h.stay hc (fun _ => rfl) (fun t hfit _ => hfit.elim) (by cases command <;> rfl)
    split_ifs at hn with hfail
    · cases hn
      exact hfinish
    · cases command with
      | rescan =>
          cases hn
          exact hfinish
      | package run =>
          have hguard := h.guard c _ _ hc rfl
          have hspawn : ∀ work, ((a.setTask c (some (.spawn work))).setPhase c (.package run)
              .spawned).Coherent := by
            intro work
            refine h.turn hc rfl rfl (fun _ _ hd => hd) (fun _ => hguard)
              (fun d hd => setTask_of_ne hd) (fun _ _ => ⟨⟨run, rfl⟩, trivial⟩)
              (described_of_guard hguard ?_)
            exact h.slot.trans (by simp [described, hguard, hc, slotOf])
          cases hwork : run.work <;> simp only [hwork] at hn <;> cases hn
          · exact hspawn _
          · exact hspawn _
          · exact h.stay hc (fun _ => rfl) (fun t hfit _ => hfit.elim) rfl
  case spawned =>
    cases command with
    | rescan => cases hn
    | package run =>
        cases hn
        have hguard := h.guard c _ _ hc rfl
        refine h.turn hc rfl rfl (fun _ _ hd => hd) (fun _ => hguard) (fun _ _ => rfl) ?_
          (described_of_guard hguard rfl)
        exact fun _ _ => ⟨⟨run, rfl⟩, trivial⟩
  case awaiting =>
    split_ifs at hn with hfinished
    cases hn
    refine h.stay hc (fun _ => rfl) (fun t _ ht => ?_) (by cases command <;> rfl)
    simpa [isFinished, ht, Phase.Fits] using hfinished
  case joined =>
    cases hn
    have hguard := h.guard c _ _ hc rfl
    refine h.turn hc rfl rfl (fun _ _ hd => hd) (fun _ => hguard) (fun d hd => abort_of_ne hd) ?_
      (described_of_guard hguard (by cases command <;> rfl))
    intro t ht
    obtain ⟨u, hu, rfl⟩ := Option.map_eq_some_iff.mp (abort_self.symm.trans ht)
    obtain ⟨run, _, hcommand, hfit⟩ := h.tasks c u hu
    rw [hc] at hcommand
    cases hcommand
    exact ⟨⟨run, rfl⟩, hfit⟩
  case removing =>
    cases hn
    exact h.stay hc (fun _ => rfl) (fun t hfit _ => hfit.elim) (by cases command <;> rfl)
  case finishing =>
    cases hn
    have hguard := h.guard c _ _ hc rfl
    refine h.turn hc rfl rfl ?_ (fun hp => by cases hp) (fun _ _ => rfl) ?_ ?_
    · intro d hd hheld
      rw [hguard] at hheld
      exact absurd (Option.some.inj hheld).symm hd
    · intro t ht
      obtain ⟨run, _, hcommand, hfit⟩ := h.tasks c t ht
      rw [hc] at hcommand
      cases hcommand
      exact ⟨⟨run, rfl⟩, hfit⟩
    · refine h.slot.trans ?_
      rw [described, hguard, Option.bind_some, hc]
      cases command <;> rfl
  case returned => cases hn

/-- What a cancel does is to abort the run in the slot, or nothing. -/
theorem cancel_cases (request : Cancel) :
    (a.cancel request).1 = a ∨ ∃ r, a.running = some r ∧ (r.kind, r.operation) = request.tag ∧
      (a.cancel request).1 = a.abort r.abort := by
  unfold cancel abortRunningIf
  cases hr : a.running with
  | none => exact .inl rfl
  | some r =>
      by_cases hmatch : r.kind = request.tag.1 ∧ r.operation = request.tag.2
      · exact .inr ⟨r, rfl, Prod.ext hmatch.1 hmatch.2, by simp only [if_pos hmatch]⟩
      · exact .inl (by simp only [if_neg hmatch])

/-- Apart from the quit's own entry, a step of it is an abort or changes nothing. -/
theorem quitStep_cases {q : Nat} {x : AbortInstall} (hn : a.quitStep q answer x = some a') :
    (∃ x', a' = a.setQuit q x') ∨ (∃ c, a' = (a.abort c).setQuit q (.aborting c)) ∨ a' = a := by
  cases x with
  | begun =>
      simp only [quitStep] at hn
      cases hr : a.running <;> simp only [hr] at hn <;> cases hn
      · exact .inl ⟨_, rfl⟩
      · exact .inl ⟨_, rfl⟩
  | took c =>
      cases hn
      exact .inr (.inl ⟨c, rfl⟩)
  | aborting c =>
      simp only [quitStep] at hn
      split_ifs at hn <;> cases hn
      · exact .inl ⟨_, rfl⟩
      · exact .inl ⟨_, rfl⟩
      · exact .inr (.inr rfl)
  | ended inTime => cases hn

theorem Coherent.setQuit (h : a.Coherent) (q : Nat) (x : AbortInstall) :
    (a.setQuit q x).Coherent := ⟨h.fresh, h.guard, h.slot, h.tasks⟩

theorem Coherent.invoke (h : a.Coherent) (command : Command) :
    ({ a with nextCommand := a.nextCommand + 1 }.setPhase a.nextCommand command
      .called).Coherent where
  fresh d hd := by
    have hd : a.nextCommand < d := hd
    rw [setPhase_of_ne (Nat.ne_of_gt hd)]
    exact h.fresh d (Nat.le_of_lt hd)
  guard d command' phase hd hholds := by
    by_cases hdc : d = a.nextCommand
    · subst hdc
      rw [setPhase_self] at hd
      cases hd
      cases hholds
    · rw [setPhase_of_ne hdc] at hd
      exact h.guard d command' phase hd hholds
  slot := by
    refine h.slot.trans ?_
    unfold described App.setPhase
    cases hg : a.guard with
    | none => rfl
    | some d =>
        by_cases hdc : d = a.nextCommand
        · subst hdc
          simp [h.fresh _ (le_refl _), slotOf]
        · simp [Function.update_of_ne hdc]
  tasks d t hd := by
    obtain ⟨command', phase, hcommand, hfit⟩ := h.tasks d t hd
    have hdc : d ≠ a.nextCommand := by
      rintro rfl
      rw [h.fresh _ (le_refl _)] at hcommand
      cases hcommand
    exact ⟨command', phase, (setPhase_of_ne hdc).trans hcommand, hfit⟩

/-- A step ends a task, or leaves it as live as it is; only a drop leaves an extraction
behind. -/
theorem Task.step_cases {t t' : Task} {step : TaskStep} (h : t.step step = some t') :
    (t'.live = true → t.live = true) ∧ (t'.extracting = true → t.live = true ∨ t.extracting = true)
      ∧ (step ≠ .drop → (t.extracting = true → t.live = true) → t'.extracting = true →
        t'.live = true) := by
  cases step <;> simp only [Task.step] at h <;> split_ifs at h with hif <;> cases h
  all_goals simp_all

theorem Coherent.next {action : Action} (h : a.Coherent) (hn : a.next action = some a') :
    a'.Coherent := by
  cases action with
  | invoke command =>
      cases hn
      exact h.invoke command
  | command c answer =>
      obtain ⟨⟨command, phase⟩, hc, hn⟩ := Option.bind_eq_some_iff.mp hn
      exact h.commandStep hc hn
  | task c step =>
      obtain ⟨t', hstep, rfl⟩ := Option.map_eq_some_iff.mp hn
      obtain ⟨t, ht, hstep⟩ := Option.bind_eq_some_iff.mp hstep
      exact h.of_tasks ht (Task.step_cases hstep).1
  | cancel request =>
      cases hn
      rcases cancel_cases (a := a) request with heq | ⟨r, _, _, heq⟩ <;> rw [heq]
      · exact h
      · exact h.abort r.abort
  | performQuit =>
      cases hn
      exact ⟨h.fresh, h.guard, h.slot, h.tasks⟩
  | quit q answer =>
      obtain ⟨x, _, hn⟩ := Option.bind_eq_some_iff.mp hn
      rcases quitStep_cases hn with ⟨x', rfl⟩ | ⟨c, rfl⟩ | rfl
      · exact h.setQuit q x'
      · exact (h.abort c).setQuit q _
      · exact h

theorem Coherent.initial : App.initial.Coherent := by
  constructor
  · exact fun _ _ => rfl
  · intro c command phase hc
    cases hc
  · rfl
  · intro c t hc
    cases hc

end App

/-- **What every run keeps.** -/
theorem coherent {allowed : App → Action → Prop} (h : installs.Reaches allowed a) : a.Coherent := by
  refine Lts.System.Reaches.invariant ?_ ?_ h
  · rintro _ rfl
    exact App.Coherent.initial
  · exact fun _ _ _ hs _ hn => hs.next hn

/-! ### What the slot tells in every run -/

namespace App

theorem described_eq_some {r : RunningInstall} (h : a.described = some r) :
    ∃ c run phase, a.guard = some c ∧ a.commands c = some (.package run, phase) ∧
      (phase = .awaiting ∨ phase = .joined) ∧ r = run.running c := by
  obtain ⟨c, hguard, h⟩ := Option.bind_eq_some_iff.mp h
  obtain ⟨⟨command, phase⟩, hc, h⟩ := Option.bind_eq_some_iff.mp h
  refine ⟨c, ?_⟩
  cases command with
  | rescan => cases h
  | package run =>
      cases phase <;> cases h
      · exact ⟨run, _, hguard, hc, .inl rfl, rfl⟩
      · exact ⟨run, _, hguard, hc, .inr rfl, rfl⟩

/-- **Whatever is in the slot is the run of the command under the guard.** -/
theorem Coherent.describes {r : RunningInstall} (h : a.Coherent) (hr : a.running = some r) :
    ∃ run phase, a.guard = some r.abort ∧ a.commands r.abort = some (.package run, phase) ∧
      (phase = .awaiting ∨ phase = .joined) ∧ r = run.running r.abort := by
  obtain ⟨c, run, phase, hguard, hc, hphase, rfl⟩ := described_eq_some (h.slot.symm.trans hr)
  exact ⟨run, phase, hguard, hc, hphase, rfl⟩

/-- **A cancel aborts the run in the slot**, and only if its tag is the one asked for. -/
theorem Coherent.cancels (h : a.Coherent) (request : Cancel) (hbefore : ¬ a.Aborted c)
    (hafter : (a.cancel request).1.Aborted c) :
    ∃ run phase, a.running = some (run.running c) ∧ a.commands c = some (.package run, phase) ∧
      run.tag = request.tag := by
  rcases cancel_cases (a := a) request with heq | ⟨r, hr, htag, heq⟩ <;> rw [heq] at hafter
  · exact absurd hafter hbefore
  · by_cases hc : c = r.abort
    · obtain ⟨run, phase, _, hcommand, _, hrun⟩ := h.describes hr
      subst hc
      refine ⟨run, phase, hr.trans (congrArg some hrun), hcommand, ?_⟩
      rw [hrun] at htag
      exact htag
    · obtain ⟨t, ht, haborted⟩ := hafter
      rw [abort_of_ne hc] at ht
      exact absurd ⟨t, ht, haborted⟩ hbefore

/-- **Without a command under the guard the slot is empty.** -/
theorem Coherent.empty (h : a.Coherent)
    (hnone : ∀ c command phase, a.commands c = some (command, phase) → phase.holds = false) :
    a.running = none := by
  by_contra hsome
  obtain ⟨r, hr⟩ := Option.ne_none_iff_exists'.mp hsome
  obtain ⟨run, phase, _, hc, hphase, _⟩ := h.describes hr
  have hholds := hnone _ _ _ hc
  rcases hphase with rfl | rfl <;> cases hholds

/-! ### What orderly runs keep -/

/-- An extraction goes on in a task only, and no quit is behind. -/
structure Calm (a : App) : Prop where
  extracts : ∀ c t, a.tasks c = some t → t.extracting = true → t.live = true
  quits : ∀ q x, a.quits q = some x → a.Still x

theorem Still.mono {x : AbortInstall} (h : a.Still x)
    (hsub : ∀ c, a'.InProgress c → a.InProgress c) : a'.Still x := by
  cases x with
  | begun | took => trivial
  | aborting c => exact fun d hd => h d (hsub d hd)
  | ended inTime => exact fun d hd => h d (hsub d hd)

theorem Still.of_not_pastAbort {x : AbortInstall} (h : x.pastAbort = false) : a.Still x := by
  cases x with
  | begun | took => trivial
  | aborting | ended => cases h

/-- Whatever is in progress is so under the guard: spawned, awaited or removing files. -/
theorem InProgress.located (h : a.Coherent) (hcalm : a.Calm) (hp : a.InProgress c) :
    (∃ run phase, a.commands c = some (.package run, phase) ∧
      (phase = .spawned ∨ phase = .awaiting) ∧ a.isFinished c = false) ∨
    ∃ command, a.commands c = some (command, .removing) := by
  rcases hp with ⟨t, ht, hlive⟩ | hremoving
  · have hlive : t.live = true := hlive.elim id (hcalm.extracts c t ht)
    obtain ⟨run, phase, hc, hfit⟩ := h.tasks c t ht
    have hfinished : a.isFinished c = false := by simp [isFinished, ht, hlive]
    refine .inl ⟨run, phase, hc, ?_, hfinished⟩
    cases phase <;> simp_all [Phase.Fits]
  · exact .inr hremoving

theorem InProgress.guard (h : a.Coherent) (hcalm : a.Calm) (hp : a.InProgress c) :
    a.guard = some c := by
  obtain ⟨run, phase, hc, rfl | rfl, _⟩ | ⟨command, hc⟩ := hp.located h hcalm
  · exact h.guard c _ _ hc rfl
  · exact h.guard c _ _ hc rfl
  · exact h.guard c _ _ hc rfl

theorem inProgress_abort (hp : (a.abort c).InProgress c') : a.InProgress c' := by
  rcases hp with ⟨t, ht, hlive⟩ | hremoving
  · left
    by_cases hc : c' = c
    · subst hc
      obtain ⟨u, hu, rfl⟩ := Option.map_eq_some_iff.mp (abort_self.symm.trans ht)
      exact ⟨u, hu, hlive⟩
    · exact ⟨t, (abort_of_ne hc).symm.trans ht, hlive⟩
  · exact .inr hremoving

/-- A command that starts nothing leaves what is in progress, and perhaps ends it. -/
theorem inProgress_setPhase {b : App} (hcommands : b.commands = a.commands)
    (htasks : b.tasks = a.tasks) (hphase : phase ≠ .removing)
    (hp : (b.setPhase c command phase).InProgress c') : a.InProgress c' := by
  rcases hp with ⟨t, ht, hlive⟩ | ⟨command', hc⟩
  · exact .inl ⟨t, htasks ▸ ht, hlive⟩
  · by_cases hcc : c' = c
    · subst hcc
      rw [setPhase_self] at hc
      cases hc
      exact absurd rfl hphase
    · rw [setPhase_of_ne hcc, hcommands] at hc
      exact .inr ⟨command', hc⟩

/-- **What a command may bring into progress**: its own run, out of `locked`. -/
theorem inProgress_commandStep (hn : a.commandStep c command answer phase = some a')
    (hp : a'.InProgress c') :
    a.InProgress c' ∨ phase = .locked ∧ answer ≠ .failed ∧ ∃ run, command = .package run := by
  cases phase <;> simp only [commandStep] at hn
  case called =>
    split_ifs at hn <;> cases hn
    all_goals exact .inl (inProgress_setPhase rfl rfl (by decide) hp)
  case locked =>
    split_ifs at hn with hfail
    · cases hn
      exact .inl (inProgress_setPhase rfl rfl (by decide) hp)
    · cases command with
      | rescan =>
          cases hn
          exact .inl (inProgress_setPhase rfl rfl (by decide) hp)
      | package run => exact .inr ⟨rfl, hfail, run, rfl⟩
  case spawned =>
    cases command with
    | rescan => cases hn
    | package run =>
        cases hn
        exact .inl (inProgress_setPhase rfl rfl (by decide) hp)
  case awaiting =>
    split_ifs at hn
    cases hn
    exact .inl (inProgress_setPhase rfl rfl (by decide) hp)
  case joined =>
    cases hn
    exact .inl (inProgress_abort (inProgress_setPhase (b := (a.abort c).clearRunning) rfl rfl
      (by decide) hp))
  case removing =>
    cases hn
    exact .inl (inProgress_setPhase rfl rfl (by decide) hp)
  case finishing =>
    cases hn
    exact .inl (inProgress_setPhase rfl rfl (by decide) hp)
  case returned => cases hn

theorem inProgress_task {t t' : Task} {step : TaskStep} (ht : a.tasks c = some t)
    (hstep : t.step step = some t') (hp : (a.setTask c (some t')).InProgress c') :
    a.InProgress c' := by
  obtain ⟨hlive, hextracting, _⟩ := Task.step_cases hstep
  rcases hp with ⟨u, hu, hor⟩ | hremoving
  · left
    by_cases hc : c' = c
    · subst hc
      rw [setTask_self] at hu
      cases hu
      exact ⟨t, ht, hor.elim (fun h => .inl (hlive h)) hextracting⟩
    · exact ⟨u, (setTask_of_ne hc).symm.trans hu, hor⟩
  · exact .inr hremoving

theorem tasks_abort {t' : Task} (ht : (a.abort c).tasks c' = some t') :
    ∃ t, a.tasks c' = some t ∧ t'.live = t.live ∧ t'.extracting = t.extracting := by
  by_cases hc : c' = c
  · subst hc
    obtain ⟨t, htask, rfl⟩ := Option.map_eq_some_iff.mp (abort_self.symm.trans ht)
    exact ⟨t, htask, rfl, rfl⟩
  · exact ⟨t', (abort_of_ne hc).symm.trans ht, rfl, rfl⟩

/-- The tasks after a command's step: a new one, or those before. -/
theorem tasks_commandStep {t' : Task} (hn : a.commandStep c command answer phase = some a')
    (ht : a'.tasks c' = some t') :
    (∃ work, t' = .spawn work) ∨
      ∃ t, a.tasks c' = some t ∧ t'.live = t.live ∧ t'.extracting = t.extracting := by
  cases phase <;> simp only [commandStep] at hn
  case called =>
    split_ifs at hn <;> cases hn
    all_goals exact .inr ⟨t', ht, rfl, rfl⟩
  case locked =>
    split_ifs at hn with hfail
    · cases hn
      exact .inr ⟨t', ht, rfl, rfl⟩
    · cases command with
      | rescan =>
          cases hn
          exact .inr ⟨t', ht, rfl, rfl⟩
      | package run =>
          have hspawn : ∀ work, ((a.setTask c (some (.spawn work))).setPhase c (.package run)
              .spawned).tasks c' = some t' → (∃ work, t' = .spawn work) ∨
              ∃ t, a.tasks c' = some t ∧ t'.live = t.live ∧ t'.extracting = t.extracting := by
            intro work ht
            by_cases hc : c' = c
            · subst hc
              have ht : (a.setTask c' (some (.spawn work))).tasks c' = some t' := ht
              rw [setTask_self] at ht
              cases ht
              exact .inl ⟨work, rfl⟩
            · exact .inr ⟨t', (setTask_of_ne hc).symm.trans ht, rfl, rfl⟩
          cases hwork : run.work <;> simp only [hwork] at hn <;> cases hn
          · exact hspawn _ ht
          · exact hspawn _ ht
          · exact .inr ⟨t', ht, rfl, rfl⟩
  case spawned =>
    cases command with
    | rescan => cases hn
    | package run =>
        cases hn
        exact .inr ⟨t', ht, rfl, rfl⟩
  case awaiting =>
    split_ifs at hn
    cases hn
    exact .inr ⟨t', ht, rfl, rfl⟩
  case joined =>
    cases hn
    exact .inr (tasks_abort ht)
  case removing =>
    cases hn
    exact .inr ⟨t', ht, rfl, rfl⟩
  case finishing =>
    cases hn
    exact .inr ⟨t', ht, rfl, rfl⟩
  case returned => cases hn

theorem Calm.of_tasks (hcalm : a.Calm)
    (htasks : ∀ d t', a'.tasks d = some t' →
      ∃ t, a.tasks d = some t ∧ t'.live = t.live ∧ t'.extracting = t.extracting)
    (hquits : ∀ q x, a'.quits q = some x → a'.Still x) : a'.Calm where
  extracts d t' ht' hextracting := by
    obtain ⟨t, ht, hlive, hsame⟩ := htasks d t' ht'
    rw [hlive]
    exact hcalm.extracts d t ht (hsame.symm.trans hextracting)
  quits := hquits

/-- **A quit that takes its steps in order** leaves nothing in progress that it should not. -/
theorem still_quitStep {q : Nat} {x : AbortInstall} (h : a.Coherent) (hcalm : a.Calm)
    (hq : a.quits q = some x) (horderly : a.Orderly (.quit q answer))
    (hn : a.quitStep q answer x = some a') : ∀ p y, a'.quits p = some y → a'.Still y := by
  have hother : ∀ {b : App} {y : AbortInstall}, (∀ c, b.InProgress c → a.InProgress c) →
      b.quits = a.quits → b.Still y → ∀ p z, (b.setQuit q y).quits p = some z →
      (b.setQuit q y).Still z := by
    intro b y hsub hquits hy p z hz
    have hsame : ∀ {z}, b.Still z → (b.setQuit q y).Still z := fun hz => hz.mono fun _ hd => hd
    by_cases hp : p = q
    · subst hp
      rw [setQuit_self] at hz
      cases hz
      exact hsame hy
    · rw [setQuit_of_ne hp, hquits] at hz
      exact hsame ((hcalm.quits p z hz).mono hsub)
  simp only [Orderly, hq] at horderly
  cases x with
  | begun =>
      simp only [quitStep] at hn
      cases hr : a.running with
      | some r =>
          simp only [hr] at hn
          cases hn
          exact hother (fun _ hd => hd) rfl trivial
      | none =>
          simp only [hr] at hn
          cases hn
          refine hother (fun _ hd => hd) rfl fun c hc => horderly hr c ?_
          obtain ⟨run, phase, hcommand, rfl | rfl, hlive⟩ | ⟨command, hcommand⟩ :=
            hc.located h hcalm
          · exact ⟨_, .inl ⟨hcommand, hlive⟩⟩
          · have hslot := h.slot
            simp [hr, described, h.guard c _ _ hcommand rfl, hcommand, slotOf] at hslot
          · exact ⟨command, .inr hcommand⟩
  | took c =>
      cases hn
      exact hother (fun _ hd => inProgress_abort hd) rfl
        fun d hd => horderly d (inProgress_abort hd)
  | aborting c =>
      have hstill := hcalm.quits q _ hq
      simp only [quitStep] at hn
      split_ifs at hn with hfinished helapsed
      · cases hn
        refine hother (fun _ hd => hd) rfl fun d hd => ?_
        have hdc := hstill d hd
        subst hdc
        obtain ⟨_, _, _, _, hlive⟩ | ⟨command, hcommand⟩ := hd.located h hcalm
        · rw [hfinished] at hlive
          cases hlive
        · obtain ⟨t, ht, _⟩ := (Option.any_eq_true _ _).mp hfinished
          obtain ⟨_, _, hcommand', hfit⟩ := h.tasks d t ht
          rw [hcommand] at hcommand'
          cases hcommand'
          exact hfit
      · exact absurd (horderly helapsed) hfinished
      · cases hn
        exact hcalm.quits
  | ended inTime => cases hn

theorem Calm.commandStep (hcalm : a.Calm) (hc : a.commands c = some (command, phase))
    (horderly : a.Orderly (.command c answer))
    (hn : a.commandStep c command answer phase = some a') (hquits : a'.quits = a.quits) :
    a'.Calm where
  extracts d t' ht' hextracting := by
    rcases tasks_commandStep hn ht' with ⟨work, rfl⟩ | ⟨t, ht, hlive, hsame⟩
    · rfl
    · rw [hlive]
      exact hcalm.extracts d t ht (hsame.symm.trans hextracting)
  quits q x hq := by
    rw [hquits] at hq
    by_cases hstarts : phase = .locked ∧ answer ≠ .failed ∧ ∃ run, command = .package run
    · obtain ⟨rfl, hgo, run, rfl⟩ := hstarts
      exact Still.of_not_pastAbort (horderly hgo ⟨run, hc⟩ q x hq)
    · exact (hcalm.quits q x hq).mono fun d hd =>
        (inProgress_commandStep hn hd).resolve_right hstarts

theorem Calm.task {t t' : Task} {step : TaskStep} (hcalm : a.Calm) (ht : a.tasks c = some t)
    (horderly : a.Orderly (.task c step)) (hstep : t.step step = some t') :
    (a.setTask c (some t')).Calm where
  extracts d u hu hextracting := by
    by_cases hd : d = c
    · subst hd
      rw [setTask_self] at hu
      cases hu
      by_cases hdrop : step = .drop
      · subst hdrop
        have hnone := horderly t ht
        simp only [Task.step] at hstep
        split_ifs at hstep
        cases hstep
        rw [hnone] at hextracting
        cases hextracting
      · exact (Task.step_cases hstep).2.2 hdrop (hcalm.extracts d t ht) hextracting
    · exact hcalm.extracts d u ((setTask_of_ne hd).symm.trans hu) hextracting
  quits q x hq := (hcalm.quits q x hq).mono fun _ hd => inProgress_task ht hstep hd

theorem quits_commandStep (hn : a.commandStep c command answer phase = some a') :
    a'.quits = a.quits := by
  cases phase <;> simp only [commandStep] at hn
  case called => split_ifs at hn <;> cases hn <;> rfl
  case locked =>
    split_ifs at hn
    · cases hn
      rfl
    · cases command with
      | rescan =>
          cases hn
          rfl
      | package run =>
          cases hwork : run.work <;> simp only [hwork] at hn <;> cases hn <;> rfl
  case spawned =>
    cases command with
    | rescan => cases hn
    | package run =>
        cases hn
        rfl
  case awaiting =>
    split_ifs at hn
    cases hn
    rfl
  case returned => cases hn
  all_goals
    cases hn
    rfl

/-- **An orderly step keeps the calm.** -/
theorem Calm.next {action : Action} (h : a.Coherent) (hcalm : a.Calm)
    (horderly : a.Orderly action) (hn : a.next action = some a') : a'.Calm := by
  have hsame : ∀ {b : App}, b.tasks = a.tasks → (∀ d, b.InProgress d → a.InProgress d) →
      (∀ q x, b.quits q = some x → x = .begun ∨ a.quits q = some x) → b.Calm := by
    intro b htasks hsub hquits
    refine hcalm.of_tasks (fun d t ht => ⟨t, htasks ▸ ht, rfl, rfl⟩) fun q x hq => ?_
    rcases hquits q x hq with rfl | hq
    · trivial
    · exact (hcalm.quits q x hq).mono hsub
  cases action with
  | invoke command =>
      cases hn
      exact hsame rfl (fun d hd => inProgress_setPhase rfl rfl (by decide) hd)
        fun _ _ hq => .inr hq
  | command c answer =>
      obtain ⟨⟨command, phase⟩, hc, hn⟩ := Option.bind_eq_some_iff.mp hn
      exact hcalm.commandStep hc horderly hn (quits_commandStep hn)
  | task c step =>
      obtain ⟨t', hstep, rfl⟩ := Option.map_eq_some_iff.mp hn
      obtain ⟨t, ht, hstep⟩ := Option.bind_eq_some_iff.mp hstep
      exact hcalm.task ht horderly hstep
  | cancel request =>
      cases hn
      rcases cancel_cases (a := a) request with heq | ⟨r, _, _, heq⟩ <;> rw [heq]
      · exact hcalm
      · exact hcalm.of_tasks (fun _ _ => tasks_abort) fun q x hq =>
          (hcalm.quits q x hq).mono fun _ hd => inProgress_abort hd
  | performQuit =>
      cases hn
      refine hsame rfl (fun _ hd => hd) fun q x hq => ?_
      by_cases hqq : q = a.nextQuit
      · subst hqq
        rw [setQuit_self] at hq
        cases hq
        exact .inl rfl
      · exact .inr ((setQuit_of_ne hqq).symm.trans hq)
  | quit q answer =>
      obtain ⟨x, hq, hn⟩ := Option.bind_eq_some_iff.mp hn
      refine hcalm.of_tasks ?_ (still_quitStep h hcalm hq horderly hn)
      rcases quitStep_cases hn with ⟨x', rfl⟩ | ⟨c, rfl⟩ | rfl
      · exact fun d t ht => ⟨t, ht, rfl, rfl⟩
      · exact fun _ _ => tasks_abort
      · exact fun d t ht => ⟨t, ht, rfl, rfl⟩

end App

/-! ### The slot tells the truth -/

theorem calm (h : installs.Reaches App.Orderly a) : a.Calm := by
  refine Lts.System.Reaches.invariant_beside (fun _ => coherent) ?_ ?_ h
  · rintro _ rfl
    constructor
    · intro c t ht
      cases ht
    · intro q x hq
      cases hq
  · exact fun _ _ _ hs hcalm horderly hn => hcalm.next hs horderly hn

/-- **The install slot tells the truth**, in every run whose steps are orderly. -/
theorem slot_tells_truth (h : installs.Reaches App.Orderly a) : a.TellsTruth where
  one c c' hc hc' := by
    have hguard := hc.guard (coherent h) (calm h)
    exact Option.some.inj (hguard.symm.trans (hc'.guard (coherent h) (calm h)))
  describes r hr := (coherent h).describes hr
  cancels request _ hbefore hafter := (coherent h).cancels request hbefore hafter
  empty hnone := (coherent h).empty hnone
  quits := (calm h).quits

/-- A quit that aborts an install out of the slot. -/
theorem slot_tells_truth_abort : ∃ a : App, a.quits 0 = some (.ended true) ∧ a.TellsTruth := by
  have hquits : ∀ {x : AbortInstall}, none = some x → x.pastAbort = false := fun h => by cases h
  have called : installs.Reaches App.Orderly _ :=
    .step (a := .invoke (.package .installMariadb)) (.init rfl) trivial rfl
  have locked : installs.Reaches App.Orderly _ :=
    .step (a := .command 0 .go) called (fun _ _ _ _ hq => hquits hq) rfl
  have spawned : installs.Reaches App.Orderly _ :=
    .step (a := .command 0 .go) locked (fun _ _ _ _ hq => hquits hq) rfl
  have published : installs.Reaches App.Orderly _ :=
    .step (a := .command 0 .go) spawned (fun _ _ _ _ hq => hquits hq) rfl
  have begun : installs.Reaches App.Orderly _ := .step (a := .performQuit) published trivial rfl
  have took : installs.Reaches App.Orderly _ :=
    .step (a := .quit 0 .go) begun (fun h => by cases h) rfl
  have aborting : installs.Reaches App.Orderly _ :=
    .step (a := .quit 0 .go) took (fun c hc =>
      (Option.some.inj (hc.guard (coherent took) (calm took))).symm) rfl
  have dropped : installs.Reaches App.Orderly _ :=
    .step (a := .task 0 .drop) aborting (fun t ht => by cases ht; rfl) rfl
  have ended : installs.Reaches App.Orderly _ :=
    .step (a := .quit 0 .go) dropped (fun h => by cases h) rfl
  exact ⟨_, rfl, slot_tells_truth ended⟩

/-- An install that begins once a quit has aborted the one in the slot. -/
theorem slot_misses_later_install : ¬ ∀ a, installs.Reachable a → a.TellsTruth := by
  intro h
  have hexec : installs.exec .initial [
      -- an install, up to its publication
      .invoke (.package .installMariadb), .command 0 .go, .command 0 .go, .command 0 .go,
      -- it is aborted, and waited for
      .performQuit, .quit 0 .go, .quit 0 .go, .task 0 .drop, .quit 0 .go,
      -- its command returns, and the next one starts
      .command 0 .go, .command 0 .go, .command 0 .go,
      .invoke (.package .installMariadb), .command 1 .go, .command 1 .go] = some _ := rfl
  have hrun := Lts.System.reaches_of_exec (.init rfl) hexec
  exact (h _ hrun).quits 0 (.ended true) rfl 1 (.inl ⟨_, rfl, .inl rfl⟩)

end OpenVHost.Install
