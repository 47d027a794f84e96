/-
# At most one live run of a service

A run holds its service from the `Starting` write of `start` to its own last
write: all that time the service's row is live and has the run's control channel.
`start`, `register` and `unregister` leave a live row alone, so no order of steps
takes it away before that, and by then the child is gone.

* `Sound` — the invariant; `sound_next` — every step keeps it.
* `single_live_run` — at most one run of a service has a living child, and the
  row still leads to it.
-/

import OpenVHost.Proc.Steps

namespace OpenVHost.Proc

namespace World

/-- The run that a service's row leads to, while the row is live. -/
def current (w : World) (id : ServiceId) : Option RunId :=
  ((w.entries id).map Entry.key).bind fun key => if key.1.live then key.2 else none

variable {w w' : World} {id : ServiceId} {r : RunId}

theorem current_eq_some :
    w.current id = some r ↔
      ∃ e, w.entries id = some e ∧ e.state.live = true ∧ e.control = some r := by
  unfold current
  cases w.entries id with
  | none => simp
  | some e => cases he : e.state.live <;> simp [Entry.key, he]

theorem current_of_key (h : (w'.entries id).map Entry.key = (w.entries id).map Entry.key) :
    w'.current id = w.current id := by
  unfold current
  rw [h]

/-- A row that is not live leads to no run. -/
theorem current_eq_none (h : ∀ e, w.entries id = some e → e.state.live = false) :
    w.current id = none := by
  rw [Option.eq_none_iff_forall_ne_some]
  intro r hr
  obtain ⟨e, he, hlive, -⟩ := current_eq_some.mp hr
  rw [h e he] at hlive
  cases hlive

/-- Each run there is was there before, and is no further. -/
def RunsKept (w w' : World) : Prop :=
  ∀ r run', w'.runs r = some run' → ∃ run, w.runs r = some run ∧ run.Keeps run'

theorem RunsKept.of_eq (h : w'.runs = w.runs) : w.RunsKept w' := by
  intro r run' hr
  exact ⟨run', h ▸ hr, .refl run'⟩

theorem runsKept_setRun {w₁ : World} {run run' : Run} (hr : w.runs r = some run)
    (hk : run.Keeps run') (h : w₁.runs = w.runs) : w.RunsKept (w₁.setRun r run') := by
  intro r' run'' hr'
  by_cases heq : r' = r
  · subst heq
    have : run' = run'' := by simpa [setRun] using hr'
    exact ⟨run, hr, this ▸ hk⟩
  · have : w.runs r' = some run'' := by simpa [setRun, heq, h] using hr'
    exact ⟨run'', this, .refl run''⟩

end World

/-- **The invariant**: a run that has not ended is the one its row leads to. -/
structure Sound (w : World) : Prop where
  unended : ∀ r run, w.runs r = some run → run.task.ended = false → w.current run.id = some r
  fine : ∀ r run, w.runs r = some run → run.Fine
  fresh : ∀ r, w.nextRun ≤ r → w.runs r = none

section Sound

variable {w w' : World} {id : ServiceId} {r : RunId} {run : Run}

theorem Sound.of_kept (hs : Sound w) (hcur : ∀ id, w'.current id = w.current id)
    (hruns : w.RunsKept w') (hnext : w'.nextRun = w.nextRun) : Sound w' := by
  constructor
  · intro r run' hr hend
    obtain ⟨run, hrun, hk⟩ := hruns r run' hr
    rw [hcur, hk.id]
    exact hs.unended r run hrun (hk.ended ▸ hend)
  · intro r run' hr
    obtain ⟨run, hrun, hk⟩ := hruns r run' hr
    exact hk.fine (hs.fine r run hrun)
  · intro r hr
    rw [Option.eq_none_iff_forall_ne_some]
    intro run' hrun'
    obtain ⟨run, hrun, -⟩ := hruns r run' hrun'
    rw [hs.fresh r (hnext ▸ hr)] at hrun
    cases hrun

theorem Sound.quiet (hs : Sound w) (hq : Quiet w w') : Sound w' :=
  hs.of_kept (fun id => World.current_of_key (hq.key id)) (.of_eq hq.runs) hq.nextRun

theorem Sound.setRun {run' : Run} (hs : Sound w) (hr : w.runs r = some run)
    (hk : run.Keeps run') : Sound (w.setRun r run') :=
  hs.of_kept (fun _ => rfl) (World.runsKept_setRun hr hk rfl) rfl

theorem Sound.setCall (hs : Sound w) (k : CallId) (c : Call) : Sound (w.setCall k c) :=
  hs.of_kept (fun _ => rfl) (.of_eq rfl) rfl

theorem Sound.send (hs : Sound w) (event : Event) : Sound (w.send event) :=
  hs.of_kept (fun _ => rfl) (.of_eq rfl) rfl

/-- Two runs of one service that have not ended are one. -/
theorem Sound.unique (hs : Sound w) {r r' : RunId} {run run' : Run} (hr : w.runs r = some run)
    (hr' : w.runs r' = some run') (hid : run.id = run'.id) (he : run.task.ended = false)
    (he' : run'.task.ended = false) : r = r' := by
  have h := hs.unended r run hr he
  have h' := hs.unended r' run' hr' he'
  rw [hid, h'] at h
  exact (Option.some.inj h).symm

/-- A row that is not live may be replaced by another such row. -/
theorem Sound.replace (id : ServiceId) (hs : Sound w) (hw : w'.runs = w.runs) (hnext : w'.nextRun = w.nextRun)
    (hother : ∀ i, i ≠ id → w'.entries i = w.entries i)
    (hbefore : ∀ e, w.entries id = some e → e.state.live = false)
    (hafter : ∀ e, w'.entries id = some e → e.state.live = false) : Sound w' := by
  apply hs.of_kept _ (.of_eq hw) hnext
  intro i
  by_cases hi : i = id
  · subst hi
    rw [World.current_eq_none hbefore, World.current_eq_none hafter]
  · exact World.current_of_key (by rw [hother i hi])

/-! ### Calls -/

theorem sound_register (hs : Sound w) (spec : ServiceSpec) : Sound (w.register spec).1 := by
  unfold World.register
  split
  next => exact hs
  next hlive =>
    refine hs.replace spec.id ?_ ?_ ?_ ?_ ?_
    · rfl
    · rfl
    · intro i hi
      exact Function.update_of_ne hi _ _
    · intro e he
      simpa [he] using hlive
    · intro e he
      have heq := (Function.update_self spec.id _ _).symm.trans he
      rw [← Option.some.inj heq]
      rfl

theorem sound_unregister (hs : Sound w) (id : ServiceId) : Sound (w.unregister id).1 := by
  unfold World.unregister
  split
  next => exact hs
  next e he =>
    split
    next => exact hs
    next hterm =>
      have hlive : e.state.live = false := by
        cases hst : e.state <;> simp [hst, World.checkTerminal, ServiceState.live] at hterm ⊢
      refine hs.replace id ?_ ?_ ?_ ?_ ?_
      · rfl
      · rfl
      · intro i hi
        exact Function.update_of_ne hi _ _
      · intro e' he'
        rw [he] at he'
        cases he'
        exact hlive
      · intro e' he'
        cases (Function.update_self id _ _).symm.trans he'

/-- `start` makes a run whose service has no other. -/
theorem sound_start (hs : Sound w) (id : ServiceId) : Sound (w.start id).1 := by
  unfold World.start
  split
  next => exact hs
  next e he =>
    split
    next => exact hs
    next hlive =>
      have hnone : w.current id = none := by
        apply World.current_eq_none
        intro e' he'
        rw [he] at he'
        cases he'
        simpa using hlive
      constructor
      · intro r run hr hend
        by_cases hnew : r = w.nextRun
        · -- the new run
          subst hnew
          have heq := Option.some.inj ((Function.update_self w.nextRun _ _).symm.trans hr)
          rw [← heq]
          exact World.current_eq_some.mpr ⟨_, Function.update_self id _ _, rfl, rfl⟩
        · have hold : w.runs r = some run := (Function.update_of_ne hnew _ _).symm.trans hr
          have hcur := hs.unended r run hold hend
          have hid : run.id ≠ id := by
            intro heq
            rw [heq, hnone] at hcur
            cases hcur
          rw [← hcur]
          apply World.current_of_key
          exact congrArg _ (Function.update_of_ne hid _ _)
      · intro r run hr
        by_cases hnew : r = w.nextRun
        · subst hnew
          have heq := Option.some.inj ((Function.update_self w.nextRun _ _).symm.trans hr)
          rw [← heq]
          exact ⟨by simp, fun _ => rfl⟩
        · exact hs.fine r run ((Function.update_of_ne hnew _ _).symm.trans hr)
      · intro r hr
        have hlt : w.nextRun < r := hr
        exact (Function.update_of_ne hlt.ne' _ _).trans (hs.fresh r hlt.le)

theorem sound_stop (hs : Sound w) (id : ServiceId) : Sound (w.stop id).1 := by
  unfold World.stop
  split
  · exact hs
  · split
    · exact hs.of_kept (fun _ => rfl) (.of_eq rfl) rfl
    · exact hs

theorem sound_spawnTask (hs : Sound w) (r : RunId) : Sound (w.spawnTask r) := by
  unfold World.spawnTask
  split
  next => exact hs
  next run hr =>
    split
    next ht => exact hs.setRun hr (Run.keeps_of_follows (by simp [ht, Task.Follows]))
    next => exact hs

theorem sound_trySend (hs : Sound w) (r : RunId) : Sound (w.trySend r) := by
  unfold World.trySend
  split
  next => exact hs
  next run hr =>
    split
    next => exact hs
    next => exact hs.setRun hr ⟨rfl, rfl, fun hf => ⟨hf.gone, hf.unborn⟩⟩

theorem sound_stepCall (hs : Sound w) {c : Call} {r : World × Call} (h : w.stepCall c = some r) :
    Sound r.1 := by
  cases c with
  | register spec =>
      cases h
      exact sound_register hs spec
  | unregister id =>
      cases h
      exact sound_unregister hs id
  | start id =>
      cases h
      exact sound_start hs id
  | stop id =>
      cases h
      exact sound_stop hs id
  | emit event next =>
      cases h
      exact hs.send event
  | log id line next =>
      cases h
      exact hs.quiet (World.quiet_pushLog _ _)
  | spawn r =>
      cases h
      exact sound_spawnTask hs r
  | trySend control =>
      cases control with
      | none =>
          cases h
          exact hs
      | some r =>
          cases h
          exact sound_trySend hs r
  | returned result => cases h

/-! ### Tasks -/

theorem childless_of_ended {t : Task} (h : t.ended = true) : t.childless = true := by
  induction t with
  | log _ _ next ih | emit _ next ih => exact ih h
  | done => rfl
  | _ => cases h

/-- A run's own `Running` keeps its row. -/
theorem current_setState_live {state : ServiceState} (hlive : state.live = true)
    (hcur : w.current id = some r) (i : ServiceId) :
    (w.setState id state).current i = w.current i := by
  by_cases hi : i = id
  · subst hi
    obtain ⟨e, he, -, hctl⟩ := World.current_eq_some.mp hcur
    rw [hcur, World.current_eq_some]
    refine ⟨{ e with state := state }, ?_, hlive, hctl⟩
    simp [World.setState, World.entries_modify, he, hlive]
  · apply World.current_of_key
    rw [World.setState, World.entries_modify, if_neg hi]

theorem sound_stepTask (hs : Sound w) (hr : w.runs r = some run) {answer : Answer}
    (h : w.stepTask r run answer = some w') : Sound w' := by
  cases stepTask_cases h with
  | quiet hw hk => exact (hs.quiet hw).setRun (hw.runs ▸ hr) hk
  | @emit event next ht =>
      refine (hs.send event).setRun hr ⟨rfl, by simp [ht], fun hf => ⟨fun hc => ?_, fun hc => ?_⟩⟩
      · exact hf.gone (by simpa [ht] using hc)
      · exact hf.unborn (by simpa [ht] using hc)
  | write ht =>
      generalize htask : run.task = t at ht
      cases ht with
      | running =>
          have hcur := hs.unended r run hr (by simp [htask])
          have hs' : Sound (w.setState run.id .running) :=
            hs.of_kept (current_setState_live rfl hcur) (.of_eq rfl) rfl
          exact hs'.setRun hr ⟨rfl, by simp [htask], fun _ => ⟨by simp, by simp⟩⟩
      | terminal state detail =>
          have hcur := hs.unended r run hr (by simp [htask])
          have hgone := (hs.fine r run hr).gone (by simp [htask])
          constructor
          · intro r' run' hr' hend
            by_cases hsame : r' = r
            · -- the run itself has ended
              subst hsame
              have heq := Option.some.inj ((Function.update_self r' _ _).symm.trans hr')
              rw [← heq] at hend
              simp at hend
            · have hold : w.runs r' = some run' := (Function.update_of_ne hsame _ _).symm.trans hr'
              have hid : run'.id ≠ run.id := fun hid =>
                hsame (hs.unique hold hr hid hend (by simp [htask]))
              rw [← hs.unended r' run' hold hend]
              apply World.current_of_key
              exact congrArg _ (World.entries_modify.trans (if_neg hid))
          · intro r' run' hr'
            by_cases hsame : r' = r
            · subst hsame
              have heq := Option.some.inj ((Function.update_self r' _ _).symm.trans hr')
              rw [← heq]
              exact ⟨fun _ => hgone, by simp⟩
            · exact hs.fine r' run' ((Function.update_of_ne hsame _ _).symm.trans hr')
          · intro r' hr'
            have hne : r' ≠ r := by
              rintro rfl
              rw [hs.fresh r' hr'] at hr
              cases hr
            exact (Function.update_of_ne hne _ _).trans (hs.fresh r' hr')

/-- **Every step keeps the invariant.** -/
theorem sound_next (hs : Sound w) {a : Action} (h : w.next a = some w') : Sound w' := by
  cases next_cases h with
  | call => exact hs.of_kept (fun _ => rfl) (.of_eq rfl) rfl
  | @caller k c c' w₁ hc hstep =>
      have hs₁ : Sound w₁ := sound_stepCall hs hstep
      exact hs₁.setCall k c'
  | task hr h => exact sound_stepTask hs hr h
  | own hr hw hk _ => exact (hs.quiet hw).setRun (hw.runs ▸ hr) hk
  | readerEmit line hr hk _ => exact (hs.send _).setRun hr hk
  | tick => exact hs.of_kept (fun _ => rfl) (.of_eq rfl) rfl

theorem sound_of_reachable : supervisor.Reachable w → Sound w := by
  apply Lts.System.Reaches.invariant
  · rintro w ⟨-, hruns, -, -⟩
    constructor
    · intro r run hr
      simp [hruns r] at hr
    · intro r run hr
      simp [hruns r] at hr
    · intro r _
      exact hruns r
  · intro w a w' hs _ hn
    exact sound_next hs hn

/-- **At most one live run of a service**, and no living child that its row does
not lead to. -/
theorem single_live_run (h : supervisor.Reachable w) :
    (∀ r r' run run', w.runs r = some run → w.runs r' = some run' → run.id = run'.id →
      run.child = .alive → run'.child = .alive → r = r') ∧
    ∀ r run, w.runs r = some run → run.child = .alive →
      run.task ≠ .done ∧
        (∃ e, w.entries run.id = some e ∧ e.state.live = true ∧ e.control = some r) ∧
        (w.stop run.id).2 = .log run.id "stop requested by user" (.trySend (some r)) := by
  have hs := sound_of_reachable h
  have hunended : ∀ r run, w.runs r = some run → run.child = .alive → run.task.ended = false := by
    intro r run hr halive
    by_contra hended
    exact (hs.fine r run hr).gone (childless_of_ended (by simpa using hended)) halive
  constructor
  · intro r r' run run' hr hr' hid halive halive'
    exact hs.unique hr hr' hid (hunended r run hr halive) (hunended r' run' hr' halive')
  · intro r run hr halive
    have hend := hunended r run hr halive
    obtain ⟨e, he, hlive, hctl⟩ := World.current_eq_some.mp (hs.unended r run hr hend)
    refine ⟨?_, ⟨e, he, hlive, hctl⟩, ?_⟩
    · intro hdone
      simp [hdone] at hend
    · simp [World.stop, he, hlive, hctl]

/-- A service with nothing special about it. -/
def sampleSpec (id : ServiceId) : ServiceSpec :=
  { id := id
    displayName := "a service"
    endpoint := none
    spawn := { program := "/bin/service", args := [], cwd := none, env := [] }
    readiness := .aliveAfter 500
    grace := 5000 }

/-- A call, made as call `k` and taken `steps` steps. -/
def callThrough (k : CallId) (c : Call) (steps : Nat) : List Action :=
  .call c :: List.replicate steps (.caller k)

theorem initial_new : World.new.Initial := ⟨fun _ => rfl, fun _ => rfl, fun _ => rfl, rfl⟩

/-- A registered service, started as far as its living child. -/
def startedRun : List Action :=
  callThrough 0 (.register (sampleSpec "web")) 2 ++ callThrough 1 (.start "web") 5 ++
    [.task 0 (.spawned (some 7))]

def aliveAt (r : RunId) (w : World) : Bool := (w.runs r).any fun run => run.child = .alive

theorem single_live_run_started :
    ∃ (w : World) (run : Run), w.runs 0 = some run ∧ run.child = .alive ∧
      ∃ e : Entry, w.entries run.id = some e ∧ e.control = some 0 := by
  obtain ⟨w, hw, halive⟩ := Lts.System.exists_of_exec (S := supervisor) startedRun (aliveAt 0)
    (.init initial_new) (by decide +kernel)
  obtain ⟨run, hr, hrun⟩ := (Option.any_eq_true _ _).mp halive
  have halive' : run.child = .alive := by simpa using hrun
  obtain ⟨-, ⟨e, he, -, hctl⟩, -⟩ := (single_live_run hw).2 0 run hr halive'
  exact ⟨w, run, hr, halive', e, he, hctl⟩

end Sound

end OpenVHost.Proc
