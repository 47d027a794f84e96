/-
# A stop is kept

A run for which `stop` was accepted comes to its end, and what it writes there is `Stopped`: the
request reaches it, it terminates its child, kills it once the grace is over, and goes the rest of
its way. That it moves at all is a matter of scheduling, so the end is one of the runs that go on
for ever and are fair to the task, to a child that was killed, and to the callers. What the flag
does not reach is a write that the run is already on its way to: the `Running` of a readiness wait
that ended ready, and the state that was classified before.

* `Run.left` — how many steps a run has left at most; `stepTask_forward` — a step of its task
  lowers it.
* `call_returns`, `run_begins` — calls return, and the task of a run is spawned.
* `run_ends` — a run that was asked to stop ends.
* `stop_is_kept` — it ends in `Stopped`, and writes no other state, unless the stop came after
  the run had decided what to write, or the readiness wait ended ready in spite of it.
* `stop_then_running`, `stop_then_failed` — runs in which it did.
-/

import OpenVHost.Lts.Fair
import OpenVHost.Proc.Served
import OpenVHost.Proc.Stop

namespace OpenVHost.Proc

/-! ### How far a run is from its end -/

/-- How many steps a task has left at most, if no probe attempt fails. -/
@[simp] def Task.left : Task → Nat
  | done => 0
  | emit _ next => next.left + 1
  | log _ _ next => next.left + 2
  | setTerminal _ _ => 2
  | removeRecord _ _ => 3
  | classify _ _ => 6
  | stderrTailSnapshot _ => 7
  | drainReaders _ => 8
  | reap _ _ => 9
  | terminate _ _ => 12
  | supervise => 13
  | setRunning => 15
  | probe _ => 18
  | probeRetry _ | awaitReadiness => 19
  | takePipes => 20
  | recordRunning _ => 23
  | setPid _ => 24
  | spawn => 26
  | queued => 27

@[simp] theorem Task.left_note (line : String) (next : Task) :
    (note line next).left = next.left + 2 := rfl

/-- The task was spawned. -/
@[simp] def Task.begun : Task → Bool
  | queued => false
  | log _ _ next | emit _ next => next.begun
  | _ => true

@[simp] theorem Task.begun_note (line : String) (next : Task) :
    (note line next).begun = next.begun := rfl

/-- The task got a child and has not seen it exit. -/
@[simp] def Task.waits : Task → Bool
  | setPid _ | recordRunning _ | takePipes | awaitReadiness | probe _ | probeRetry _ | setRunning
  | supervise | terminate _ _ | reap _ _ => true
  | log _ _ next | emit _ next => next.waits
  | _ => false

@[simp] theorem Task.waits_note (line : String) (next : Task) :
    (note line next).waits = next.waits := rfl

def Child.left : Child → Nat
  | unborn | alive => 1
  | exited _ => 0

/-- The steps that are left, and the exit of the child. -/
def Run.left (run : Run) : Nat := run.task.left + run.child.left

/-- A run after a step of its task. -/
structure Run.Forward (run : Run) (answer : Answer) (run' : Run) : Prop where
  begun : run.task.begun = true → run'.task.begun = true
  left : (∀ detail, answer ≠ .probeNotReady detail) → run'.left < run.left
  child : run'.task.waits = true →
    run'.child = .alive ∨ run.task.waits = true ∧ run'.child = run.child

section Step

variable {w w' : World} {r : RunId} {run : Run}

theorem Run.forward_of_task {answer : Answer} {run' : Run} (hchild : run'.child = run.child)
    (hbegun : run.task.begun = true → run'.task.begun = true)
    (hleft : (∀ detail, answer ≠ .probeNotReady detail) → run'.task.left < run.task.left)
    (hwaits : run'.task.waits = true → run.task.waits = true) : run.Forward answer run' := by
  refine ⟨hbegun, fun hready => ?_, fun h => .inr ⟨hwaits h, hchild⟩⟩
  rw [Run.left, Run.left, hchild]
  exact Nat.add_lt_add_right (hleft hready) _

/-- **A step of a task** brings its run nearer to the end, a failed probe attempt apart. -/
theorem stepTask_forward {answer : Answer} (h : w.stepTask r run answer = some w') :
    ∃ run', w'.runs r = some run' ∧ run.Forward answer run' := by
  have hgoto : ∀ (w₁ : World) (run₁ : Run) (t : Task), run₁.child = run.child →
      (run.task.begun = true → t.begun = true) →
      ((∀ detail, answer ≠ .probeNotReady detail) → t.left < run.task.left) →
      (t.waits = true → run.task.waits = true) →
      ∃ run', (w₁.goto r run₁ t).runs r = some run' ∧ run.Forward answer run' :=
    fun w₁ run₁ t hchild hbegun hleft hwaits =>
      ⟨_, Function.update_self r _ _, Run.forward_of_task hchild hbegun hleft hwaits⟩
  have hexit : ∀ next, w.onExit r run next = some w' → (∀ s, (next s).begun = true) →
      (∀ s, (next s).left < run.task.left) → (∀ s, (next s).waits = false) →
      ∃ run', w'.runs r = some run' ∧ run.Forward answer run' := by
    intro next h hbegun hleft hwaits
    unfold World.onExit at h
    split at h
    · cases h
      exact hgoto w run _ rfl (fun _ => hbegun _) (fun _ => hleft _) (by simp [hwaits])
    · cases h
    · cases h
  unfold World.stepTask at h
  split at h
  case h_1 ht =>
    -- the child is there from now on
    cases h
    refine ⟨_, Function.update_self r _ _, by simp [ht], fun _ => ?_, fun _ => .inl rfl⟩
    cases hc : run.child <;> simp [Run.left, ht, hc, Child.left]
  case h_6 ht =>
    split at h
    · cases h
      exact hgoto _ _ _ rfl (by simp [ht]) (by simp [ht]) (by simp [ht])
    · exact hexit _ h (by simp) (by simp [ht]) (by simp)
    · cases h
      exact hgoto _ _ _ rfl (by simp [ht]) (by simp [ht]) (by simp [ht])
    · cases h
  case h_8 ht =>
    -- the attempt that fails is the one step that leads back
    cases h
    exact hgoto _ _ _ rfl (by simp [ht]) (fun hready => absurd rfl (hready _)) (by simp [ht])
  case h_9 ht | h_12 ht | h_14 ht | h_16 ht | h_18 ht =>
    exact hexit _ h (by simp) (by simp [ht]) (by simp)
  case h_15 ht | h_19 ht =>
    split at h
    · cases h
      exact hgoto _ _ _ rfl (by simp [ht]) (by simp [ht]) (by simp [ht])
    · cases h
  case h_3 pid ht =>
    cases h
    refine hgoto _ _ _ rfl ?_ ?_ ?_ <;> cases pid <;> simp [ht]
  case h_27 => cases h
  case h_2 ht | h_4 ht | h_5 ht | h_7 ht | h_10 ht | h_11 ht | h_13 ht | h_17 ht | h_20 ht
      | h_21 ht | h_22 ht | h_23 ht | h_24 ht | h_25 ht | h_26 ht =>
    cases h
    exact hgoto _ _ _ rfl (by simp [ht, Task.finishWithState]) (by simp [ht, Task.finishWithState])
      (by simp [ht, Task.finishWithState])

/-- A child that is waited for was there. -/
theorem child_there_of_reachable (h : supervisor.Reachable w) :
    ∀ r run, w.runs r = some run → run.task.waits = true → run.child ≠ .unborn := by
  have hsound : ∀ w, supervisor.Reaches Lts.System.Any w → Sound w := fun _ hw =>
    sound_of_reachable hw
  refine Lts.System.Reaches.invariant_beside
    (I := fun w => ∀ r run, w.runs r = some run → run.task.waits = true → run.child ≠ .unborn)
    hsound ?_ ?_ h
  · rintro w ⟨-, hruns, -, -⟩ r run hr
    rw [hruns r] at hr
    cases hr
  · intro w a w' hs hthere _ hn r run' hr' hwaits
    rcases (aged_next hs hn).cases hr' with ⟨run, hr, -⟩ | hmade
    · rcases next_beside hs hr hn with ⟨answer, -, hstep⟩ | ⟨run₁, hr₁, hbeside⟩
      · obtain ⟨run₁, hr₁, hforward⟩ := stepTask_forward hstep
        obtain rfl : run₁ = run' := Option.some.inj (hr₁.symm.trans hr')
        rcases hforward.child hwaits with halive | ⟨hbefore, hsame⟩
        · simp [halive]
        · rw [hsame]
          exact hthere r run hr hbefore
      · obtain rfl : run₁ = run' := Option.some.inj (hr₁.symm.trans hr')
        rcases hbeside.child with hsame | ⟨-, status, hexited⟩
        · rcases hbeside.task with htask | ⟨-, hspawn⟩
          · rw [hsame]
            exact hthere r run hr (htask ▸ hwaits)
          · simp [hspawn] at hwaits
        · simp [hexited]
    · simp [hmade.task] at hwaits

end Step

/-! ### Calls return -/

/-- How many steps a call has left at most. -/
@[simp] def Call.left : Call → Nat
  | returned _ => 0
  | spawn _ | trySend _ => 1
  | emit _ next => next.left + 1
  | log _ _ next => next.left + 2
  | register _ | unregister _ => 2
  | stop _ => 4
  | start _ => 5

section Calls

variable {w w' : World} {r : RunId} {run : Run} {k : CallId} {c : Call} {a : Action}

theorem stepCall_left {p : World × Call} (h : w.stepCall c = some p) : p.2.left < c.left := by
  cases c with
  | returned result => cases h
  | emit event next | log id line next =>
      cases h
      simp
  | register spec =>
      cases h
      unfold World.register
      split <;> simp
  | unregister id =>
      cases h
      unfold World.unregister
      split
      · simp
      · split <;> simp
  | start id =>
      cases h
      unfold World.start
      split
      · simp
      · split <;> simp
  | stop id =>
      cases h
      unfold World.stop
      split
      · simp
      · split <;> simp
  | spawn r =>
      cases h
      simp
  | trySend control => cases control <;> cases h <;> simp

/-- A call goes on until it has returned. -/
theorem caller_ready (hc : w.calls k = some c)
    (hunreturned : ∀ result, c ≠ .returned result) :
    (w.next (.caller k)).isSome = true := by
  cases c with
  | returned result => exact absurd rfl (hunreturned result)
  | trySend control => cases control <;> simp [World.next, hc, World.stepCall]
  | _ => simp [World.next, hc, World.stepCall]

/-- A caller's own step. -/
theorem calls_own (hc : w.calls k = some c) (h : w.next (.caller k) = some w') :
    ∃ w₁ c', w.stepCall c = some (w₁, c') ∧ w' = w₁.setCall k c' := by
  obtain ⟨c₁, hc₁, h⟩ := Option.bind_eq_some_iff.mp h
  obtain rfl : c = c₁ := Option.some.inj (hc.symm.trans hc₁)
  obtain ⟨⟨w₁, c'⟩, hstep, h⟩ := Option.bind_eq_some_iff.mp h
  cases h
  exact ⟨w₁, c', hstep, rfl⟩

/-- The steps of the others leave a call where it is. -/
theorem calls_other (hcalls : CallsFresh w) (hc : w.calls k = some c) (hother : a ≠ .caller k)
    (h : w.next a = some w') : w'.calls k = some c := by
  have hk : k < w.nextCall := by
    by_contra hle
    rw [hcalls k (not_lt.mp hle)] at hc
    cases hc
  cases next_cases h with
  | call => exact (Function.update_of_ne hk.ne _ _).trans hc
  | task _ hstep => exact (congrFun (stepTask_calls hstep).1 k).trans hc
  | own _ hw _ _ => exact (congrFun hw.calls k).trans hc
  | readerEmit | tick => exact hc
  | @caller j _ _ _ _ hstep =>
      have hne : k ≠ j := fun hkj => hother (congrArg Action.caller hkj.symm)
      exact (Function.update_of_ne hne _ _).trans ((congrFun (stepCall_calls hstep).1 k).trans hc)

theorem call_next (hcalls : CallsFresh w) (hc : w.calls k = some c) (h : w.next a = some w') :
    ∃ c', w'.calls k = some c' ∧
      (c'.left < c.left ∨ c' = c ∧ a ≠ .caller k) := by
  by_cases ha : a = .caller k
  · subst ha
    obtain ⟨w₁, c', hstep, rfl⟩ := calls_own hc h
    exact ⟨c', Function.update_self k _ _, .inl (stepCall_left hstep)⟩
  · exact ⟨c, calls_other hcalls hc ha h, .inr ⟨rfl, ha⟩⟩

/-- **Every call returns**, in a run that is fair to its caller. -/
theorem call_returns {ρ : Lts.System.Path supervisor} (h : supervisor.Reachable (ρ.state 0))
    (hfair : ρ.Fair (· = .caller k) fun w : World => (w.next (.caller k)).isSome = true) {n : Nat}
    (hc : (ρ.state n).calls k = some c) :
    ∃ m, n ≤ m ∧ ∃ result, (ρ.state m).calls k = some (.returned result) := by
  have hthere : ∀ m, n ≤ m → ∃ c, (ρ.state m).calls k = some c := by
    intro m hm
    refine Lts.System.Path.invariant (I := fun w : World => ∃ c, w.calls k = some c) ⟨c, hc⟩
      ?_ hm
    rintro m - ⟨c, hc⟩
    obtain ⟨c', hc', -⟩ := call_next (callsFresh_of_reachable (ρ.reachable h m)) hc (ρ.step m)
    exact ⟨c', hc'⟩
  refine Lts.System.Path.eventually_of_fair
    (fun w : World => ∃ result, w.calls k = some (.returned result))
    (fun w => (w.calls k).elim 0 Call.left) hfair n (fun m hm hgoal => ?_) fun m hm _ => ?_
  · obtain ⟨c, hc⟩ := hthere m hm
    exact caller_ready hc fun result hret => hgoal ⟨result, hret ▸ hc⟩
  · obtain ⟨c, hc⟩ := hthere m hm
    obtain ⟨c', hc', hcase⟩ := call_next (callsFresh_of_reachable (ρ.reachable h m)) hc (ρ.step m)
    rw [hc, hc']
    exact hcase.imp_right fun hsame => ⟨congrArg Call.left hsame.1, hsame.2⟩

theorem returned_next (hcalls : CallsFresh w) {result : Except ProcError Unit}
    (hc : w.calls k = some (.returned result)) (h : w.next a = some w') :
    w'.calls k = some (.returned result) := by
  obtain ⟨c', hc', hless | ⟨rfl, -⟩⟩ := call_next hcalls hc h
  · cases hless
  · exact hc'

end Calls

/-! ### The task of a run is spawned -/

/-- A call of `start` that is still to spawn the task of run `r`. -/
@[simp] def Call.spawns (r : RunId) : Call → Bool
  | spawn r' => r' == r
  | emit _ next | log _ _ next => next.spawns r
  | _ => false

/-- The task of the run was spawned, or call `k` is on its way to do so. -/
def Begun (w : World) (k : CallId) (r : RunId) : Prop :=
  ∃ run, w.runs r = some run ∧ (run.task.begun = true ∨
    run.task = .queued ∧ ∃ c, w.calls k = some c ∧ c.spawns r = true)

section Begun

variable {w w' : World} {r : RunId} {run : Run} {k : CallId} {a : Action}

theorem begun_next (hs : Sound w) (hcalls : CallsFresh w) (hb : Begun w k r)
    (h : w.next a = some w') : Begun w' k r := by
  obtain ⟨run, hr, hb⟩ := hb
  rcases next_beside hs hr h with ⟨answer, -, hstep⟩ | ⟨run', hr', hbeside⟩
  · rcases hb with hbegun | ⟨ht, -⟩
    · obtain ⟨run', hr', hforward⟩ := stepTask_forward hstep
      exact ⟨run', hr', .inl (hforward.begun hbegun)⟩
    · simp [World.stepTask, ht] at hstep
  · refine ⟨run', hr', ?_⟩
    rcases hbeside.task with hsame | ⟨-, hspawn⟩
    · rw [hsame]
      rcases hb with hbegun | ⟨ht, c, hc, hspawns⟩
      · exact .inl hbegun
      refine .inr ⟨ht, ?_⟩
      by_cases ha : a = .caller k
      · subst ha
        obtain ⟨w₁, c', hstep, rfl⟩ := calls_own hc h
        refine ⟨c', Function.update_self k _ _, ?_⟩
        cases c with
        | register | unregister | start | stop | trySend | returned => cases hspawns
        | emit | log =>
            cases hstep
            exact hspawns
        | spawn r' =>
            -- the call spawns the task, so that it is not where it was
            obtain rfl : r' = r := by simpa using hspawns
            cases hstep
            have hnow : (w.spawnTask r').runs r' = some { run with task := .spawn } := by
              simp [World.spawnTask, hr, ht, World.setRun]
            rw [← Option.some.inj (hnow.symm.trans hr'), ht] at hsame
            cases hsame
      · exact ⟨c, calls_other hcalls hc ha h, hspawns⟩
    · exact .inl (by simp [hspawn])

theorem none_setRun {r₂ : RunId} {run₂ run₂' : Run} (hnone : w.runs r = none)
    (hr₂ : w.runs r₂ = some run₂) : (w.setRun r₂ run₂').runs r = none := by
  have hne : r ≠ r₂ := by
    rintro rfl
    cases hnone.symm.trans hr₂
  exact (Function.update_of_ne hne _ _).trans hnone

/-- A run that a call makes is left to that call to spawn. -/
theorem stepCall_made {c : Call} {p : World × Call} (h : w.stepCall c = some p)
    (hnone : w.runs r = none) (hr : p.1.runs r = some run) :
    run.task = .queued ∧ p.2.spawns r = true := by
  have hother : p.1.runs r = none → run.task = .queued ∧ p.2.spawns r = true := by
    intro hstill
    rw [hstill] at hr
    cases hr
  cases c with
  | returned result => cases h
  | emit event next | log id line next =>
      cases h
      exact hother hnone
  | register spec =>
      cases h
      refine hother ?_
      unfold World.register
      split <;> exact hnone
  | unregister id =>
      cases h
      refine hother ?_
      unfold World.unregister
      split
      · exact hnone
      · split <;> exact hnone
  | start id =>
      cases h
      cases he : w.entries id with
      | none => exact hother (by simpa [World.start, he] using hnone)
      | some e =>
          by_cases hlive : e.state.live = true
          · exact hother (by simpa [World.start, he, hlive] using hnone)
          · simp only [World.start, he, hlive, Bool.false_eq_true, if_false] at hr ⊢
            by_cases hnew : r = w.nextRun
            · subst hnew
              cases (Function.update_self w.nextRun _ _).symm.trans hr
              exact ⟨rfl, by simp⟩
            · cases hnone.symm.trans ((Function.update_of_ne hnew _ _).symm.trans hr)
  | stop id =>
      cases h
      refine hother ?_
      unfold World.stop
      split
      · exact hnone
      · split <;> exact hnone
  | spawn r₂ =>
      cases h
      refine hother ?_
      unfold World.spawnTask
      split
      · exact hnone
      · next hr₂ =>
          split
          · exact none_setRun hnone hr₂
          · exact hnone
  | trySend control =>
      cases control with
      | none =>
          cases h
          exact hother hnone
      | some r₂ =>
          cases h
          refine hother ?_
          unfold World.trySend
          split
          · exact hnone
          · next hr₂ =>
              split
              · exact hnone
              · exact none_setRun hnone hr₂

/-- **Every run is spawned, or some call is on its way to do so.** -/
theorem begun_of_reachable (h : supervisor.Reachable w) :
    ∀ r run, w.runs r = some run → ∃ k, Begun w k r := by
  have hknown : ∀ w, supervisor.Reaches Lts.System.Any w → Sound w ∧ CallsFresh w := fun _ hw =>
    ⟨sound_of_reachable hw, callsFresh_of_reachable hw⟩
  refine Lts.System.Reaches.invariant_beside
    (I := fun w => ∀ r run, w.runs r = some run → ∃ k, Begun w k r) hknown ?_ ?_ h
  · rintro w ⟨-, hruns, -, -⟩ r run hr
    rw [hruns r] at hr
    cases hr
  · rintro w a w' ⟨hs, hcalls⟩ hbegun _ hn r run' hr'
    rcases (aged_next hs hn).cases hr' with ⟨run, hr, -⟩ | hmade
    · obtain ⟨k, hk⟩ := hbegun r run hr
      exact ⟨k, begun_next hs hcalls hk hn⟩
    · -- a new run is the work of a call
      have hnone : w.runs r = none := hs.fresh r hmade.fresh.ge
      have hgone : w'.runs r = none → ∃ k, Begun w' k r := by
        intro hstill
        cases hstill.symm.trans hr'
      cases next_cases hn with
      | call | tick => exact hgone hnone
      | readerEmit line hr₂ _ _ => exact hgone (none_setRun hnone hr₂)
      | own hr₂ hw _ _ => exact hgone (none_setRun (hw.runs ▸ hnone) (hw.runs ▸ hr₂))
      | task hr₂ hstep =>
          obtain ⟨w₁, run₂', rfl, hruns, -⟩ := stepTask_older hstep
          exact hgone (none_setRun (hruns ▸ hnone) (hruns ▸ hr₂))
      | @caller k c c' w₁ hc hstep =>
          obtain ⟨htask, hspawns⟩ := stepCall_made hstep hnone hr'
          exact ⟨k, run', hr', .inr ⟨htask, c', Function.update_self k _ _, hspawns⟩⟩

/-- Once the call has returned, the task is spawned, and stays so. -/
theorem begun_of_returned {ρ : Lts.System.Path supervisor} (h : supervisor.Reachable (ρ.state 0))
    {result : Except ProcError Unit} {n m : Nat} (hnm : n ≤ m) (hb : Begun (ρ.state n) k r)
    (hret : (ρ.state m).calls k = some (.returned result)) :
    ∃ run, (ρ.state m).runs r = some run ∧ run.task.begun = true := by
  have hlater : Begun (ρ.state m) k r := by
    refine Lts.System.Path.invariant (I := fun w => Begun w k r) hb (fun p _ hp => ?_) hnm
    have hreach := ρ.reachable h p
    exact begun_next (sound_of_reachable hreach) (callsFresh_of_reachable hreach) hp (ρ.step p)
  obtain ⟨run, hr, hbegun | ⟨-, c, hc, hspawns⟩⟩ := hlater
  · exact ⟨run, hr, hbegun⟩
  · rw [hret, Option.some.injEq] at hc
    subst hc
    cases hspawns

/-- **The task of every run is spawned**, in a run that is fair to the callers. -/
theorem run_begins {ρ : Lts.System.Path supervisor} (h : supervisor.Reachable (ρ.state 0))
    (hfair : ∀ k, ρ.Fair (· = .caller k) fun w : World => (w.next (.caller k)).isSome = true)
    {n : Nat} (hr : (ρ.state n).runs r = some run) :
    ∃ m, n ≤ m ∧ ∃ run, (ρ.state m).runs r = some run ∧ run.task.begun = true := by
  obtain ⟨k, hk⟩ := begun_of_reachable (ρ.reachable h n) r run hr
  obtain ⟨run, hr, hbegun | ⟨ht, c, hc, hspawns⟩⟩ := id hk
  · exact ⟨n, Nat.le_refl n, run, hr, hbegun⟩
  · obtain ⟨m, hm, result, hret⟩ := call_returns h (hfair k) hc
    exact ⟨m, hm, begun_of_returned h hm hk hret⟩

end Begun

/-! ### The end of a run -/

/-- A step of the task of run `r`. -/
def Action.ofTask (r : RunId) : Action → Prop
  | task r' _ => r' = r
  | _ => False

/-- The exit of the child of run `r`. -/
def Action.ofChild (r : RunId) : Action → Prop
  | exit r' _ => r' = r
  | _ => False

/-- The task can take a step, whatever it is told. -/
def World.TaskReady (w : World) (r : RunId) : Prop :=
  ∃ answer, (w.next (.task r answer)).isSome = true

/-- The child was killed and is still there. -/
def World.killed (w : World) (r : RunId) : Bool :=
  (w.runs r).any fun run => match run.task with
    | .reap _ _ => decide (run.child = .alive)
    | _ => false

/-- What is assumed of the scheduling of run `r`: its task and the callers are not passed over
for ever, timers go off, and what the task calls upon answers; a child that was killed exits;
and the probe's deadline passes, so that only finitely many attempts fail. That a child exits
which was not killed is not assumed. -/
structure Scheduled (ρ : Lts.System.Path supervisor) (r : RunId) : Prop where
  task : ρ.Fair (Action.ofTask r) fun w => w.TaskReady r
  child : ρ.Fair (Action.ofChild r) fun w => w.killed r = true
  caller : ∀ k, ρ.Fair (· = .caller k) fun w : World => (w.next (.caller k)).isSome = true
  probe : ∃ n, ∀ m, n ≤ m → ∀ detail, ρ.act m ≠ .task r (.probeNotReady detail)

section Ends

variable {w w' : World} {r : RunId} {run : Run} {id : ServiceId} {k : CallId} {a : Action}

theorem killed_of_run (hr : w.runs r = some run) :
    w.killed r = true ↔ (∃ probing extra, run.task = .reap probing extra) ∧ run.child = .alive := by
  unfold World.killed
  rw [hr]
  cases ht : run.task <;> simp [ht]

/-- A run that was asked to stop always has a step to take, a killed child apart. -/
theorem taskReady_of_requested (hr : w.runs r = some run) (hbegun : run.task.begun = true)
    (hthere : run.task.waits = true → run.child ≠ .unborn)
    (hreq : run.mailbox = true ∨ run.task.over = true) (hundone : run.task ≠ .done)
    (hspared : w.killed r ≠ true) : w.TaskReady r := by
  have hstep : ∀ answer, (w.stepTask r run answer).isSome = true → w.TaskReady r := by
    intro answer h
    exact ⟨answer, by simpa [World.next, hr] using h⟩
  cases ht : run.task with
  | queued => simp [ht] at hbegun
  | done => exact absurd ht hundone
  | spawn => exact hstep (.spawned none) (by simp [World.stepTask, ht])
  | recordRunning pid => exact hstep (.recorded none false) (by simp [World.stepTask, ht])
  | awaitReadiness =>
      cases hready : run.readiness with
      | aliveAfter bound => exact hstep .elapsed (by simp [World.stepTask, ht, hready])
      | command argv deadline => exact hstep .go (by simp [World.stepTask, ht, hready])
  | probe detail => exact hstep .probeReady (by simp [World.stepTask, ht])
  | probeRetry _ | terminate _ _ | drainReaders _ =>
      exact hstep .elapsed (by simp [World.stepTask, ht])
  | supervise =>
      -- the request is in the channel
      have hmail : run.mailbox = true := by simpa [ht] using hreq
      exact hstep .received (by simp [World.stepTask, ht, hmail])
  | reap probing extra =>
      cases hchild : run.child with
      | unborn => exact absurd hchild (hthere (by simp [ht]))
      | alive => exact absurd ((killed_of_run hr).mpr ⟨⟨probing, extra, ht⟩, hchild⟩) hspared
      | exited status => exact hstep .exited (by simp [World.stepTask, ht, World.onExit, hchild])
  | removeRecord state detail => exact hstep (.removed false) (by simp [World.stepTask, ht])
  | setPid _ | takePipes | setRunning | stderrTailSnapshot _ | classify _ _ | setTerminal _ _
  | log _ _ _ | emit _ _ => exact hstep .go (by simp [World.stepTask, ht])

theorem exit_next {status : Option ExitStatus} (hr : w.runs r = some run)
    (h : w.next (.exit r status) = some w') {run' : Run} (hr' : w'.runs r = some run') :
    run.child = .alive ∧ run'.child = .exited status := by
  simp only [World.next, hr, bind, Option.bind, Option.ite_none_right_eq_some,
    Option.some.injEq] at h
  obtain ⟨halive, rfl⟩ := h
  cases (Function.update_self r _ _).symm.trans hr'
  exact ⟨halive, rfl⟩

/-- **What a step leaves of a run's way to its end**: it is shorter by the steps of its task and
the exit of its child, and as long as it was after any other step. -/
theorem left_next (hs : Sound w) (hr : w.runs r = some run) (hbegun : run.task.begun = true)
    (hprobe : ∀ detail, a ≠ .task r (.probeNotReady detail)) (h : w.next a = some w') :
    ∃ run', w'.runs r = some run' ∧ run'.task.begun = true ∧
      (run'.left < run.left ∨ run'.left = run.left ∧ w'.killed r = w.killed r ∧
        ¬ a.ofTask r ∧ ¬ a.ofChild r) := by
  rcases next_beside hs hr h with ⟨answer, rfl, hstep⟩ | ⟨run', hr', hbeside⟩
  · obtain ⟨run', hr', hforward⟩ := stepTask_forward hstep
    refine ⟨run', hr', hforward.begun hbegun, .inl (hforward.left fun detail heq => ?_)⟩
    exact hprobe detail (heq ▸ rfl)
  · have htask : run'.task = run.task := by
      rcases hbeside.task with hsame | ⟨hqueued, -⟩
      · exact hsame
      · simp [hqueued] at hbegun
    refine ⟨run', hr', htask ▸ hbegun, ?_⟩
    rcases hbeside.child with hchild | ⟨halive, status, hexited⟩
    · have hleft : run'.left = run.left := by rw [Run.left, Run.left, htask, hchild]
      refine .inr ⟨hleft, ?_, fun htaken => ?_, fun htaken => ?_⟩
      · rw [Bool.eq_iff_iff, killed_of_run hr', killed_of_run hr, htask, hchild]
      · obtain ⟨answer, rfl⟩ : ∃ answer, a = .task r answer := by
          cases a <;> simp_all [Action.ofTask]
        obtain ⟨run₁, hr₁, hstep⟩ := Option.bind_eq_some_iff.mp h
        obtain rfl : run₁ = run := Option.some.inj (hr₁.symm.trans hr)
        obtain ⟨run₂, hr₂, hforward⟩ := stepTask_forward hstep
        obtain rfl : run₂ = run' := Option.some.inj (hr₂.symm.trans hr')
        have hless := hforward.left fun detail heq => hprobe detail (heq ▸ rfl)
        omega
      · obtain ⟨status, rfl⟩ : ∃ status, a = .exit r status := by
          cases a <;> simp_all [Action.ofChild]
        obtain ⟨halive, hexited⟩ := exit_next hr h hr'
        simp [hchild, halive] at hexited
    · exact .inl (by simp [Run.left, htask, halive, hexited, Child.left])

theorem returned_stays {ρ : Lts.System.Path supervisor} (h : supervisor.Reachable (ρ.state 0))
    {result : Except ProcError Unit} {n m : Nat} (hnm : n ≤ m)
    (hret : (ρ.state n).calls k = some (.returned result)) :
    (ρ.state m).calls k = some (.returned result) := by
  refine Lts.System.Path.invariant (I := fun w : World => w.calls k = some (.returned result))
    hret (fun p _ hp => ?_) hnm
  exact returned_next (callsFresh_of_reachable (ρ.reachable h p)) hp (ρ.step p)

/-- **A run that was asked to stop ends**, in a run of the supervisor that is fair to it. -/
theorem run_ends {ρ : Lts.System.Path supervisor} (h : supervisor.Reachable (ρ.state 0))
    (hsched : Scheduled ρ r) (hr : (ρ.state 0).runs r = some run) {c : Call}
    (hc : (ρ.state 0).calls k = some c) (hreq : ∀ n, Requested (ρ.state n) k r) :
    ∃ n run, (ρ.state n).runs r = some run ∧ run.task = .done := by
  obtain ⟨n₁, -, run₁, hr₁, hbegun₁⟩ := run_begins h hsched.caller hr
  obtain ⟨n₂, -, result, hret₂⟩ := call_returns h (hsched.caller k) hc
  obtain ⟨n₃, hprobe⟩ := hsched.probe
  -- from here on the task is spawned, `stop` has returned, and no probe attempt fails
  let n := max n₁ (max n₂ n₃)
  have hret : ∀ m, n ≤ m → (ρ.state m).calls k = some (.returned result) := fun m hm =>
    returned_stays h (by omega) hret₂
  have hbegun : ∀ m, n ≤ m → ∃ run, (ρ.state m).runs r = some run ∧ run.task.begun = true :=
    fun m hm => begun_of_returned h ((Nat.le_max_left n₁ _).trans hm)
      ⟨run₁, hr₁, .inl hbegun₁⟩ (hret m hm)
  have hfair : ∀ b, ρ.Fair (bif b then Action.ofChild r else Action.ofTask r)
      (fun w => bif b then w.killed r = true else w.TaskReady r) := by
    rintro (_ | _)
    · exact hsched.task
    · exact hsched.child
  have hready : ∀ m, n ≤ m → (¬ ∃ run, (ρ.state m).runs r = some run ∧ run.task = .done) →
      bif (ρ.state m).killed r then (ρ.state m).killed r = true else (ρ.state m).TaskReady r := by
    intro m hm hgoal
    obtain ⟨run, hr, hbegun⟩ := hbegun m hm
    obtain ⟨run', hr', hreq⟩ := hreq m
    obtain rfl : run' = run := Option.some.inj (hr'.symm.trans hr)
    have hthere := child_there_of_reachable (ρ.reachable h m) r run' hr
    have hheld : run'.mailbox = true ∨ run'.task.over = true := by
      rcases hreq with ⟨c, hc, hbrings⟩ | hheld
      · rw [hret m hm, Option.some.injEq] at hc
        subst hc
        cases hbrings
      · exact hheld
    cases hkilled : (ρ.state m).killed r with
    | true => exact rfl
    | false =>
        exact taskReady_of_requested hr hbegun hthere hheld (fun hdone => hgoal ⟨run', hr, hdone⟩)
          (by simp [hkilled])
  obtain ⟨m, -, hdone⟩ := Lts.System.Path.eventually
    (fun w : World => ∃ run, w.runs r = some run ∧ run.task = .done)
    (fun w => w.killed r) (fun w => (w.runs r).elim 0 Run.left) hfair n hready fun m hm _ => by
      obtain ⟨run, hr, hbegun⟩ := hbegun m hm
      obtain ⟨run', hr', -, hcase⟩ := left_next (sound_of_reachable (ρ.reachable h m)) hr hbegun
        (hprobe m (by omega)) (ρ.step m)
      rw [hr, hr']
      refine hcase.imp_right fun ⟨hsame, hkilled, htask, hchild⟩ => ⟨hsame, hkilled, ?_⟩
      cases (ρ.state m).killed r with
      | false => exact htask
      | true => exact hchild
  exact ⟨m, hdone⟩

/-- The step with which a run ends is its last write. -/
theorem last_write (hs : Sound w) (hr : w.runs r = some run) (hunended : run.task.ended = false)
    (h : w.next a = some w') {run' : Run} (hr' : w'.runs r = some run')
    (hended : run'.task.ended = true) :
    ∃ state detail, WritesNext run.task state detail .done ∧
      run'.task = .emit (.stateChanged run.id state detail) .done ∧
      ∃ e, w'.entries run.id = some e ∧ e.state = state := by
  rcases next_beside hs hr h with ⟨answer, -, hstep⟩ | ⟨run₁, hr₁, hbeside⟩
  · cases stepTask_cases hstep with
    | quiet _ hk _ =>
        cases (Function.update_self r _ _).symm.trans hr'
        rw [hk.ended, hunended] at hended
        cases hended
    | emit ht =>
        cases (Function.update_self r _ _).symm.trans hr'
        rw [ht] at hunended
        cases hunended.symm.trans hended
    | @write state detail next ht =>
        cases (Function.update_self r _ _).symm.trans hr'
        generalize htask : run.task = t at ht
        cases ht with
        | running => cases hended
        | terminal state detail =>
            obtain ⟨e, he, -⟩ := World.current_eq_some.mp (hs.unended r run hr hunended)
            refine ⟨state.1, detail, .terminal state detail, rfl,
              { e with state := state.1, pid := none, control := none }, ?_, rfl⟩
            show (w.setState run.id state.1).entries run.id = _
            rw [World.setState, World.entries_modify, if_pos rfl, he, Option.map_some,
              if_neg (by simp [state.2])]
  · obtain rfl : run₁ = run' := Option.some.inj (hr₁.symm.trans hr')
    rcases hbeside.task with hsame | ⟨-, hspawn⟩
    · rw [hsame, hunended] at hended
      cases hended
    · simp [hspawn] at hended

/-- After its last write a run broadcasts it, and does nothing else. -/
theorem ended_next (hs : Sound w) {event : Event} {before : Nat} (hbefore : before ≤ w.events.length)
    (hr : w.runs r = some run)
    (htold : run.task = .emit event .done ∨ run.task = .done ∧ event ∈ w.events.drop before)
    (h : w.next a = some w') :
    before ≤ w'.events.length ∧ ∃ run', w'.runs r = some run' ∧
      (run'.task = .emit event .done ∨ run'.task = .done ∧ event ∈ w'.events.drop before) := by
  obtain ⟨more, hevents, -⟩ := events_next h
  have hkept : event ∈ w.events.drop before → event ∈ w'.events.drop before := by
    intro hmem
    rw [hevents, List.drop_append_of_le_length hbefore]
    exact List.mem_append_left _ hmem
  refine ⟨by rw [hevents, List.length_append]; omega, ?_⟩
  rcases next_beside hs hr h with ⟨answer, -, hstep⟩ | ⟨run', hr', hbeside⟩
  · rcases htold with ht | ⟨ht, -⟩
    · cases answer with
      | go =>
          simp only [World.stepTask, ht, Option.some.injEq] at hstep
          subst hstep
          refine ⟨_, Function.update_self r _ _, .inr ⟨rfl, ?_⟩⟩
          show event ∈ (w.events ++ [event]).drop before
          rw [List.drop_append_of_le_length hbefore]
          simp
      | _ => simp [World.stepTask, ht] at hstep
    · simp [World.stepTask, ht] at hstep
  · refine ⟨run', hr', ?_⟩
    have htask : run'.task = run.task := by
      rcases hbeside.task with hsame | ⟨hqueued, -⟩
      · exact hsame
      · simp [hqueued] at htold
    rw [htask]
    exact htold.imp_right fun hdone => ⟨hdone.1, hkept hdone.2⟩

/-- **The end of a run that was asked to stop**: its row says `Stopped`, the event is broadcast
after that, and its task is done. -/
def EndsStopped (ρ : Lts.System.Path supervisor) (id : ServiceId) (r : RunId) : Prop :=
  ∃ m n, m ≤ n ∧ (∃ e, (ρ.state m).entries id = some e ∧ e.state = .stopped) ∧
    (∃ run, (ρ.state n).runs r = some run ∧ run.task = .done) ∧
    ∃ detail, .stateChanged id .stopped detail ∈ (ρ.state n).events.drop (ρ.state m).events.length

/-- A run stays a run of its service. -/
theorem run_stays {ρ : Lts.System.Path supervisor} (h : supervisor.Reachable (ρ.state 0))
    (hserves : (ρ.state 0).Serves id r) (p : Nat) :
    ∃ run, (ρ.state p).runs r = some run ∧ run.id = id := by
  obtain ⟨run, hr, hid, -⟩ := hserves
  refine Lts.System.Path.invariant (I := fun w : World => ∃ run, w.runs r = some run ∧ run.id = id)
    ⟨run, hr, hid⟩ (fun p _ hp => ?_) (Nat.zero_le p)
  obtain ⟨run, hr, hid⟩ := hp
  obtain ⟨run', hr', hold⟩ :=
    (aged_next (sound_of_reachable (ρ.reachable h p)) (ρ.step p)).kept r run hr
  exact ⟨run', hr', hold.id.trans hid⟩

/-- A run that is done has written its last state on the way. -/
theorem endsStopped_of_done {ρ : Lts.System.Path supervisor} (h : supervisor.Reachable (ρ.state 0))
    (hserves : (ρ.state 0).Serves id r)
    (hwrites : ∀ n run state detail next, (ρ.state n).runs r = some run →
      WritesNext run.task state detail next → state = .stopped)
    {n : Nat} (hr : (ρ.state n).runs r = some run) (hdone : run.task = .done) :
    EndsStopped ρ id r := by
  -- the first moment at which the last state is written
  have hsome : ∃ p, ∃ run, (ρ.state p).runs r = some run ∧ run.task.ended = true :=
    ⟨n, run, hr, by simp [hdone]⟩
  classical
  have hfirst := Nat.find_spec hsome
  have hleast : Nat.find hsome ≤ n := Nat.find_min' hsome ⟨run, hr, by simp [hdone]⟩
  have hbefore := fun p => Nat.find_min hsome (m := p)
  generalize Nat.find hsome = m at hfirst hleast hbefore
  obtain ⟨run₁, hr₁, hended⟩ := hfirst
  cases m with
  | zero =>
      obtain ⟨run₀, hr₀, -, hunended⟩ := hserves
      rw [hr₁, Option.some.injEq] at hr₀
      rw [hr₀, hunended] at hended
      cases hended
  | succ p =>
      obtain ⟨run₀, hr₀, rfl⟩ := run_stays h hserves p
      have hunended : run₀.task.ended = false := by
        by_contra hnot
        exact hbefore p (Nat.lt_succ_self p) ⟨run₀, hr₀, by simpa using hnot⟩
      obtain ⟨state, detail, hwrite, htask, hrow⟩ :=
        last_write (sound_of_reachable (ρ.reachable h p)) hr₀ hunended (ρ.step p) hr₁ hended
      obtain rfl := hwrites p run₀ state detail .done hr₀ hwrite
      refine ⟨p + 1, n, hleast, hrow, ⟨run, hr, hdone⟩, detail, ?_⟩
      obtain ⟨-, run₂, hr₂, htold⟩ := Lts.System.Path.invariant
        (I := fun w : World => (ρ.state (p + 1)).events.length ≤ w.events.length ∧
          ∃ run, w.runs r = some run ∧
            (run.task = .emit (.stateChanged run₀.id .stopped detail) .done ∨
              run.task = .done ∧ .stateChanged run₀.id .stopped detail ∈
                w.events.drop (ρ.state (p + 1)).events.length))
        ⟨Nat.le_refl _, run₁, hr₁, .inl htask⟩
        (fun q _ ⟨hlength, run, hr, htold⟩ =>
          ended_next (sound_of_reachable (ρ.reachable h q)) hlength hr htold (ρ.step q)) hleast
      obtain rfl : run₂ = run := Option.some.inj (hr₂.symm.trans hr)
      rcases htold with hpending | ⟨-, htold⟩
      · rw [hdone] at hpending
        cases hpending
      · exact htold

/-- A stop is accepted only for a run that has not ended. -/
theorem serves_of_stop (h : supervisor.Reachable w) (hc : w.calls k = some (.stop id))
    (hcur : w.current id = some r) (hn : w.next (.caller k) = some w') : w'.Serves id r := by
  obtain ⟨e, -, rfl⟩ := stop_accepted hc hcur hn
  obtain ⟨e', he', hlive, hcontrol⟩ := World.current_eq_some.mp hcur
  obtain ⟨r', hr', hserves⟩ := served_of_reachable h id e' he' hlive
  obtain rfl : r = r' := Option.some.inj (hcontrol.symm.trans hr')
  exact hserves

/-- **A stop is kept**: a run for which `stop` was accepted writes no state but `Stopped`
afterwards, if it had decided on no other and is not found ready after it. Once `stop` has
returned, it goes over to terminating its child where it serves it. And in every run of the
supervisor that is fair to it, it ends. -/
theorem stop_is_kept (h : supervisor.Reachable w) (hc : w.calls k = some (.stop id))
    (hcur : w.current id = some r)
    (hundecided : ∀ run state, w.runs r = some run → run.task.decided = some state →
      state = .stopped)
    (hn : w.next (.caller k) = some w') :
    (∀ w'' run, supervisor.Leads (Unready r) w' w'' → w''.runs r = some run →
      (∀ state detail next, WritesNext run.task state detail next → state = .stopped) ∧
      ∀ result, w''.calls k = some (.returned result) → run.task = .supervise →
        w''.next (.task r .received) =
          some (w''.goto r { run with mailbox := false } (.terminate false []))) ∧
    ∀ ρ : Lts.System.Path supervisor, ρ.state 0 = w' → ρ.Keeps (Unready r) → Scheduled ρ r →
      EndsStopped ρ id r := by
  constructor
  · intro w'' run hl hr
    refine ⟨fun state detail next => writes_stopped h hc hcur hundecided hn hl hr, ?_⟩
    intro result hret ht
    exact stop_is_delivered h hc hcur hn (hl.mono fun _ _ _ => trivial) hret hr ht
  · rintro ρ rfl hkeeps hsched
    have hreach : supervisor.Reachable (ρ.state 0) := .step (a := .caller k) h trivial hn
    have hserves := serves_of_stop h hc hcur hn
    obtain ⟨run, hr, -⟩ := serves_of_stop h hc hcur hn
    obtain ⟨e, -, hw'⟩ := stop_accepted hc hcur hn
    have hcall : (ρ.state 0).calls k =
        some (.log id "stop requested by user" (.trySend (some r))) := by
      rw [hw']
      exact Function.update_self k _ _
    obtain ⟨n, run', hr', hdone⟩ := run_ends hreach hsched hr hcall fun n =>
      requested_of_stop h hc hcur hn (ρ.leads_any (Nat.zero_le n))
    refine endsStopped_of_done hreach hserves ?_ hr' hdone
    intro m run₁ state detail next hr₁
    exact writes_stopped h hc hcur hundecided hn (hkeeps.leads (Nat.zero_le m)) hr₁

/-! ### A stop that is kept, and stops that are overtaken -/

/-- Only the clock goes on. -/
def idlePath (w : World) : Lts.System.Path supervisor where
  state n := { w with clock := w.clock + n }
  act _ := .tick
  step _ := rfl

theorem Scheduled.of_drop {ρ : Lts.System.Path supervisor} {d : Nat}
    (h : Scheduled (ρ.drop d) r) : Scheduled ρ r := by
  refine ⟨h.task.of_drop, h.child.of_drop, fun k => (h.caller k).of_drop, ?_⟩
  obtain ⟨n, hn⟩ := h.probe
  refine ⟨n + d, fun m hm detail => ?_⟩
  obtain ⟨q, rfl⟩ := Nat.exists_eq_add_of_le (le_of_add_le_right hm)
  rw [Nat.add_comm d q]
  exact hn q (by omega) detail

/-- Where every call has returned and the run is done, there is nothing to schedule. -/
theorem scheduled_idle (hcalls : ∀ k c, w.calls k = some c → ∃ result, c = .returned result)
    (hr : w.runs r = some run) (hdone : run.task = .done) : Scheduled (idlePath w) r := by
  refine ⟨fun n => ⟨n, Nat.le_refl n, .inr ?_⟩, fun n => ⟨n, Nat.le_refl n, .inr ?_⟩,
    fun k n => ⟨n, Nat.le_refl n, .inr ?_⟩, 0, fun _ _ _ => nofun⟩
  · rintro ⟨answer, h⟩
    simp [idlePath, World.next, hr, World.stepTask, hdone] at h
  · simp [idlePath, World.killed, hr, hdone]
  · cases hc : w.calls k with
    | none => simp [idlePath, World.next, hc]
    | some c =>
        obtain ⟨result, rfl⟩ := hcalls k c hc
        simp [idlePath, World.next, hc, World.stepCall]

/-- Whether call `k` is a stop that is about to be accepted for run `r`. -/
def World.stopsAt (w : World) (k : CallId) (id : ServiceId) (r : RunId) : Bool :=
  (w.calls k).any (fun c => match c with
    | .stop i => decide (i = id)
    | _ => false) && decide (w.current id = some r)

def World.writesAt (w : World) (r : RunId) (state : ServiceState) : Bool :=
  (w.runs r).any fun run => match run.task with
    | .setRunning => decide (state = .running)
    | .setTerminal s _ => decide (s.1 = state)
    | _ => false

def World.decidedStop (w : World) (r : RunId) : Bool :=
  (w.runs r).all fun run => run.task.decided.all fun state => decide (state = .stopped)

def unreadyStep (r : RunId) (w : World) : Action → Bool
  | .task r' answer => (w.runs r).all fun run => r' != r || !run.readied answer
  | _ => true

theorem stopsAt_iff :
    w.stopsAt k id r = true ↔ w.calls k = some (.stop id) ∧ w.current id = some r := by
  unfold World.stopsAt
  cases hc : w.calls k with
  | none => simp
  | some c => cases c <;> simp

theorem exists_of_writesAt {state : ServiceState} (h : w.writesAt r state = true) :
    ∃ run detail next, w.runs r = some run ∧ WritesNext run.task state detail next := by
  obtain ⟨run, hr, hw⟩ := (Option.any_eq_true _ _).mp h
  split at hw
  · next ht =>
      obtain rfl := of_decide_eq_true hw
      exact ⟨run, none, .supervise, hr, ht ▸ .running⟩
  · next terminal detail ht =>
      obtain rfl := of_decide_eq_true hw
      exact ⟨run, detail, .done, hr, ht ▸ .terminal terminal detail⟩
  · cases hw

theorem unready_of_step {a : Action} (h : unreadyStep r w a = true) : Unready r w a := by
  rintro run answer hr rfl
  simpa [unreadyStep, hr] using h

/-- The rest of a stop, once it is accepted. -/
def restOfStop : List Action := List.replicate 2 (.caller 2)

/-- The rest of the run: the request is taken, the grace passes, and the killed child exits. -/
def stoppedRun : List Action :=
  restOfStop ++ [.caller 2, .task 0 .received, .task 0 .elapsed, .task 0 .go, .task 0 .go,
    .exit 0 (some ⟨none, "signal: 9 (SIGKILL)"⟩), .task 0 .exited, .task 0 .elapsed] ++
    List.replicate 4 (.task 0 .go) ++ [.task 0 (.removed true), .task 0 .go, .task 0 .go]

def World.doneAt (w : World) (r : RunId) : Bool :=
  (w.runs r).any fun run => match run.task with
    | .done => true
    | _ => false

theorem returned_of_atRest (h : supervisor.Reachable w) (hrest : w.atRest = true) :
    ∀ k c, w.calls k = some c → ∃ result, c = .returned result := by
  intro k c hc
  have hk : k < w.nextCall := by
    by_contra hle
    rw [callsFresh_of_reachable h k (not_lt.mp hle)] at hc
    cases hc
  have hall := List.all_eq_true.mp ((Bool.and_eq_true _ _).mp hrest).1 k (List.mem_range.mpr hk)
  rw [hc] at hall
  cases c with
  | returned result => exact ⟨result, rfl⟩
  | _ => cases hall

theorem exists_of_doneAt (h : w.doneAt r = true) :
    ∃ run, w.runs r = some run ∧ run.task = .done := by
  obtain ⟨run, hr, hdone⟩ := (Option.any_eq_true _ _).mp h
  split at hdone
  · next ht => exact ⟨run, hr, ht⟩
  · cases hdone

/-- A service is stopped while it runs, and its child has to be killed. -/
theorem stop_is_kept_running :
    ∃ ρ : Lts.System.Path supervisor, supervisor.Reachable (ρ.state 0) ∧
      EndsStopped ρ "web" 0 := by
  obtain ⟨w, hw, hstop⟩ := Lts.System.exists_of_exec (S := supervisor)
    (upToReadiness ++ .task 0 .elapsed :: List.replicate 4 (.task 0 .go) ++ [.call (.stop "web")])
    (fun w => w.stopsAt 2 "web" 0 && w.decidedStop 0 && (w.next (.caller 2)).any fun w' =>
      (supervisor.execWhile (unreadyStep 0) w' stoppedRun).any fun w'' => w''.atRest && w''.doneAt 0)
    (.init initial_new) (by decide +kernel)
  simp only [Bool.and_eq_true, stopsAt_iff, Option.any_eq_true] at hstop
  obtain ⟨⟨⟨hc, hcur⟩, hdecided⟩, w', hn, w'', hexec, hrest, hdone⟩ := hstop
  have hreach' : supervisor.Reachable w' := .step (a := .caller 2) hw trivial hn
  have hreach : supervisor.Reachable w'' :=
    ((Lts.System.leads_of_execWhile (fun _ _ => unready_of_step) hexec).mono
      fun _ _ _ => trivial).reaches hreach'
  have hidle : (idlePath w'').Keeps (Unready 0) := by
    intro n run answer _ ha
    cases ha
  obtain ⟨ρ, hfirst, hkeeps, hdrop⟩ := Lts.System.Path.exists_of_execWhile (ρ := idlePath w'')
    (fun _ _ => unready_of_step) hidle hexec
  obtain ⟨run, hr, hend⟩ := exists_of_doneAt hdone
  have hsched : Scheduled (ρ.drop stoppedRun.length) 0 := by
    rw [hdrop]
    exact scheduled_idle (returned_of_atRest hreach hrest) hr hend
  refine ⟨ρ, hfirst ▸ hreach', ?_⟩
  refine (stop_is_kept hw hc hcur (fun run₀ state hr₀ hstate => ?_) hn).2 ρ hfirst hkeeps
    hsched.of_drop
  simpa [World.decidedStop, hr₀, hstate] using hdecided

/-- A stop of run 0 returned, and the run is about to write another state. -/
def Overtaken (state : ServiceState) : Prop :=
  ∃ (w w' w'' : World) (run : Run) (detail : Option String) (next : Task),
    supervisor.Reachable w ∧ w.calls 2 = some (.stop "web") ∧ w.current "web" = some 0 ∧
      w.next (.caller 2) = some w' ∧ supervisor.Leads Lts.System.Any w' w'' ∧
      w''.calls 2 = some (.returned (.ok ())) ∧ w''.runs 0 = some run ∧
      WritesNext run.task state detail next

def World.returnedAt (w : World) (k : CallId) : Bool :=
  (w.calls k).any fun c => match c with
    | .returned (.ok ()) => true
    | _ => false

theorem overtaken_of_exec {state : ServiceState} (before after : List Action)
    (h : ((supervisor.exec World.new before).any fun w => w.stopsAt 2 "web" 0 &&
      (w.next (.caller 2)).any fun w' => (supervisor.exec w' after).any fun w'' =>
        w''.returnedAt 2 && w''.writesAt 0 state) = true) : Overtaken state := by
  obtain ⟨w, hw, hstop⟩ := Lts.System.exists_of_exec before _ (.init initial_new) h
  simp only [Bool.and_eq_true, stopsAt_iff, Option.any_eq_true] at hstop
  obtain ⟨⟨hc, hcur⟩, w', hn, w'', hexec, hret, hwrites⟩ := hstop
  obtain ⟨run, detail, next, hr, hnext⟩ := exists_of_writesAt hwrites
  refine ⟨w, w', w'', run, detail, next, hw, hc, hcur, hn, Lts.System.leads_of_exec hexec, ?_, hr,
    hnext⟩
  obtain ⟨c, hc'', hreturned⟩ := (Option.any_eq_true _ _).mp hret
  split at hreturned
  · exact hc''
  · cases hreturned

/-- A service is stopped while it starts up, and its bound passes afterwards. -/
theorem stop_then_running : Overtaken .running :=
  overtaken_of_exec (upToReadiness ++ [.call (.stop "web")])
    (restOfStop ++ [.caller 2, .task 0 .elapsed, .task 0 .go, .task 0 .go]) (by decide +kernel)

/-- A service is stopped while its row says `Running`; its child has left with an error,
and its task has classified that already. -/
theorem stop_then_failed : Overtaken (.failed (some 1) []) :=
  overtaken_of_exec
    (upToReadiness ++ .task 0 .elapsed :: List.replicate 4 (.task 0 .go) ++
      [.exit 0 (some ⟨some 1, "exit status: 1"⟩), .task 0 .exited, .task 0 .elapsed, .task 0 .go,
        .task 0 .go, .call (.stop "web")])
    (restOfStop ++ [.caller 2, .task 0 .go, .task 0 .go, .task 0 (.removed true)])
    (by decide +kernel)

end Ends

end OpenVHost.Proc
