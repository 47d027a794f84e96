/-
# A running child is recorded

A run's child is recorded in the orphan registry under the service's id, and the
run removes that record at its end, before the write that lets the service be
started again. So the removal of one run always comes before the next run is
made.

* `Aged` — what a step leaves of the runs, whoever takes it.
* `earlier_ended` — a later run of a service begins after its earlier runs ended.
* `record_last` — the last call about a service is the recording of its running child.
* `record_held` — within one boot, and as long as each recording fits the registry's
  file, the file lists the child's record.
* `record_dropped` — where the boot id shifts, another service's recording drops it.
-/

import OpenVHost.Proc.SingleRun

namespace OpenVHost.Proc

open OpenVHost.Orphan (Op ProcStartTime SupervisedRecord SerdeJson BootId Disk Produced OneBoot
  Accommodated trace after)

/-! ### The runs, from one step to the next -/

/-- How far a task is: its child may still be recorded; the record is not removed
yet; the last write is still to come; it is done. -/
@[simp] def Task.phase : Task → Nat
  | queued | spawn | setPid _ | recordRunning _ => 0
  | takePipes | awaitReadiness | probe _ | probeRetry _ | setRunning | supervise
  | terminate _ _ | reap _ _ | drainReaders _ | stderrTailSnapshot _ | classify _ _
  | removeRecord _ _ => 1
  | setTerminal _ _ => 2
  | done => 3
  | log _ _ next | emit _ next => next.phase

@[simp] theorem Task.phase_note (line : String) (next : Task) : (note line next).phase = next.phase :=
  rfl

theorem Task.ended_iff (t : Task) : t.ended = true ↔ t.phase = 3 := by
  induction t with
  | log _ _ next ih | emit _ next ih => exact ih
  | _ => simp

theorem Task.phase_lt_of_childless {t : Task} (h : t.childless = false) : t.phase < 2 := by
  induction t with
  | log _ _ next ih | emit _ next ih => exact ih h
  | _ => simp at h ⊢

/-- A run a step later. -/
structure Run.Older (run run' : Run) : Prop where
  id : run'.id = run.id
  stopFlag : run'.stopFlag = run.stopFlag
  phase : run.task.phase ≤ run'.task.phase

theorem Run.Older.refl (run : Run) : run.Older run := ⟨rfl, rfl, Nat.le_refl _⟩

/-- The run that `start` makes in a row that leads to none. -/
structure Made (w : World) (r : RunId) (run : Run) : Prop where
  fresh : r = w.nextRun
  idle : w.current run.id = none
  task : run.task = .queued
  absent : run.stderr = .absent
  entry : ∃ e, w.entries run.id = some e ∧ e.stopRequested = run.stopFlag

/-- The runs there were go on, and the others are new. -/
structure Aged (w w' : World) : Prop where
  kept : ∀ r run, w.runs r = some run → ∃ run', w'.runs r = some run' ∧ run.Older run'
  made : ∀ r run', w.runs r = none → w'.runs r = some run' → Made w r run'

section Aged

variable {w w' : World} {r : RunId} {run run' : Run}

theorem Aged.of_eq (h : w'.runs = w.runs) : Aged w w' := by
  constructor
  · intro r run hr
    exact ⟨run, by rw [h, hr], .refl run⟩
  · intro r run' hr hr'
    rw [h, hr] at hr'
    cases hr'

theorem aged_setRun {w₁ : World} (hr : w.runs r = some run) (ho : run.Older run')
    (h : w₁.runs = w.runs) : Aged w (w₁.setRun r run') := by
  have hother : ∀ r', r' ≠ r → (w₁.setRun r run').runs r' = w.runs r' := fun r' hne =>
    (Function.update_of_ne hne _ _).trans (congrFun h r')
  constructor
  · intro r' run'' hr'
    by_cases heq : r' = r
    · subst heq
      rw [hr] at hr'
      cases hr'
      exact ⟨run', Function.update_self r' _ _, ho⟩
    · exact ⟨run'', by rw [hother r' heq, hr'], .refl run''⟩
  · intro r' run'' hnone hr'
    by_cases heq : r' = r
    · subst heq
      rw [hr] at hnone
      cases hnone
    · rw [hother r' heq, hnone] at hr'
      cases hr'

/-- A run that is there was there before, or is new. -/
theorem Aged.cases (h : Aged w w') (hr : w'.runs r = some run') :
    (∃ run, w.runs r = some run ∧ run.Older run') ∨ Made w r run' := by
  cases hold : w.runs r with
  | none => exact .inr (h.made r run' hold hr)
  | some run =>
      obtain ⟨run'', hr'', ho⟩ := h.kept r run hold
      rw [hr, Option.some.injEq] at hr''
      exact .inl ⟨run, rfl, hr'' ▸ ho⟩

theorem Run.Older.ended (h : run.Older run') (hended : run.task.ended = true) :
    run'.task.ended = true := by
  rw [Task.ended_iff] at hended ⊢
  have hle : ∀ t : Task, t.phase ≤ 3 := by
    intro t
    induction t with
    | log _ _ next ih | emit _ next ih => exact ih
    | _ => simp
  have hphase := h.phase
  have hlast := hle run'.task
  omega

/-- A task's step changes its own run only, and does not go back. -/
theorem stepTask_older {answer : Answer} (h : w.stepTask r run answer = some w') :
    ∃ (w₁ : World) (run' : Run), w' = w₁.setRun r run' ∧ w₁.runs = w.runs ∧ run.Older run' := by
  have hown : ∀ (w₁ : World) (run' : Run), w₁.runs = w.runs → run.Older run' →
      ∃ (w₂ : World) (run'' : Run), w₁.setRun r run' = w₂.setRun r run'' ∧ w₂.runs = w.runs ∧
        run.Older run'' := fun w₁ run' hruns hold => ⟨w₁, run', rfl, hruns, hold⟩
  have hexit : ∀ next, w.onExit r run next = some w' → (∀ s, run.task.phase ≤ (next s).phase) →
      ∃ (w₁ : World) (run' : Run), w' = w₁.setRun r run' ∧ w₁.runs = w.runs ∧ run.Older run' := by
    intro next h hphase
    unfold World.onExit at h
    split at h
    · cases h
      exact hown w _ rfl ⟨rfl, rfl, hphase _⟩
    · cases h
    · cases h
  unfold World.stepTask at h
  split at h
  case h_6 ht =>
    split at h
    · cases h
      exact hown w _ rfl ⟨rfl, rfl, by simp [ht]⟩
    · exact hexit _ h (by simp [ht])
    · cases h
      exact hown w _ rfl ⟨rfl, rfl, by simp [ht]⟩
    · cases h
  case h_9 ht | h_12 ht | h_14 ht | h_16 ht | h_18 ht => exact hexit _ h (by simp [ht])
  case h_15 ht | h_19 ht =>
    split at h
    · cases h
      exact hown w _ rfl ⟨rfl, rfl, by simp [ht]⟩
    · cases h
  case h_4 ht | h_23 ht =>
    cases h
    exact hown _ _ rfl ⟨rfl, rfl, by simp [ht]⟩
  case h_27 => cases h
  case h_3 pid ht =>
    cases h
    refine hown _ _ rfl ⟨rfl, rfl, ?_⟩
    cases pid <;> simp [ht]
  case h_1 ht | h_2 ht | h_5 ht | h_7 ht | h_8 ht | h_10 ht | h_11 ht | h_13 ht | h_17 ht
      | h_20 ht | h_21 ht | h_22 ht | h_24 ht | h_25 ht | h_26 ht =>
    cases h
    exact hown _ _ rfl ⟨rfl, rfl, by simp [ht, Task.finishWithState]⟩

theorem older_setReader (run : Run) (source : StreamSource) (reader : Reader) :
    run.Older (World.setReader run source reader) := by
  cases source <;> exact ⟨rfl, rfl, Nat.le_refl _⟩

theorem aged_stepCall (hfresh : ∀ r, w.nextRun ≤ r → w.runs r = none) {c : Call}
    {p : World × Call} (h : w.stepCall c = some p) : Aged w p.1 := by
  cases c with
  | register spec =>
      cases h
      exact .of_eq (by unfold World.register; split <;> rfl)
  | unregister id =>
      cases h
      refine .of_eq ?_
      unfold World.unregister
      split
      · rfl
      · split <;> rfl
  | start id =>
      cases h
      unfold World.start
      split
      next => exact .of_eq rfl
      next e he =>
        split
        next => exact .of_eq rfl
        next hlive =>
          constructor
          · intro r run hr
            have hne : r ≠ w.nextRun := by
              rintro rfl
              rw [hfresh _ (Nat.le_refl _)] at hr
              cases hr
            exact ⟨run, (Function.update_of_ne hne _ _).trans hr, .refl run⟩
          · intro r run hnone hr
            by_cases hnew : r = w.nextRun
            · subst hnew
              have heq := Option.some.inj ((Function.update_self w.nextRun _ _).symm.trans hr)
              subst heq
              refine ⟨rfl, World.current_eq_none fun e' he' => ?_, rfl, rfl, e, he, rfl⟩
              rw [he] at he'
              cases he'
              simpa using hlive
            · have hold : w.runs r = some run := (Function.update_of_ne hnew _ _).symm.trans hr
              rw [hnone] at hold
              cases hold
  | stop id =>
      cases h
      refine .of_eq ?_
      unfold World.stop
      split
      · rfl
      · split <;> rfl
  | emit event next | log id line next =>
      cases h
      exact .of_eq rfl
  | spawn r =>
      cases h
      unfold World.spawnTask
      split
      next => exact .of_eq rfl
      next run hr =>
        split
        next ht => exact aged_setRun hr ⟨rfl, rfl, by simp [ht]⟩ rfl
        next => exact .of_eq rfl
  | trySend control =>
      cases control with
      | none =>
          cases h
          exact .of_eq rfl
      | some r =>
          cases h
          unfold World.trySend
          split
          next => exact .of_eq rfl
          next run hr =>
            split
            next => exact .of_eq rfl
            next => exact aged_setRun hr ⟨rfl, rfl, Nat.le_refl _⟩ rfl
  | returned result => cases h

/-- **Every step** leaves the runs there are, and makes at most one, in an idle row. -/
theorem aged_next (hs : Sound w) {a : Action} (h : w.next a = some w') : Aged w w' := by
  cases a with
  | call c =>
      simp only [World.next, Option.ite_none_right_eq_some, Option.some.injEq] at h
      obtain ⟨-, rfl⟩ := h
      exact .of_eq rfl
  | caller k =>
      obtain ⟨c, hc, h⟩ := Option.bind_eq_some_iff.mp h
      obtain ⟨⟨w₁, c'⟩, hstep, h⟩ := Option.bind_eq_some_iff.mp h
      cases h
      have hcall : Aged w w₁ := aged_stepCall hs.fresh hstep
      exact ⟨hcall.kept, hcall.made⟩
  | task r answer =>
      obtain ⟨run, hr, h⟩ := Option.bind_eq_some_iff.mp h
      obtain ⟨w₁, run', rfl, hruns, hold⟩ := stepTask_older h
      exact aged_setRun hr hold hruns
  | exit r status =>
      obtain ⟨run, hr, h⟩ := Option.bind_eq_some_iff.mp h
      simp only [Option.ite_none_right_eq_some, Option.some.injEq] at h
      obtain ⟨-, rfl⟩ := h
      exact aged_setRun hr ⟨rfl, rfl, Nat.le_refl _⟩ rfl
  | read r source line =>
      obtain ⟨run, hr, h⟩ := Option.bind_eq_some_iff.mp h
      simp only [Option.ite_none_right_eq_some, Option.some.injEq] at h
      obtain ⟨-, rfl⟩ := h
      exact aged_setRun hr (older_setReader run source _) rfl
  | readerEmit r source =>
      obtain ⟨run, hr, h⟩ := Option.bind_eq_some_iff.mp h
      split at h
      · cases h
        exact aged_setRun hr (older_setReader run source _) rfl
      · cases h
  | eof r source =>
      obtain ⟨run, hr, h⟩ := Option.bind_eq_some_iff.mp h
      simp only [Option.ite_none_right_eq_some, Option.some.injEq] at h
      obtain ⟨-, rfl⟩ := h
      exact aged_setRun hr (older_setReader run source _) rfl
  | tick =>
      cases h
      exact .of_eq rfl

/-- The earlier runs of each run's service have ended. -/
def Succession (w : World) : Prop :=
  ∀ r r' run run', r < r' → w.runs r = some run → w.runs r' = some run' → run.id = run'.id →
    run.task.ended = true

theorem succession_next (hs : Sound w) (hsucc : Succession w) {a : Action}
    (h : w.next a = some w') : Succession w' := by
  intro r r' run run' hlt hr hr' hid
  have haged := aged_next hs h
  rcases haged.cases hr with ⟨old, hold, hage⟩ | hmade
  · rcases haged.cases hr' with ⟨old', hold', hage'⟩ | hmade'
    · exact hage.ended (hsucc r r' old old' hlt hold hold' (hage.id ▸ hage'.id ▸ hid))
    · -- the later run is new, and its row was idle
      refine hage.ended ?_
      by_contra hunended
      have hcur := hs.unended r old hold (by simpa using hunended)
      rw [← hage.id, hid, hmade'.idle] at hcur
      cases hcur
  · rcases haged.cases hr' with ⟨old', hold', -⟩ | hmade'
    · rw [hs.fresh r' (hmade.fresh ▸ hlt.le)] at hold'
      cases hold'
    · have heq : r = r' := hmade.fresh.trans hmade'.fresh.symm
      exact absurd heq hlt.ne

theorem succession_of_reachable (h : supervisor.Reachable w) : Succession w := by
  have hsound : ∀ w, supervisor.Reaches Lts.System.Any w → Sound w := fun _ hw =>
    sound_of_reachable hw
  refine Lts.System.Reaches.invariant_beside (I := Succession) hsound ?_ ?_ h
  · rintro w ⟨-, hruns, -, -⟩ r r' run run' _ hr _ _
    rw [hruns r] at hr
    cases hr
  · exact fun w a w' hs hsucc _ hn => succession_next hs hsucc hn

end Aged

/-! ### The registry -/

/-- What a step of a run asks of the registry. -/
inductive Registers (w : World) (run run' : Run) (w' : World) : Prop where
  | nothing (h : w'.registry = w.registry)
  | asked (op : Op) (stored : Bool) (hop : op.serviceId = some run.id.toList)
      (hphase : run.task.phase = 0 ∨ (run.task.phase = 1 ∧ run'.task.phase = 2))
      (h : w'.registry = w.registry ++ [(op, stored)])

section Registry

variable {w w' w'' : World} {r : RunId} {run run' : Run} {id : ServiceId}

/-- A task calls the registry where it records its child, and where it removes the record. -/
theorem stepTask_registers {answer : Answer} (h : w.stepTask r run answer = some w') :
    ∃ run', w'.runs r = some run' ∧ Registers w run run' w' := by
  have hown : ∀ (w₁ : World) (run' : Run), Registers w run run' w₁ →
      ∃ run'', (w₁.setRun r run').runs r = some run'' ∧ Registers w run run'' (w₁.setRun r run') := by
    intro w₁ run' hreg
    refine ⟨run', Function.update_self r _ _, ?_⟩
    cases hreg with
    | nothing h => exact .nothing h
    | asked op stored hop hphase h => exact .asked op stored hop hphase h
  have hexit : ∀ next, w.onExit r run next = some w' →
      ∃ run', w'.runs r = some run' ∧ Registers w run run' w' := by
    intro next h
    unfold World.onExit at h
    split at h
    · cases h
      exact hown _ _ (.nothing rfl)
    · cases h
    · cases h
  unfold World.stepTask at h
  split at h
  case h_4 pid startTime stored ht =>
    cases h
    cases startTime with
    | none => exact hown _ _ (.nothing (List.append_nil _))
    | some t => exact hown _ _ (.asked _ stored rfl (.inl (by simp [ht])) rfl)
  case h_23 ht =>
    cases h
    exact hown _ _ (.asked _ _ rfl (.inr ⟨by simp [ht], rfl⟩) rfl)
  case h_6 =>
    split at h
    · cases h
      exact hown _ _ (.nothing rfl)
    · exact hexit _ h
    · cases h
      exact hown _ _ (.nothing rfl)
    · cases h
  case h_9 | h_12 | h_14 | h_16 | h_18 => exact hexit _ h
  case h_15 | h_19 =>
    split at h
    · cases h
      exact hown _ _ (.nothing rfl)
    · cases h
  case h_27 => cases h
  all_goals
    cases h
    exact hown _ _ (.nothing rfl)

theorem stepCall_registry {c : Call} {p : World × Call} (h : w.stepCall c = some p) :
    p.1.registry = w.registry := by
  cases c with
  | returned result => cases h
  | emit event next | log id line next =>
      cases h
      rfl
  | register spec =>
      cases h
      unfold World.register
      split <;> rfl
  | unregister id =>
      cases h
      unfold World.unregister
      split
      · rfl
      · split <;> rfl
  | start id =>
      cases h
      unfold World.start
      split
      · rfl
      · split <;> rfl
  | stop id =>
      cases h
      unfold World.stop
      split
      · rfl
      · split <;> rfl
  | spawn r =>
      cases h
      unfold World.spawnTask
      split
      · rfl
      · split <;> rfl
  | trySend control =>
      cases control with
      | none =>
          cases h
          rfl
      | some r =>
          cases h
          unfold World.trySend
          split
          · rfl
          · split <;> rfl

/-- **What a step asks of the registry**: nothing, unless a task records its child
or removes its record. -/
theorem next_registers {a : Action} (h : w.next a = some w') :
    w'.registry = w.registry ∨ ∃ r run run', w.runs r = some run ∧ w'.runs r = some run' ∧
      Registers w run run' w' := by
  cases a with
  | call c =>
      simp only [World.next, Option.ite_none_right_eq_some, Option.some.injEq] at h
      obtain ⟨-, rfl⟩ := h
      exact .inl rfl
  | caller k =>
      obtain ⟨c, hc, h⟩ := Option.bind_eq_some_iff.mp h
      obtain ⟨⟨w₁, c'⟩, hstep, h⟩ := Option.bind_eq_some_iff.mp h
      cases h
      exact .inl (stepCall_registry hstep)
  | task r answer =>
      obtain ⟨run, hr, h⟩ := Option.bind_eq_some_iff.mp h
      obtain ⟨run', hr', hreg⟩ := stepTask_registers h
      exact .inr ⟨r, run, run', hr, hr', hreg⟩
  | exit r _ | read r _ _ | eof r _ =>
      obtain ⟨run, hr, h⟩ := Option.bind_eq_some_iff.mp h
      simp only [Option.ite_none_right_eq_some, Option.some.injEq] at h
      obtain ⟨-, rfl⟩ := h
      exact .inl rfl
  | readerEmit r source =>
      obtain ⟨run, hr, h⟩ := Option.bind_eq_some_iff.mp h
      split at h
      · cases h
        exact .inl rfl
      · cases h
  | tick =>
      cases h
      exact .inl rfl

/-- The last call about its service is the one that took `rec`. -/
def LastRecord (rec : SupervisedRecord) (calls : List (Op × Bool)) : Prop :=
  ∃ pre post, calls = pre ++ (.record rec, true) :: post ∧
    ∀ x ∈ post, x.1.serviceId ≠ some rec.serviceId

theorem LastRecord.concat {rec : SupervisedRecord} {calls : List (Op × Bool)} {op : Op}
    (h : LastRecord rec calls) (hop : op.serviceId ≠ some rec.serviceId) (stored : Bool) :
    LastRecord rec (calls ++ [(op, stored)]) := by
  obtain ⟨pre, post, rfl, hpost⟩ := h
  refine ⟨pre, post ++ [(op, stored)], by simp, fun x hx => ?_⟩
  rcases List.mem_append.mp hx with hx | hx
  · exact hpost x hx
  · obtain rfl := List.mem_singleton.mp hx
    exact hop

/-- A run of a service that is past its recording: no later call is about the service
until the run removes the record. -/
structure HoldsRecord (w : World) (r : RunId) (id : ServiceId) (rec : SupervisedRecord) : Prop where
  exists_run : ∃ run, w.runs r = some run ∧ run.id = id ∧ 1 ≤ run.task.phase
  held : ∀ run, w.runs r = some run → run.task.phase < 2 → LastRecord rec w.registry

theorem holdsRecord_next {rec : SupervisedRecord} (hrec : rec.serviceId = id.toList) (hs : Sound w)
    (hh : HoldsRecord w r id rec) {a : Action} (h : w.next a = some w') :
    HoldsRecord w' r id rec := by
  obtain ⟨run, hr, hid, hphase⟩ := hh.exists_run
  have haged := aged_next hs h
  obtain ⟨run', hr', hage⟩ := haged.kept r run hr
  refine ⟨⟨run', hr', hage.id.trans hid, hphase.trans hage.phase⟩, fun run'' hr'' hlt => ?_⟩
  rw [hr', Option.some.injEq] at hr''
  subst hr''
  have hlt' : run.task.phase < 2 := Nat.lt_of_le_of_lt hage.phase hlt
  have hheld := hh.held run hr hlt'
  have hunended : ∀ {t : Task}, t.phase < 2 → t.ended = false := by
    intro t ht
    cases he : t.ended with
    | false => rfl
    | true =>
        rw [Task.ended_iff] at he
        omega
  -- a call under the same id is this run's own
  have hsame : ∀ r₂ run₂, w.runs r₂ = some run₂ → run₂.id = id → run₂.task.phase < 2 → r₂ = r :=
    fun r₂ run₂ hr₂ hid₂ hlt₂ =>
      hs.unique hr₂ hr (hid₂.trans hid.symm) (hunended hlt₂) (hunended hlt')
  rcases next_registers h with hreg | ⟨r₂, run₂, run₂', hr₂, hr₂', hreg⟩
  · rw [hreg]
    exact hheld
  · cases hreg with
    | nothing hreg =>
        rw [hreg]
        exact hheld
    | asked op stored hop hasked hreg =>
        rw [hreg]
        refine hheld.concat (fun heq => ?_) stored
        rw [hop, hrec, Option.some.injEq, String.toList_inj] at heq
        obtain rfl := hsame r₂ run₂ hr₂ heq (by omega)
        rw [hr, Option.some.injEq] at hr₂
        rw [hr', Option.some.injEq] at hr₂'
        subst hr₂ hr₂'
        omega

/-- **What the registry is asked about a running child**: once a run has recorded its child,
the last call about the service is that recording, until the run has seen its child exit, in
every order of steps; and no removal of an earlier run of the service is still to come. -/
theorem record_last {pid : Nat} {startTime : ProcStartTime} (h : supervisor.Reachable w)
    (hr : w.runs r = some run) (ht : run.task = .recordRunning pid)
    (hn : w.next (.task r (.recorded (some startTime) true)) = some w')
    (hl : supervisor.Leads Lts.System.Any w' w'') (hr' : w''.runs r = some run') :
    (run'.task.childless = false →
      LastRecord (w.recordOf run.id pid startTime) w''.registry) ∧
    ∀ r₀ run₀ state detail, r₀ < r → w''.runs r₀ = some run₀ → run₀.id = run.id →
      run₀.task ≠ .removeRecord state detail := by
  have hreach' : supervisor.Reachable w' :=
    .step (a := .task r (.recorded (some startTime) true)) h trivial hn
  have hstart : Sound w' ∧ HoldsRecord w' r run.id (w.recordOf run.id pid startTime) := by
    refine ⟨sound_of_reachable hreach', ?_⟩
    simp only [World.next, hr, bind, Option.bind, World.stepTask, ht, Option.some.injEq] at hn
    subst hn
    exact ⟨⟨_, Function.update_self r _ _, rfl, Nat.le_refl _⟩,
      fun _ _ _ => ⟨w.registry, [], rfl, by simp⟩⟩
  have hend : Sound w'' ∧ HoldsRecord w'' r run.id (w.recordOf run.id pid startTime) := by
    refine Lts.System.Leads.invariant
      (I := fun w₁ => Sound w₁ ∧ HoldsRecord w₁ r run.id (w.recordOf run.id pid startTime))
      hstart ?_ hl
    rintro w₁ a w₂ ⟨hs, hh⟩ _ hn
    exact ⟨sound_next hs hn, holdsRecord_next rfl hs hh hn⟩
  constructor
  · exact fun hc => hend.2.held run' hr' (Task.phase_lt_of_childless hc)
  · intro r₀ run₀ state detail hlt hr₀ hid₀ hremove
    obtain ⟨run'', hr'', hid'', -⟩ := hend.2.exists_run
    have hended := succession_of_reachable (hl.reaches hreach') r₀ r run₀ run'' hlt hr₀ hr''
      (hid₀.trans hid''.symm)
    rw [hremove] at hended
    cases hended

/-! ### The registry's file -/

/-- The file registry was called as the supervisor called it, and answered what the
supervisor was told. -/
def AnsweredBy [SerdeJson] (w : World) (d : Disk) (calls : List Orphan.Call) : Prop :=
  (trace d calls).map (fun x => (x.1, x.2.isDone)) = w.registry

theorem LastRecord.trace [SerdeJson] {rec : SupervisedRecord} {d : Disk}
    {calls : List Orphan.Call} (h : LastRecord rec w.registry) (hserved : AnsweredBy w d calls) :
    ∃ pre post, trace d calls = pre ++ (.record rec, .done) :: post ∧
      ∀ x ∈ post, x.1.serviceId ≠ some rec.serviceId := by
  obtain ⟨before, later, hcalls, hlater⟩ := h
  rw [← hserved, List.map_eq_append_iff] at hcalls
  obtain ⟨pre, rest, htrace, -, hrest⟩ := hcalls
  obtain ⟨⟨op, outcome⟩, post, rfl, hx, hpost⟩ := List.map_eq_cons_iff.mp hrest
  obtain ⟨rfl, hdone⟩ := Prod.mk.inj hx
  obtain rfl : outcome = .done := by
    cases outcome with
    | done => rfl
    | listed | failed => cases hdone
  refine ⟨pre, post, htrace, fun x hx => ?_⟩
  have hmem : (x.1, x.2.isDone) ∈ later := hpost ▸ List.mem_map_of_mem hx
  exact hlater _ hmem

/-- **A running child is recorded**: once a run has recorded its child, the file registry lists
that record, as the only one of the service, until the run has seen its child exit, in every
order of steps; and no removal of an earlier run of the service is still to come. The file may
have been left by other boots. The calls are made within one boot, and what each recording
writes is not longer than the registry reads. -/
theorem record_held [SerdeJson] {pid : Nat} {startTime : ProcStartTime} {d : Disk} {boot : BootId}
    {calls : List Orphan.Call} (h : supervisor.Reachable w) (hr : w.runs r = some run)
    (ht : run.task = .recordRunning pid)
    (hn : w.next (.task r (.recorded (some startTime) true)) = some w')
    (hl : supervisor.Leads Lts.System.Any w' w'') (hr' : w''.runs r = some run')
    (hd : Produced d) (hserved : AnsweredBy w'' d calls) (hboot : OneBoot d boot calls)
    (hfit : Accommodated d calls) :
    (run'.task.childless = false →
      w.recordOf run.id pid startTime ∈ (after d calls).records boot ∧
      ∀ rec ∈ (after d calls).records boot, rec.serviceId = run.id.toList →
        rec = w.recordOf run.id pid startTime) ∧
    ∀ r₀ run₀ state detail, r₀ < r → w''.runs r₀ = some run₀ → run₀.id = run.id →
      run₀.task ≠ .removeRecord state detail := by
  obtain ⟨hlast, hearlier⟩ := record_last h hr ht hn hl hr'
  refine ⟨fun hc => ?_, hearlier⟩
  obtain ⟨pre, post, htrace, hpost⟩ := (hlast hc).trace hserved
  exact Orphan.listed_after_record hd hboot hfit htrace hpost

/-! ### Where the record is listed, and where it is dropped -/

section Sample

attribute [local instance] Orphan.objectReader

/-- The record of a service's child, as the sample runs make it. -/
def childRecord (id : ServiceId) (pid : UInt32) (sec : Int64) : SupervisedRecord :=
  ⟨id.toList, ⟨pid, .unix sec 0⟩, 0⟩

/-- `web` is started and stands where it records its child. -/
def recordingRun : List Action := startedRun ++ [.task 0 .go]

/-- A run's child is spawned and recorded; its task waits for it to be ready. -/
def upToReadiness : List Action :=
  recordingRun ++ [.task 0 (.recorded (some (.unix 1758 0)) true)] ++
    List.replicate 3 (.task 0 .go)

/-- Whether run 0 of `web` stands where it records its child, as the first call on the registry. -/
def recordsFirst (w : World) : Bool :=
  decide (w.registry = [] ∧ w.clock = 0) && (w.runs 0).any fun run =>
    decide (run.id = "web") && match run.task with
      | .recordRunning p => decide (p = 7)
      | _ => false

def recordedCalls : List Orphan.Call :=
  [⟨.record (childRecord "web" 7 1758), Orphan.sampleBoot⟩]

/-- A started service whose child has just been recorded. -/
theorem record_held_started :
    ∃ w : World, supervisor.Reachable w ∧ aliveAt 0 w = true ∧
      AnsweredBy w ⟨none, none⟩ recordedCalls ∧
      childRecord "web" 7 1758 ∈
        (after ⟨none, none⟩ recordedCalls).records Orphan.sampleBoot := by
  obtain ⟨w, hw, hp⟩ := Lts.System.exists_of_exec (S := supervisor) recordingRun
    (fun w => recordsFirst w && aliveAt 0 w) (.init initial_new) (by decide +kernel)
  obtain ⟨hfirst, halive⟩ := (Bool.and_eq_true _ _).mp hp
  obtain ⟨hempty, hany⟩ := (Bool.and_eq_true _ _).mp hfirst
  obtain ⟨hreg, hclock⟩ := of_decide_eq_true hempty
  obtain ⟨run, hr, hrun⟩ := (Option.any_eq_true _ _).mp hany
  obtain ⟨hid, htask⟩ := (Bool.and_eq_true _ _).mp hrun
  have hid' : run.id = "web" := of_decide_eq_true hid
  have ht : run.task = .recordRunning 7 := by
    split at htask
    · next p hp => rw [hp, of_decide_eq_true htask]
    · cases htask
  have halive' : run.child = .alive := by simpa [aliveAt, hr] using halive
  let run' : Run := { run with task := .note ("spawned pid " ++ showPid (some 7)) .takePipes }
  let w' : World := (w.recordRunning run.id 7 (some (.unix 1758 0)) true).setRun 0 run'
  have hn : w.next (.task 0 (.recorded (some (.unix 1758 0)) true)) = some w' := by
    simp only [World.next, hr, bind, Option.bind, World.stepTask, ht]
    rfl
  have hr' : w'.runs 0 = some run' := by simp [w', World.setRun]
  have hrec : w.recordOf run.id 7 (.unix 1758 0) = childRecord "web" 7 1758 := by
    rw [World.recordOf, hid', hclock]
    rfl
  have hserved : AnsweredBy w' ⟨none, none⟩ recordedCalls := by
    have hcalls : w'.registry = [(.record (childRecord "web" 7 1758), true)] := by
      show w.registry ++ [(.record (w.recordOf run.id 7 (.unix 1758 0)), true)] = _
      rw [hreg, hrec]
      rfl
    rw [AnsweredBy, hcalls]
    rfl
  have hself : Orphan.sampleBoot.isBoot Orphan.sampleBoot = true := by decide +kernel
  have hone : ∀ b ∈ Orphan.sampleBoot :: recordedCalls.map Orphan.Call.boot,
      b = Orphan.sampleBoot := by
    simp [recordedCalls]
  have hboot : OneBoot ⟨none, none⟩ Orphan.sampleBoot recordedCalls := by
    refine ⟨fun b b' hb hb' => ?_, fun b hb => by rw [hone b (List.mem_cons_of_mem _ hb)]⟩
    rw [hone b hb, hone b' hb']
    exact hself
  have hfits : (Orphan.RegistrySnapshot.upsert ⟨Orphan.sampleBoot, []⟩
      (childRecord "web" 7 1758)).Fits := by decide +kernel
  have hheld := (record_held hw hr ht hn .refl hr' .fresh hserved hboot ⟨.inr hfits, trivial⟩).1 rfl
  rw [hrec] at hheld
  refine ⟨w', .step (a := .task 0 (.recorded (some (.unix 1758 0)) true)) hw trivial hn, ?_,
    hserved, hheld.1⟩
  simp [aliveAt, hr', run', halive']

/-- `web` and `db` are started, and each records its child. -/
def bothRecorded : List Action :=
  recordingRun ++ [.task 0 (.recorded (some (.unix 1758 0)) true)] ++
    callThrough 2 (.register (sampleSpec "db")) 2 ++ callThrough 3 (.start "db") 5 ++
    [.task 1 (.spawned (some 8)), .task 1 .go, .task 1 (.recorded (some (.unix 1759 0)) true)]

/-- The boot id after the clock was set six seconds forward. -/
def steppedBoot : BootId := .unix 1758000006 0

/-- The two recordings, and the step of the clock between them. -/
def clockStep : List Orphan.Call :=
  [⟨.record (childRecord "web" 7 1758), Orphan.sampleBoot⟩,
    ⟨.record (childRecord "db" 8 1759), steppedBoot⟩]

/-- **A dropped record**: both calls on the registry succeed, the child of `web` runs and was
recorded, and no record of `web` is listed. -/
theorem record_dropped :
    ∃ w : World, supervisor.Reachable w ∧ aliveAt 0 w = true ∧
      w.registry = [(.record (childRecord "web" 7 1758), true),
        (.record (childRecord "db" 8 1759), true)] ∧
      AnsweredBy w ⟨none, none⟩ clockStep ∧
      (after ⟨none, none⟩ clockStep).records steppedBoot = [childRecord "db" 8 1759] := by
  obtain ⟨w, hw, hp⟩ := Lts.System.exists_of_exec (S := supervisor) bothRecorded
    (fun w => aliveAt 0 w && decide (w.registry = [(.record (childRecord "web" 7 1758), true),
      (.record (childRecord "db" 8 1759), true)])) (.init initial_new) (by decide +kernel)
  obtain ⟨halive, hreg⟩ := (Bool.and_eq_true _ _).mp hp
  have hreg' := of_decide_eq_true hreg
  have hfits : (Orphan.RegistrySnapshot.upsert ⟨steppedBoot, []⟩
      (childRecord "db" 8 1759)).Fits := by decide +kernel
  have hshift : trace ⟨none, none⟩ clockStep = [(.record (childRecord "web" 7 1758), .done),
      (.record (childRecord "db" 8 1759), .done)] ∧
      (after ⟨none, none⟩ clockStep).records steppedBoot = [childRecord "db" 8 1759] :=
    Orphan.dropped_of_shift none (by decide +kernel) (by decide +kernel) hfits
  refine ⟨w, hw, halive, hreg', ?_, hshift.2⟩
  rw [AnsweredBy, hreg', hshift.1]
  rfl

end Sample

end Registry

end OpenVHost.Proc
