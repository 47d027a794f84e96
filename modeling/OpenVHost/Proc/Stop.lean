/-
# A stop and its run

`stop` raises the flag of a service under the lock, and the run reads the flag
when it classifies how its child ended. A flag belongs to one row, and only a
`start` in an idle row lowers it. The request itself goes through the run's channel.

* `FlagMove` — what a step does to the flags and to whose they are.
* `Asked` — a run that reads a raised flag and has decided on no state but `Stopped`.
* `stop_is_delivered` — the request reaches the run, in every order of steps.
* `writes_stopped` — a state that a run writes after a stop is `Stopped`, unless it had
  decided what to write, or the readiness wait ended ready in spite of the stop.
-/

import OpenVHost.Proc.Events
import OpenVHost.Proc.Record

namespace OpenVHost.Proc

/-! ### Whose flag it is -/

namespace World

variable {w w' : World} {id : ServiceId}

/-- The flag of a service's row. -/
def flagOf (w : World) (id : ServiceId) : Option Nat := (w.entries id).map Entry.stopRequested

theorem flagOf_modify {f : Entry → Entry} (hf : ∀ e, (f e).stopRequested = e.stopRequested)
    (i : ServiceId) : (w.modify id f).flagOf i = w.flagOf i := by
  unfold flagOf
  rw [entries_modify]
  by_cases h : i = id
  · subst h
    rw [if_pos rfl, Option.map_map, show Entry.stopRequested ∘ f = Entry.stopRequested from funext hf]
  · rw [if_neg h]

theorem flagOf_setState (state : ServiceState) (i : ServiceId) :
    (w.setState id state).flagOf i = w.flagOf i :=
  flagOf_modify (fun e => by split <;> rfl) i

end World

/-- What a step does to the flags and to whose they are. -/
inductive FlagMove (w w' : World) : Prop where
  | same (howner : ∀ i, w'.flagOf i = w.flagOf i) (hnext : w'.nextFlag = w.nextFlag)
      (hflags : w'.flags = w.flags)
  | raise (howner : ∀ i, w'.flagOf i = w.flagOf i) (hnext : w'.nextFlag = w.nextFlag) (flag : Nat)
      (hflags : w'.flags = Function.update w.flags flag true)
  /-- A `start` in an idle row. -/
  | lower (howner : ∀ i, w'.flagOf i = w.flagOf i) (hnext : w'.nextFlag = w.nextFlag)
      (id : ServiceId) (hidle : w.current id = none) (flag : Nat) (hflag : w.flagOf id = some flag)
      (hflags : w'.flags = Function.update w.flags flag false)
  | fresh (id : ServiceId) (hidle : w.current id = none)
      (howner : ∀ i, w'.flagOf i = if i = id then some w.nextFlag else w.flagOf i)
      (hnext : w'.nextFlag = w.nextFlag + 1)
      (hflags : w'.flags = Function.update w.flags w.nextFlag false) (hruns : w'.runs = w.runs)
  | gone (id : ServiceId) (hidle : w.current id = none)
      (howner : ∀ i, w'.flagOf i = if i = id then none else w.flagOf i)
      (hnext : w'.nextFlag = w.nextFlag) (hflags : w'.flags = w.flags) (hruns : w'.runs = w.runs)

section FlagMove

variable {w w' : World} {r : RunId} {run : Run}

theorem FlagMove.refl (w : World) : FlagMove w w := .same (fun _ => rfl) rfl rfl

theorem idle_of_not_live {id : ServiceId} {e : Entry} (he : w.entries id = some e)
    (hlive : ¬ e.state.live = true) : w.current id = none := by
  apply World.current_eq_none
  intro e' he'
  rw [he, Option.some.injEq] at he'
  exact he' ▸ Bool.eq_false_iff.mpr hlive

theorem flagMove_stepCall {c : Call} {p : World × Call} (h : w.stepCall c = some p) :
    FlagMove w p.1 := by
  cases c with
  | returned result => cases h
  | emit event next =>
      cases h
      exact .same (fun _ => rfl) rfl rfl
  | log id line next =>
      cases h
      exact .same (World.flagOf_modify fun _ => rfl) rfl rfl
  | register spec =>
      cases h
      unfold World.register
      split
      · exact .refl w
      · next hlive =>
          refine .fresh spec.id ?_ (fun i => ?_) rfl rfl rfl
          · exact World.current_eq_none fun e he => by simpa [he] using hlive
          · unfold World.flagOf
            by_cases hi : i = spec.id
            · subst hi
              rw [if_pos rfl]
              exact congrArg _ (Function.update_self spec.id _ _)
            · rw [if_neg hi]
              exact congrArg _ (Function.update_of_ne hi _ _)
  | unregister id =>
      cases h
      unfold World.unregister
      split
      · exact .refl w
      · next e he =>
          split
          · exact .refl w
          · next hterm =>
              have hlive : ¬ e.state.live = true := by
                cases hst : e.state <;> simp [hst, World.checkTerminal, ServiceState.live] at hterm ⊢
              refine .gone id (idle_of_not_live he hlive) (fun i => ?_) rfl rfl rfl
              unfold World.flagOf
              by_cases hi : i = id
              · subst hi
                rw [if_pos rfl]
                exact congrArg _ (Function.update_self i _ _)
              · rw [if_neg hi]
                exact congrArg _ (Function.update_of_ne hi _ _)
  | start id =>
      cases h
      unfold World.start
      split
      · exact .refl w
      · next e he =>
          split
          · exact .refl w
          · next hlive =>
              have hflag : w.flagOf id = some e.stopRequested := by
                rw [World.flagOf, he, Option.map_some]
              refine .lower (fun i => ?_) rfl id (idle_of_not_live he hlive) _ hflag rfl
              by_cases hi : i = id
              · subst hi
                rw [hflag]
                exact congrArg _ (Function.update_self i _ _)
              · exact congrArg _ (Function.update_of_ne hi _ _)
  | stop id =>
      cases h
      unfold World.stop
      split
      · exact .refl w
      · split
        · exact .raise (fun _ => rfl) rfl _ rfl
        · exact .refl w
  | spawn r =>
      cases h
      unfold World.spawnTask
      split
      · exact .refl w
      · split <;> exact .same (fun _ => rfl) rfl rfl
  | trySend control =>
      cases control with
      | none =>
          cases h
          exact .refl w
      | some r =>
          cases h
          unfold World.trySend
          split
          · exact .refl w
          · split <;> exact .same (fun _ => rfl) rfl rfl

theorem flagMove_stepTask {answer : Answer} (h : w.stepTask r run answer = some w') :
    FlagMove w w' := by
  have hexit : ∀ next, w.onExit r run next = some w' → FlagMove w w' := by
    intro next h
    unfold World.onExit at h
    split at h
    · cases h
      exact .same (fun _ => rfl) rfl rfl
    · cases h
    · cases h
  unfold World.stepTask at h
  split at h
  case h_3 =>
    cases h
    exact .same (World.flagOf_modify fun _ => rfl) rfl rfl
  case h_4 | h_23 =>
    cases h
    exact .same (fun _ => rfl) rfl rfl
  case h_6 =>
    split at h
    · cases h
      exact .same (fun _ => rfl) rfl rfl
    · exact hexit _ h
    · cases h
      exact .same (fun _ => rfl) rfl rfl
    · cases h
  case h_9 | h_12 | h_14 | h_16 | h_18 => exact hexit _ h
  case h_13 | h_24 =>
    cases h
    exact .same (World.flagOf_setState _) rfl rfl
  case h_15 | h_19 =>
    split at h
    · cases h
      exact .same (fun _ => rfl) rfl rfl
    · cases h
  case h_25 =>
    cases h
    exact .same (World.flagOf_modify fun _ => rfl) rfl rfl
  case h_27 => cases h
  all_goals
    cases h
    exact .same (fun _ => rfl) rfl rfl

/-- **What a step does to the flags**, whoever takes it. -/
theorem flagMove_next {a : Action} (h : w.next a = some w') : FlagMove w w' := by
  cases a with
  | call c =>
      simp only [World.next, Option.ite_none_right_eq_some, Option.some.injEq] at h
      obtain ⟨-, rfl⟩ := h
      exact .same (fun _ => rfl) rfl rfl
  | caller k =>
      obtain ⟨c, hc, h⟩ := Option.bind_eq_some_iff.mp h
      obtain ⟨⟨w₁, c'⟩, hstep, h⟩ := Option.bind_eq_some_iff.mp h
      cases h
      have hcall : FlagMove w w₁ := flagMove_stepCall hstep
      cases hcall with
      | same howner hnext hflags => exact .same howner hnext hflags
      | raise howner hnext flag hflags => exact .raise howner hnext flag hflags
      | lower howner hnext id hidle flag hflag hflags =>
          exact .lower howner hnext id hidle flag hflag hflags
      | fresh id hidle howner hnext hflags hruns =>
          exact .fresh id hidle howner hnext hflags hruns
      | gone id hidle howner hnext hflags hruns => exact .gone id hidle howner hnext hflags hruns
  | task r answer =>
      obtain ⟨run, hr, h⟩ := Option.bind_eq_some_iff.mp h
      exact flagMove_stepTask h
  | exit r _ | eof r _ =>
      obtain ⟨run, hr, h⟩ := Option.bind_eq_some_iff.mp h
      simp only [Option.ite_none_right_eq_some, Option.some.injEq] at h
      obtain ⟨-, rfl⟩ := h
      exact .same (fun _ => rfl) rfl rfl
  | read r source line =>
      obtain ⟨run, hr, h⟩ := Option.bind_eq_some_iff.mp h
      simp only [Option.ite_none_right_eq_some, Option.some.injEq] at h
      obtain ⟨-, rfl⟩ := h
      have hpush : ∀ i, (w.pushLog run.id source line).flagOf i = w.flagOf i :=
        World.flagOf_modify fun _ => rfl
      exact .same hpush rfl rfl
  | readerEmit r source =>
      obtain ⟨run, hr, h⟩ := Option.bind_eq_some_iff.mp h
      split at h
      · cases h
        exact .same (fun _ => rfl) rfl rfl
      · cases h
  | tick =>
      cases h
      exact .same (fun _ => rfl) rfl rfl

end FlagMove

/-- Every row has a flag of its own, and a run that has not ended reads the flag of
its row. -/
structure FlagsOwned (w : World) : Prop where
  old : ∀ id flag, w.flagOf id = some flag → flag < w.nextFlag
  own : ∀ id id' flag, w.flagOf id = some flag → w.flagOf id' = some flag → id = id'
  reads : ∀ r run, w.runs r = some run → run.task.ended = false →
    w.flagOf run.id = some run.stopFlag

section FlagsOwned

variable {w w' : World} {r : RunId} {run : Run}

theorem Run.Older.unended {run run' : Run} (h : run.Older run')
    (hunended : run'.task.ended = false) : run.task.ended = false := by
  cases hended : run.task.ended with
  | false => rfl
  | true =>
      rw [h.ended hended] at hunended
      cases hunended

/-- The flag that a run reads belongs to a row that leads to the run. -/
theorem ne_of_idle {id : ServiceId} (hs : Sound w) (hr : w.runs r = some run)
    (hunended : run.task.ended = false) (hidle : w.current id = none) : run.id ≠ id := by
  rintro rfl
  rw [hs.unended r run hr hunended] at hidle
  cases hidle

theorem flagsOwned_next (hs : Sound w) (hf : FlagsOwned w) {a : Action} (h : w.next a = some w') :
    FlagsOwned w' := by
  have haged := aged_next hs h
  -- a run reads the flag of its row, where the rows keep their flags
  have hreads : (∀ i, w'.flagOf i = w.flagOf i) → ∀ r run, w'.runs r = some run →
      run.task.ended = false → w'.flagOf run.id = some run.stopFlag := by
    intro howner r run' hr' hunended
    rcases haged.cases hr' with ⟨run, hr, hold⟩ | hmade
    · rw [howner, hold.id, hold.stopFlag]
      exact hf.reads r run hr (hold.unended hunended)
    · obtain ⟨e, he, hflag⟩ := hmade.entry
      rw [howner, World.flagOf, he, Option.map_some, hflag]
  cases flagMove_next h with
  | same howner hnext _ | raise howner hnext _ _ | lower howner hnext _ _ _ _ _ =>
      refine ⟨fun id flag hid => ?_, fun id id' flag hid hid' => ?_, hreads howner⟩
      · rw [hnext]
        exact hf.old id flag (howner id ▸ hid)
      · exact hf.own id id' flag (howner id ▸ hid) (howner id' ▸ hid')
  | fresh id hidle howner hnext _ hruns =>
      refine ⟨fun i flag hi => ?_, fun i j flag hi hj => ?_, fun r run hr hunended => ?_⟩
      · rw [howner] at hi
        rw [hnext]
        split at hi
        · cases hi
          exact Nat.lt_succ_self _
        · exact Nat.lt_succ_of_lt (hf.old i flag hi)
      · rw [howner] at hi hj
        split at hi
        · next hid =>
            cases hi
            split at hj
            · next hjd => rw [hid, hjd]
            · exact absurd (hf.old j _ hj) (Nat.lt_irrefl _)
        · split at hj
          · cases hj
            exact absurd (hf.old i _ hi) (Nat.lt_irrefl _)
          · exact hf.own i j flag hi hj
      · rw [hruns] at hr
        rw [howner, if_neg (ne_of_idle hs hr hunended hidle)]
        exact hf.reads r run hr hunended
  | gone id hidle howner hnext _ hruns =>
      have hold : ∀ i flag, w'.flagOf i = some flag → w.flagOf i = some flag := by
        intro i flag hi
        rw [howner] at hi
        split at hi
        · cases hi
        · exact hi
      refine ⟨fun i flag hi => ?_, fun i j flag hi hj => ?_, fun r run hr hunended => ?_⟩
      · rw [hnext]
        exact hf.old i flag (hold i flag hi)
      · exact hf.own i j flag (hold i flag hi) (hold j flag hj)
      · rw [hruns] at hr
        rw [howner, if_neg (ne_of_idle hs hr hunended hidle)]
        exact hf.reads r run hr hunended

theorem flagsOwned_of_reachable (h : supervisor.Reachable w) : FlagsOwned w := by
  have hsound : ∀ w, supervisor.Reaches Lts.System.Any w → Sound w := fun _ hw =>
    sound_of_reachable hw
  refine Lts.System.Reaches.invariant_beside (I := FlagsOwned) hsound ?_ ?_ h
  · rintro w ⟨hentries, hruns, -, -⟩
    have hnone : ∀ i, w.flagOf i = none := by
      intro i
      rw [World.flagOf, hentries i, Option.map_none]
    refine ⟨fun i flag hi => ?_, fun i j flag hi => ?_, fun r run hr => ?_⟩
    · rw [hnone i] at hi
      cases hi
    · rw [hnone i] at hi
      cases hi
    · rw [hruns r] at hr
      cases hr
  · exact fun w a w' hs hf _ hn => flagsOwned_next hs hf hn

/-- **A raised flag stays** for as long as the run that reads it has not ended. -/
theorem flag_stays (hs : Sound w) (hf : FlagsOwned w) (hr : w.runs r = some run)
    (hunended : run.task.ended = false) (hflag : w.flags run.stopFlag = true) {a : Action}
    (h : w.next a = some w') : w'.flags run.stopFlag = true := by
  have hreads := hf.reads r run hr hunended
  cases flagMove_next h with
  | same _ _ hflags | gone _ _ _ _ hflags _ => rw [hflags, hflag]
  | raise _ _ flag hflags =>
      rw [hflags]
      by_cases heq : run.stopFlag = flag
      · rw [heq, Function.update_self]
      · rw [Function.update_of_ne heq, hflag]
  | lower _ _ id hidle flag hid hflags =>
      -- the flag of an idle row is no flag of this run
      have hne : run.stopFlag ≠ flag := by
        rintro rfl
        exact ne_of_idle hs hr hunended hidle (hf.own _ _ _ hreads hid)
      rw [hflags, Function.update_of_ne hne, hflag]
  | fresh _ _ _ _ hflags _ =>
      have hne : run.stopFlag ≠ w.nextFlag := (hf.old _ _ hreads).ne
      rw [hflags, Function.update_of_ne hne, hflag]

end FlagsOwned

/-! ### What a task is on its way to write -/

/-- The state that a task has decided to write. -/
@[simp] def Task.decided : Task → Option ServiceState
  | setRunning => some .running
  | removeRecord state _ | setTerminal state _ => some state.1
  | log _ _ next | emit _ next => next.decided
  | _ => none

@[simp] theorem Task.decided_note (line : String) (next : Task) :
    (note line next).decided = next.decided := rfl

/-- Whether a readiness wait ends ready with this answer. -/
def Run.readied (run : Run) (answer : Answer) : Bool :=
  match run.task, run.readiness, answer with
  | .awaitReadiness, .aliveAfter _, .elapsed => true
  | .probe _, _, .probeReady => true
  | _, _, _ => false

section Decided

variable {w w' : World} {r : RunId} {run : Run}

theorem decided_of_writesNext {t : Task} {state : ServiceState} {detail : Option String}
    {next : Task} (h : WritesNext t state detail next) : t.decided = some state := by
  cases h <;> rfl

theorem Task.unended_of_decided {t : Task} {state : ServiceState} (h : t.decided = some state) :
    t.ended = false := by
  induction t with
  | log _ _ next ih | emit _ next ih => exact ih h
  | _ => simp at h ⊢

/-- **What a task has decided**, it has decided before, or by a readiness wait that
ends ready, or by reading the flag. -/
theorem stepTask_decided {answer : Answer} (h : w.stepTask r run answer = some w') :
    ∃ run', w'.runs r = some run' ∧ ∀ state, run'.task.decided = some state →
      run.task.decided = some state ∨ run.readied answer = true ∨
        run.task.ended = false ∧
          ∃ f tail, state = (Finish.classify f (w.flags run.stopFlag) tail).1 := by
  have hgoto : ∀ (w₁ : World) (run₁ : Run) (t : Task), (∀ state, t.decided = some state →
        run.task.decided = some state ∨ run.readied answer = true ∨
          run.task.ended = false ∧
            ∃ f tail, state = (Finish.classify f (w.flags run.stopFlag) tail).1) →
      ∃ run', (w₁.goto r run₁ t).runs r = some run' ∧ ∀ state, run'.task.decided = some state →
        run.task.decided = some state ∨ run.readied answer = true ∨
          run.task.ended = false ∧
            ∃ f tail, state = (Finish.classify f (w.flags run.stopFlag) tail).1 :=
    fun w₁ run₁ t ht => ⟨_, Function.update_self r _ _, ht⟩
  have hexit : ∀ next, w.onExit r run next = some w' → (∀ s, (next s).decided = none) →
      ∃ run', w'.runs r = some run' ∧ ∀ state, run'.task.decided = some state →
        run.task.decided = some state ∨ run.readied answer = true ∨
          run.task.ended = false ∧
            ∃ f tail, state = (Finish.classify f (w.flags run.stopFlag) tail).1 := by
    intro next h hnone
    unfold World.onExit at h
    split at h
    · cases h
      exact hgoto w run _ fun state hstate => by simp [hnone] at hstate
    · cases h
    · cases h
  unfold World.stepTask at h
  split at h
  case h_6 ht =>
    split at h
    · next hready =>
        cases h
        exact hgoto _ _ _ fun _ _ => .inr (.inl (by simp [Run.readied, ht, hready]))
    · exact hexit _ h fun _ => rfl
    · cases h
      exact hgoto _ _ _ (by simp)
    · cases h
  case h_7 ht =>
    cases h
    exact hgoto _ _ _ fun _ _ => .inr (.inl (by simp [Run.readied, ht]))
  case h_9 | h_12 | h_14 | h_16 | h_18 => exact hexit _ h fun _ => rfl
  case h_22 f tail ht =>
    cases h
    refine hgoto _ _ _ fun state hstate => .inr (.inr ⟨by simp [ht], f, tail, ?_⟩)
    simpa [Task.finishWithState] using hstate.symm
  case h_15 | h_19 =>
    split at h
    · cases h
      exact hgoto _ _ _ (by simp)
    · cases h
  case h_3 pid ht =>
    cases h
    exact hgoto _ _ _ (by cases pid <;> simp)
  case h_23 ht | h_25 ht | h_26 ht =>
    -- what follows has decided the same
    cases h
    exact hgoto _ _ _ fun _ hstate => .inl (by simpa [ht] using hstate)
  case h_27 => cases h
  all_goals
    cases h
    exact hgoto _ _ _ (by simp)

end Decided

/-! ### A run beside the steps of the others -/

/-- A run after a step that is not its task's own. -/
structure Run.Beside (run run' : Run) : Prop where
  spec : run'.spec = run.spec
  task : run'.task = run.task ∨ run.task = .queued ∧ run'.task = .spawn
  mailbox : run.mailbox = true → run'.mailbox = true
  absent : run.stderr = .absent → run'.stderr = .absent
  child : run'.child = run.child ∨ run.child = .alive ∧ ∃ status, run'.child = .exited status

theorem Run.Beside.refl (run : Run) : run.Beside run :=
  ⟨rfl, .inl rfl, fun h => h, fun h => h, .inl rfl⟩

section Beside

variable {w w' : World} {r : RunId} {run : Run}

theorem beside_setReader {source : StreamSource} (reader : Reader)
    (hthere : World.reader run source ≠ .absent) :
    run.Beside (World.setReader run source reader) := by
  cases source with
  | stdout => exact ⟨rfl, .inl rfl, fun h => h, fun h => h, .inl rfl⟩
  | stderr => exact ⟨rfl, .inl rfl, fun h => h, fun h => absurd h hthere, .inl rfl⟩

theorem beside_setRun {w₁ : World} {r₂ : RunId} {run₂ run₂' : Run} (hr : w.runs r = some run)
    (hr₂ : w.runs r₂ = some run₂) (hb : run₂.Beside run₂') (hruns : w₁.runs = w.runs) :
    ∃ run', (w₁.setRun r₂ run₂').runs r = some run' ∧ run.Beside run' := by
  by_cases heq : r = r₂
  · subst heq
    rw [hr, Option.some.injEq] at hr₂
    subst hr₂
    exact ⟨run₂', Function.update_self r _ _, hb⟩
  · exact ⟨run, (Function.update_of_ne heq _ _).trans (hruns ▸ hr), .refl run⟩

theorem stepCall_beside (hs : Sound w) (hr : w.runs r = some run) {c : Call} {p : World × Call}
    (h : w.stepCall c = some p) : ∃ run', p.1.runs r = some run' ∧ run.Beside run' := by
  have hsame : p.1.runs = w.runs → ∃ run', p.1.runs r = some run' ∧ run.Beside run' :=
    fun hruns => ⟨run, hruns ▸ hr, .refl run⟩
  cases c with
  | returned result => cases h
  | emit event next | log id line next =>
      cases h
      exact hsame rfl
  | register spec =>
      cases h
      exact hsame (by unfold World.register; split <;> rfl)
  | unregister id =>
      cases h
      refine hsame ?_
      unfold World.unregister
      split
      · rfl
      · split <;> rfl
  | start id =>
      cases h
      unfold World.start
      split
      · exact ⟨run, hr, .refl run⟩
      · split
        · exact ⟨run, hr, .refl run⟩
        · have hne : r ≠ w.nextRun := by
            rintro rfl
            rw [hs.fresh _ (Nat.le_refl _)] at hr
            cases hr
          exact ⟨run, (Function.update_of_ne hne _ _).trans hr, .refl run⟩
  | stop id =>
      cases h
      refine hsame ?_
      unfold World.stop
      split
      · rfl
      · split <;> rfl
  | spawn r₂ =>
      cases h
      unfold World.spawnTask
      split
      · exact ⟨run, hr, .refl run⟩
      · next run₂ hr₂ =>
          split
          · next ht =>
            exact beside_setRun hr hr₂ ⟨rfl, .inr ⟨ht, rfl⟩, fun h => h, fun h => h, .inl rfl⟩ rfl
          · exact ⟨run, hr, .refl run⟩
  | trySend control =>
      cases control with
      | none =>
          cases h
          exact hsame rfl
      | some r₂ =>
          cases h
          unfold World.trySend
          split
          · exact ⟨run, hr, .refl run⟩
          · next run₂ hr₂ =>
              split
              · exact ⟨run, hr, .refl run⟩
              · exact beside_setRun hr hr₂ ⟨rfl, .inl rfl, fun _ => rfl, fun h => h, .inl rfl⟩ rfl

/-- **A step is the task's own**, or it leaves the task where it is. -/
theorem next_beside (hs : Sound w) (hr : w.runs r = some run) {a : Action}
    (h : w.next a = some w') :
    (∃ answer, a = .task r answer ∧ w.stepTask r run answer = some w') ∨
      ∃ run', w'.runs r = some run' ∧ run.Beside run' := by
  cases a with
  | call c =>
      simp only [World.next, Option.ite_none_right_eq_some, Option.some.injEq] at h
      obtain ⟨-, rfl⟩ := h
      exact .inr ⟨run, hr, .refl run⟩
  | caller k =>
      obtain ⟨c, hc, h⟩ := Option.bind_eq_some_iff.mp h
      obtain ⟨⟨w₁, c'⟩, hstep, h⟩ := Option.bind_eq_some_iff.mp h
      cases h
      exact .inr (stepCall_beside hs hr hstep)
  | task r₂ answer =>
      obtain ⟨run₂, hr₂, h⟩ := Option.bind_eq_some_iff.mp h
      by_cases heq : r₂ = r
      · subst heq
        rw [hr, Option.some.injEq] at hr₂
        subst hr₂
        exact .inl ⟨answer, rfl, h⟩
      · obtain ⟨w₁, run₂', rfl, hruns, -⟩ := stepTask_older h
        have hr' : w₁.runs r = some run := hruns ▸ hr
        exact .inr ⟨run, (Function.update_of_ne (Ne.symm heq) _ _).trans hr', .refl run⟩
  | exit r₂ status =>
      obtain ⟨run₂, hr₂, h⟩ := Option.bind_eq_some_iff.mp h
      simp only [Option.ite_none_right_eq_some, Option.some.injEq] at h
      obtain ⟨halive, rfl⟩ := h
      exact .inr (beside_setRun hr hr₂
        ⟨rfl, .inl rfl, fun h => h, fun h => h, .inr ⟨halive, status, rfl⟩⟩ rfl)
  | read r₂ source _ | eof r₂ source =>
      obtain ⟨run₂, hr₂, h⟩ := Option.bind_eq_some_iff.mp h
      simp only [Option.ite_none_right_eq_some, Option.some.injEq] at h
      obtain ⟨hidle, rfl⟩ := h
      exact .inr (beside_setRun hr hr₂ (beside_setReader _ (by simp [hidle])) rfl)
  | readerEmit r₂ source =>
      obtain ⟨run₂, hr₂, h⟩ := Option.bind_eq_some_iff.mp h
      split at h
      · next hemit =>
          cases h
          exact .inr (beside_setRun hr hr₂ (beside_setReader _ (by simp [hemit])) rfl)
      · cases h
  | tick =>
      cases h
      exact .inr ⟨run, hr, .refl run⟩

end Beside

/-! ### A run that was asked to stop -/

/-- The run reads a raised flag, and what it has decided to write is `Stopped`. -/
structure Asked (w : World) (r : RunId) : Prop where
  exists_run : ∃ run, w.runs r = some run
  raised : ∀ run, w.runs r = some run → run.task.ended = false → w.flags run.stopFlag = true
  decided : ∀ run state, w.runs r = some run → run.task.decided = some state → state = .stopped

/-- No readiness wait of the run ends ready at this step. -/
def Unready (r : RunId) (w : World) (a : Action) : Prop :=
  ∀ run answer, w.runs r = some run → a = .task r answer → run.readied answer = false

section Asked

variable {w w' w'' : World} {r : RunId} {run : Run} {a : Action}

theorem classify_asked (f : Finish) (tail : List String) : (f.classify true tail).1 = .stopped := by
  unfold Finish.classify
  split <;> rfl

/-- **A run that was asked to stop stays so**, as long as it is not found ready. -/
theorem asked_next (hs : Sound w) (hf : FlagsOwned w) (hask : Asked w r) (hunready : Unready r w a)
    (h : w.next a = some w') : Asked w' r := by
  obtain ⟨run, hr⟩ := hask.exists_run
  obtain ⟨run', hr', hold⟩ := (aged_next hs h).kept r run hr
  refine ⟨⟨run', hr'⟩, fun run₁ hr₁ hunended => ?_, fun run₁ state hr₁ hstate => ?_⟩
  · rw [hr', Option.some.injEq] at hr₁
    subst hr₁
    have hunended' := hold.unended hunended
    rw [hold.stopFlag]
    exact flag_stays hs hf hr hunended' (hask.raised run hr hunended') h
  · rw [hr', Option.some.injEq] at hr₁
    subst hr₁
    rcases next_beside hs hr h with ⟨answer, ha, hstep⟩ | ⟨run₂, hr₂, hbeside⟩
    · obtain ⟨run₂, hr₂, hdecided⟩ := stepTask_decided hstep
      rw [hr', Option.some.injEq] at hr₂
      subst hr₂
      rcases hdecided state hstate with hbefore | hready | ⟨hunended, f, tail, rfl⟩
      · exact hask.decided run state hr hbefore
      · rw [hunready run answer hr ha] at hready
        cases hready
      · rw [hask.raised run hr hunended]
        exact classify_asked f tail
    · rw [hr', Option.some.injEq] at hr₂
      subst hr₂
      rcases hbeside.task with hsame | ⟨-, hspawn⟩
      · exact hask.decided run state hr (hsame ▸ hstate)
      · simp [hspawn] at hstate

/-- What `stop` does in a row that leads to a run. -/
theorem stop_accepted {k : CallId} {id : ServiceId} (hc : w.calls k = some (.stop id))
    (hcur : w.current id = some r) (h : w.next (.caller k) = some w') :
    ∃ e, w.entries id = some e ∧ w' = (w.setFlag e.stopRequested true).setCall k
      (.log id "stop requested by user" (.trySend (some r))) := by
  obtain ⟨e, he, hlive, hctl⟩ := World.current_eq_some.mp hcur
  refine ⟨e, he, ?_⟩
  have hstop : w.stop id = (w.setFlag e.stopRequested true,
      .log id "stop requested by user" (.trySend (some r))) := by
    simp [World.stop, he, hlive, hctl]
  simpa [World.next, hc, bind, Option.bind, World.stepCall, hstop] using h.symm

theorem asked_of_stop {k : CallId} {id : ServiceId} (hf : FlagsOwned w)
    (hled : ∃ run, w.runs r = some run ∧ run.id = id) (hc : w.calls k = some (.stop id))
    (hcur : w.current id = some r)
    (hundecided : ∀ run state, w.runs r = some run → run.task.decided = some state →
      state = .stopped)
    (h : w.next (.caller k) = some w') : Asked w' r := by
  obtain ⟨e, he, rfl⟩ := stop_accepted hc hcur h
  obtain ⟨run, hr, rfl⟩ := hled
  refine ⟨⟨run, hr⟩, fun run₁ hr₁ hunended => ?_, hundecided⟩
  obtain rfl : run₁ = run := Option.some.inj (hr₁.symm.trans hr)
  have hreads := hf.reads r run₁ hr hunended
  rw [World.flagOf, he, Option.map_some, Option.some.injEq] at hreads
  rw [← hreads]
  exact Function.update_self e.stopRequested _ _

end Asked

/-! ### The request to stop -/

/-- A run that no longer waits for a request to stop. -/
@[simp] def Task.over : Task → Bool
  | terminate _ _ | reap _ _ | drainReaders _ | stderrTailSnapshot _ | classify _ _
  | removeRecord _ _ | setTerminal _ _ | done => true
  | log _ _ next | emit _ next => next.over
  | _ => false

@[simp] theorem Task.over_note (line : String) (next : Task) : (note line next).over = next.over :=
  rfl

/-- A call that is still to send its request to run `r`. -/
@[simp] def Call.brings (r : RunId) : Call → Bool
  | emit _ next | log _ _ next => next.brings r
  | trySend control => control == some r
  | _ => false

/-- The request of call `k` is on its way, or in the channel, or no longer waited for. -/
def Requested (w : World) (k : CallId) (r : RunId) : Prop :=
  ∃ run, w.runs r = some run ∧ ((∃ c, w.calls k = some c ∧ c.brings r = true) ∨
    run.mailbox = true ∨ run.task.over = true)

section Requested

variable {w w' w'' : World} {r : RunId} {run : Run} {a : Action} {k : CallId}

/-- A task takes the request only when it begins to terminate its child. -/
theorem stepTask_mailbox {answer : Answer} (h : w.stepTask r run answer = some w') :
    ∃ run', w'.runs r = some run' ∧ (run.task.over = true → run'.task.over = true) ∧
      (run.mailbox = true → run'.mailbox = true ∨ run'.task.over = true) := by
  have hgoto : ∀ (w₁ : World) (run₁ : Run) (t : Task), (run.task.over = true → t.over = true) →
      (run.mailbox = true → run₁.mailbox = true ∨ t.over = true) →
      ∃ run', (w₁.goto r run₁ t).runs r = some run' ∧
        (run.task.over = true → run'.task.over = true) ∧
        (run.mailbox = true → run'.mailbox = true ∨ run'.task.over = true) :=
    fun w₁ run₁ t hover hmail => ⟨_, Function.update_self r _ _, hover, hmail⟩
  have hexit : ∀ next, w.onExit r run next = some w' → (∀ s, (next s).over = true) →
      ∃ run', w'.runs r = some run' ∧ (run.task.over = true → run'.task.over = true) ∧
        (run.mailbox = true → run'.mailbox = true ∨ run'.task.over = true) := by
    intro next h hover
    unfold World.onExit at h
    split at h
    · cases h
      exact hgoto w run _ (fun _ => hover _) fun _ => .inr (hover _)
    · cases h
    · cases h
  unfold World.stepTask at h
  split at h
  case h_6 ht =>
    split at h
    · cases h
      exact hgoto _ _ _ (by simp [ht]) .inl
    · exact hexit _ h fun _ => rfl
    · cases h
      exact hgoto _ _ _ (by simp [ht]) .inl
    · cases h
  case h_9 | h_12 | h_14 | h_16 | h_18 => exact hexit _ h fun _ => rfl
  case h_15 | h_19 =>
    split at h
    · cases h
      exact hgoto _ _ _ (fun _ => rfl) fun _ => .inr rfl
    · cases h
  case h_27 => cases h
  case h_3 pid ht =>
    cases h
    refine hgoto _ _ _ ?_ .inl
    simp [ht]
  case h_1 ht | h_2 ht | h_4 ht | h_5 ht | h_7 ht | h_8 ht | h_10 ht | h_11 ht | h_13 ht | h_17 ht
      | h_20 ht | h_21 ht | h_22 ht | h_23 ht | h_24 ht | h_25 ht | h_26 ht =>
    cases h
    exact hgoto _ _ _ (by simp [ht, Task.finishWithState]) .inl

theorem nextCall_le (h : w.next a = some w') : w.nextCall ≤ w'.nextCall := by
  cases next_cases h with
  | call => exact Nat.le_succ _
  | caller _ hstep => exact (stepCall_calls hstep).2.ge
  | task _ hstep => exact (stepTask_calls hstep).2.ge
  | own _ hw _ _ => exact hw.nextCall.ge
  | readerEmit | tick => exact Nat.le_refl _

theorem requested_next (hs : Sound w) (hk : k < w.nextCall) (hreq : Requested w k r)
    (h : w.next a = some w') : Requested w' k r := by
  obtain ⟨run, hr, hreq⟩ := hreq
  -- where the channel or the task answers for it already
  have hrun : run.mailbox = true ∨ run.task.over = true → Requested w' k r := by
    intro hheld
    rcases next_beside hs hr h with ⟨answer, -, hstep⟩ | ⟨run', hr', hbeside⟩
    · obtain ⟨run', hr', hover, hmail⟩ := stepTask_mailbox hstep
      exact ⟨run', hr', .inr (hheld.elim hmail fun ht => .inr (hover ht))⟩
    · refine ⟨run', hr', .inr (hheld.elim (fun hm => .inl (hbeside.mailbox hm)) fun ht => ?_)⟩
      rcases hbeside.task with hsame | ⟨hqueued, -⟩
      · exact .inr (hsame ▸ ht)
      · simp [hqueued] at ht
  rcases hreq with ⟨c, hc, hbrings⟩ | hheld
  · -- only the call itself brings the request further
    obtain ⟨run', hr', -⟩ := (aged_next hs h).kept r run hr
    have hsame : w'.calls k = w.calls k → Requested w' k r := fun hcalls =>
      ⟨run', hr', .inl ⟨c, hcalls.trans hc, hbrings⟩⟩
    cases next_cases h with
    | call => exact hsame (Function.update_of_ne hk.ne _ _)
    | task _ hstep => exact hsame (congrFun (stepTask_calls hstep).1 k)
    | own _ hw _ _ => exact hsame (congrFun hw.calls k)
    | readerEmit | tick => exact hsame rfl
    | @caller j c₁ c₁' w₁ hj hstep =>
        by_cases heq : k = j
        · subst heq
          rw [hc, Option.some.injEq] at hj
          subst hj
          cases c with
          | register | unregister | start | stop | spawn | returned => cases hbrings
          | emit event next | log id line next =>
              cases hstep
              exact ⟨run', hr', .inl ⟨_, Function.update_self k _ _, hbrings⟩⟩
          | trySend control =>
              obtain rfl : control = some r := by simpa using hbrings
              cases hstep
              have hsend : w.trySend r = w ∧ run.task = .done ∨
                  w.trySend r = w.setRun r { run with mailbox := true } := by
                unfold World.trySend
                rw [hr]
                cases ht : run.task <;> simp [ht]
              rcases hsend with ⟨hw, hdone⟩ | hw
              · exact ⟨run, by rw [hw]; exact hr, .inr (.inr (by simp [hdone]))⟩
              · rw [hw]
                exact ⟨_, Function.update_self r _ _, .inr (.inl rfl)⟩
        · exact hsame ((Function.update_of_ne heq _ _).trans (congrFun (stepCall_calls hstep).1 k))
  · exact hrun hheld

end Requested

/-! ### The row of a run -/

section Led

variable {w w' : World} {r : RunId} {run : Run} {id : ServiceId}

theorem World.stderrTail_of_entry {e : Entry} (he : w.entries id = some e) :
    w.stderrTail id = e.stderrTail := by
  rw [stderrTail, he, Option.map_some, Option.getD_some]

theorem stepCall_current {c : Call} {p : World × Call} (h : w.stepCall c = some p)
    (hcur : p.1.current id = some r) :
    w.current id = some r ∨
      (∃ run, p.1.runs r = some run ∧ run.id = id) ∧ p.1.stderrTail id = [] := by
  have hsame : ∀ i, p.1.entries id = w.entries id ∨ (id = i ∧ p.1.current i = none) →
      w.current id = some r := by
    rintro i (heq | ⟨rfl, hnone⟩)
    · rw [← hcur]
      exact (World.current_of_key (congrArg _ heq)).symm
    · rw [hcur] at hnone
      cases hnone
  cases c with
  | returned result => cases h
  | emit event next =>
      cases h
      exact .inl hcur
  | log i line next =>
      cases h
      exact .inl ((World.current_of_key ((World.quiet_pushLog _ _).key id)).symm.trans hcur)
  | register spec =>
      cases h
      refine .inl (hsame spec.id ?_)
      unfold World.register
      split
      · exact .inl rfl
      · by_cases hi : id = spec.id
        · refine .inr ⟨hi, World.current_eq_none fun e he => ?_⟩
          cases (Function.update_self spec.id _ _).symm.trans he
          rfl
        · exact .inl (Function.update_of_ne hi _ _)
  | unregister i =>
      cases h
      refine .inl (hsame i ?_)
      unfold World.unregister
      split
      · exact .inl rfl
      · split
        · exact .inl rfl
        · by_cases hi : id = i
          · refine .inr ⟨hi, World.current_eq_none fun e he => ?_⟩
            cases (Function.update_self i _ _).symm.trans he
          · exact .inl (Function.update_of_ne hi _ _)
  | start i =>
      cases h
      unfold World.start at hcur ⊢
      split at hcur
      · exact .inl hcur
      · next e he =>
          split at hcur
          · next hlive =>
              rw [if_pos hlive]
              exact .inl hcur
          · next hlive =>
              rw [if_neg hlive]
              by_cases hi : id = i
              · -- the row leads to the run that is made
                subst hi
                obtain ⟨e', he', -, hctl⟩ := World.current_eq_some.mp hcur
                cases (Function.update_self id _ _).symm.trans he'
                cases hctl
                refine .inr ⟨⟨_, Function.update_self w.nextRun _ _, rfl⟩, ?_⟩
                exact World.stderrTail_of_entry he'
              · refine .inl (Eq.trans ?_ hcur)
                exact (World.current_of_key (congrArg _ (Function.update_of_ne hi _ _))).symm
  | stop i =>
      cases h
      refine .inl (hsame i (.inl ?_))
      unfold World.stop
      split
      · rfl
      · split <;> rfl
  | spawn r₂ =>
      cases h
      refine .inl (hsame id (.inl ?_))
      unfold World.spawnTask
      split
      · rfl
      · split <;> rfl
  | trySend control =>
      cases control with
      | none =>
          cases h
          exact .inl hcur
      | some r₂ =>
          cases h
          refine .inl (hsame id (.inl ?_))
          unfold World.trySend
          split
          · rfl
          · split <;> rfl

/-- **A row that leads to a run** led to it before, or the run is new and the row's tail
is empty. -/
theorem current_next (hs : Sound w) {a : Action} (h : w.next a = some w')
    (hcur : w'.current id = some r) :
    w.current id = some r ∨
      (∃ run, w'.runs r = some run ∧ run.id = id) ∧ w'.stderrTail id = [] := by
  cases next_cases h with
  | call | tick | readerEmit => exact .inl hcur
  | own _ hw _ _ => exact .inl ((World.current_of_key (hw.key id)).symm.trans hcur)
  | @caller k c c' w₁ hc hstep => exact stepCall_current hstep hcur
  | @task r₂ run₂ answer _ hr₂ hstep =>
      cases stepTask_cases hstep with
      | quiet hw _ _ => exact .inl ((World.current_of_key (hw.key id)).symm.trans hcur)
      | emit _ => exact .inl hcur
      | write ht =>
          generalize htask : run₂.task = t at ht
          cases ht with
          | running =>
              have hown := hs.unended r₂ run₂ hr₂ (by simp [htask])
              exact .inl ((current_setState_live rfl hown id).symm.trans hcur)
          | terminal state detail =>
              have hne : id ≠ run₂.id := by
                rintro rfl
                obtain ⟨e, he, hlive, -⟩ := World.current_eq_some.mp hcur
                have he' : ((w.setState run₂.id state.1).entries run₂.id) = some e := he
                rw [World.setState, World.entries_modify, if_pos rfl, Option.map_eq_some_iff] at he'
                obtain ⟨e₀, -, rfl⟩ := he'
                simp [state.2] at hlive
              refine .inl (Eq.trans ?_ hcur)
              exact (World.current_of_key
                (congrArg _ (World.entries_modify.trans (if_neg hne)))).symm

theorem led_of_reachable (h : supervisor.Reachable w) :
    ∀ id r, w.current id = some r → ∃ run, w.runs r = some run ∧ run.id = id := by
  have hsound : ∀ w, supervisor.Reaches Lts.System.Any w → Sound w := fun _ hw =>
    sound_of_reachable hw
  refine Lts.System.Reaches.invariant_beside
    (I := fun w => ∀ id r, w.current id = some r → ∃ run, w.runs r = some run ∧ run.id = id)
    hsound ?_ ?_ h
  · rintro w ⟨hentries, -, -, -⟩ id r hcur
    obtain ⟨e, he, -⟩ := World.current_eq_some.mp hcur
    rw [hentries id] at he
    cases he
  · intro w a w' hs hled _ hn id r hcur
    rcases current_next hs hn hcur with hbefore | ⟨hnew, -⟩
    · obtain ⟨run, hr, hid⟩ := hled id r hbefore
      obtain ⟨run', hr', hold⟩ := (aged_next hs hn).kept r run hr
      exact ⟨run', hr', hold.id.trans hid⟩
    · exact hnew

end Led

section Kept

variable {w w' w'' : World} {r : RunId} {run : Run} {id : ServiceId} {k : CallId}

/-- Once a stop was accepted, its request is on its way, in every order of steps. -/
theorem requested_of_stop (h : supervisor.Reachable w) (hc : w.calls k = some (.stop id))
    (hcur : w.current id = some r) (hn : w.next (.caller k) = some w')
    (hl : supervisor.Leads Lts.System.Any w' w'') : Requested w'' k r := by
  obtain ⟨e, he, hw'⟩ := stop_accepted hc hcur hn
  obtain ⟨run₀, hr₀, -⟩ := led_of_reachable h id r hcur
  have hcall : w'.calls k = some (.log id "stop requested by user" (.trySend (some r))) := by
    rw [hw']
    exact Function.update_self k _ _
  have hfresh : k < w.nextCall := by
    by_contra hle
    rw [callsFresh_of_reachable h k (not_lt.mp hle)] at hc
    cases hc
  have hstart : Sound w' ∧ k < w'.nextCall ∧ Requested w' k r := by
    refine ⟨sound_next (sound_of_reachable h) hn, ?_, run₀, ?_, .inl ⟨_, hcall, ?_⟩⟩
    · rw [hw']
      exact hfresh
    · rw [hw']
      exact hr₀
    · simp
  refine (Lts.System.Leads.invariant
    (I := fun w => Sound w ∧ k < w.nextCall ∧ Requested w k r) hstart ?_ hl).2.2
  rintro w a w' ⟨hs, hk, hreq⟩ _ hn
  exact ⟨sound_next hs hn, hk.trans_le (nextCall_le hn), requested_next hs hk hreq hn⟩

/-- **A request to stop is delivered**: once `stop` has returned, a run that serves its
child finds the request in its channel, in every order of steps, and with it goes over to
terminating the child. -/
theorem stop_is_delivered (h : supervisor.Reachable w) (hc : w.calls k = some (.stop id))
    (hcur : w.current id = some r) (hn : w.next (.caller k) = some w')
    (hl : supervisor.Leads Lts.System.Any w' w'') {result : Except ProcError Unit}
    (hret : w''.calls k = some (.returned result)) (hr : w''.runs r = some run)
    (ht : run.task = .supervise) :
    w''.next (.task r .received) =
      some (w''.goto r { run with mailbox := false } (.terminate false [])) := by
  obtain ⟨run', hr', hreq⟩ := requested_of_stop h hc hcur hn hl
  obtain rfl : run = run' := Option.some.inj (hr.symm.trans hr')
  rcases hreq with ⟨c, hc', hbrings⟩ | hmail | hover
  · rw [hret, Option.some.injEq] at hc'
    subst hc'
    cases hbrings
  · simp [World.next, hr, World.stepTask, ht, hmail]
  · simp [ht] at hover

/-- **What a run writes after a stop**: no state but `Stopped`, if it had decided on no other
and is not found ready after it. -/
theorem writes_stopped (h : supervisor.Reachable w) (hc : w.calls k = some (.stop id))
    (hcur : w.current id = some r)
    (hundecided : ∀ run state, w.runs r = some run → run.task.decided = some state →
      state = .stopped)
    (hn : w.next (.caller k) = some w') (hl : supervisor.Leads (Unready r) w' w'')
    (hr : w''.runs r = some run) {state : ServiceState} {detail : Option String} {next : Task}
    (hwrites : WritesNext run.task state detail next) : state = .stopped := by
  have hs : Sound w := sound_of_reachable h
  have hf : FlagsOwned w := flagsOwned_of_reachable h
  have hasked : Asked w' r := asked_of_stop hf (led_of_reachable h id r hcur) hc hcur hundecided hn
  have hend : Sound w'' ∧ FlagsOwned w'' ∧ Asked w'' r := by
    refine Lts.System.Leads.invariant (I := fun w => Sound w ∧ FlagsOwned w ∧ Asked w r)
      ⟨sound_next hs hn, flagsOwned_next hs hf hn, hasked⟩ ?_ hl
    rintro w a w' ⟨hs, hf, hask⟩ hunready hn
    exact ⟨sound_next hs hn, flagsOwned_next hs hf hn, asked_next hs hf hask hunready hn⟩
  exact hend.2.2.decided run state hr (decided_of_writesNext hwrites)

end Kept

end OpenVHost.Proc
