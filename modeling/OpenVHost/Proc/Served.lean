/-
# A live row is served

A service that is starting or running has a run that has not ended, and its row leads to it:
`start` makes the two in one step, and the run's last write is the one that makes the row
terminal again. So whoever finds a service live finds a run of it, and a call of `start` that
succeeds leaves one behind.

* `Served` — the invariant; `served_of_reachable` — it holds of every state.
* `Begins` — what a call of `start` has come to; `begins_next` — every step keeps it.
-/

import OpenVHost.Proc.Record

namespace OpenVHost.Proc

/-- Run `r` is one of this service and has not ended. -/
def World.Serves (w : World) (id : ServiceId) (r : RunId) : Prop :=
  ∃ run, w.runs r = some run ∧ run.id = id ∧ run.task.ended = false

/-- **The invariant**: a live row leads to a run that serves it. -/
def Served (w : World) : Prop :=
  ∀ id e, w.entries id = some e → e.state.live = true → ∃ r, e.control = some r ∧ w.Serves id r

section Served

variable {w w' : World} {id : ServiceId} {r : RunId} {run : Run}

/-- A row that is live afterwards was so before, and its run goes on. -/
theorem Served.of_kept (hs : Served w)
    (hrows : ∀ id e', w'.entries id = some e' → e'.state.live = true →
      (∃ e, w.entries id = some e ∧ e.state.live = true ∧ e.control = e'.control) ∧
        ∀ r, w.Serves id r → w'.Serves id r) : Served w' := by
  intro id e' he' hlive'
  obtain ⟨⟨e, he, hlive, hcontrol⟩, hruns⟩ := hrows id e' he' hlive'
  obtain ⟨r, hr, hserves⟩ := hs id e he hlive
  exact ⟨r, hcontrol ▸ hr, hruns r hserves⟩

theorem live_of_key {e' : Entry} (h : (w'.entries id).map Entry.key = (w.entries id).map Entry.key)
    (he' : w'.entries id = some e') (hlive : e'.state.live = true) :
    ∃ e, w.entries id = some e ∧ e.state.live = true ∧ e.control = e'.control := by
  rw [he', Option.map_some] at h
  obtain ⟨e, he, hkey⟩ := Option.map_eq_some_iff.mp h.symm
  obtain ⟨hstate, hcontrol⟩ := Prod.ext_iff.mp hkey
  exact ⟨e, he, (congrArg ServiceState.live hstate).trans hlive, hcontrol⟩

/-- Neither the rows' states nor the runs change. -/
theorem Served.quiet (hs : Served w)
    (hkey : ∀ id, (w'.entries id).map Entry.key = (w.entries id).map Entry.key)
    (hruns : w'.runs = w.runs) : Served w' := by
  apply hs.of_kept
  intro id e' he' hlive
  refine ⟨live_of_key (hkey id) he' hlive, ?_⟩
  rintro r ⟨run, hr, hid, hend⟩
  exact ⟨run, hruns ▸ hr, hid, hend⟩

theorem Served.send (hs : Served w) (event : Event) : Served (w.send event) :=
  hs.quiet (fun _ => rfl) rfl

theorem serves_setRun {run' : Run} (hr : w.runs r = some run) (hid : run'.id = run.id)
    (hend : run'.task.ended = run.task.ended) {r' : RunId} (h : w.Serves id r') :
    (w.setRun r run').Serves id r' := by
  obtain ⟨run₁, hr₁, hid₁, hend₁⟩ := h
  by_cases heq : r' = r
  · subst heq
    rw [hr] at hr₁
    cases hr₁
    exact ⟨run', Function.update_self r' _ _, hid.trans hid₁, hend.trans hend₁⟩
  · exact ⟨run₁, (Function.update_of_ne heq _ _).trans hr₁, hid₁, hend₁⟩

theorem Served.setRun {run' : Run} (hs : Served w) (hr : w.runs r = some run)
    (hid : run'.id = run.id) (hend : run'.task.ended = run.task.ended) :
    Served (w.setRun r run') := by
  apply hs.of_kept
  intro id e' he' hlive
  exact ⟨⟨e', he', hlive, rfl⟩, fun _ => serves_setRun hr hid hend⟩

/-- A row is replaced by one that is not live, or dropped. -/
theorem Served.replace (hs : Served w) (id : ServiceId) (hruns : w'.runs = w.runs)
    (hother : ∀ i, i ≠ id → w'.entries i = w.entries i)
    (hafter : ∀ e, w'.entries id = some e → e.state.live = false) : Served w' := by
  apply hs.of_kept
  intro i e' he' hlive
  by_cases hi : i = id
  · subst hi
    rw [hafter e' he'] at hlive
    cases hlive
  · refine ⟨⟨e', (hother i hi) ▸ he', hlive, rfl⟩, ?_⟩
    rintro r ⟨run, hr, hid, hend⟩
    exact ⟨run, hruns ▸ hr, hid, hend⟩

/-! ### Calls -/

theorem served_register (hs : Served w) (spec : ServiceSpec) : Served (w.register spec).1 := by
  unfold World.register
  split
  next => exact hs
  next =>
    refine hs.replace spec.id ?_ ?_ ?_
    · rfl
    · intro i hi
      exact Function.update_of_ne hi _ _
    · intro e he
      have heq := (Function.update_self spec.id _ _).symm.trans he
      rw [← Option.some.inj heq]
      rfl

theorem served_unregister (hs : Served w) (id : ServiceId) : Served (w.unregister id).1 := by
  unfold World.unregister
  split
  next => exact hs
  next =>
    split
    next => exact hs
    next =>
      refine hs.replace id ?_ ?_ ?_
      · rfl
      · intro i hi
        exact Function.update_of_ne hi _ _
      · intro e he
        cases (Function.update_self id _ _).symm.trans he

/-- `start` finds a live row, or makes a run that serves the row. -/
theorem serves_start (hs : Served w) (h : (w.entries id).isSome = true) :
    ∃ r, (w.start id).1.Serves id r ∧ (w.Serves id r ∨ r = w.nextRun) := by
  unfold World.start
  split
  next hnone =>
    rw [hnone] at h
    cases h
  next e he =>
    split
    next hlive =>
      obtain ⟨r, -, hserves⟩ := hs id e he hlive
      exact ⟨r, hserves, .inl hserves⟩
    next =>
      exact ⟨w.nextRun, ⟨_, Function.update_self w.nextRun _ _, rfl, rfl⟩, .inr rfl⟩

theorem served_start (hfresh : w.runs w.nextRun = none) (hs : Served w) (id : ServiceId) :
    Served (w.start id).1 := by
  unfold World.start
  split
  next => exact hs
  next e he =>
    split
    next => exact hs
    next =>
      intro i e' he' hlive
      by_cases hi : i = id
      · subst hi
        have heq := Option.some.inj ((Function.update_self i _ _).symm.trans he')
        rw [← heq]
        exact ⟨w.nextRun, rfl, _, Function.update_self w.nextRun _ _, rfl, rfl⟩
      · have hold : w.entries i = some e' := (Function.update_of_ne hi _ _).symm.trans he'
        obtain ⟨r, hr, run, hrun, hid, hend⟩ := hs i e' hold hlive
        have hne : r ≠ w.nextRun := by
          rintro rfl
          rw [hfresh] at hrun
          cases hrun
        exact ⟨r, hr, run, (Function.update_of_ne hne _ _).trans hrun, hid, hend⟩

theorem served_stepCall (hfresh : w.runs w.nextRun = none) (hs : Served w) {c : Call}
    {p : World × Call} (h : w.stepCall c = some p) : Served p.1 := by
  cases c with
  | returned result => cases h
  | register spec =>
      cases h
      exact served_register hs spec
  | unregister id =>
      cases h
      exact served_unregister hs id
  | start id =>
      cases h
      exact served_start hfresh hs id
  | stop id =>
      cases h
      unfold World.stop
      split
      · exact hs
      · split
        · exact hs.quiet (fun _ => rfl) rfl
        · exact hs
  | emit event next =>
      cases h
      exact hs.quiet (fun _ => rfl) rfl
  | log id line next =>
      cases h
      exact hs.quiet (World.quiet_pushLog _ _).key (World.quiet_pushLog _ _).runs
  | spawn r =>
      cases h
      unfold World.spawnTask
      split
      next => exact hs
      next run hr =>
        split
        next ht => exact hs.setRun hr rfl (by rw [ht]; rfl)
        next => exact hs
  | trySend control =>
      cases control with
      | none =>
          cases h
          exact hs
      | some r =>
          cases h
          unfold World.trySend
          split
          next => exact hs
          next run hr =>
            split
            next => exact hs
            next => exact hs.setRun hr rfl rfl

/-! ### Every step -/

theorem served_stepTask (hsound : Sound w) (hs : Served w) (hr : w.runs r = some run)
    {answer : Answer} (h : w.stepTask r run answer = some w') : Served w' := by
  cases stepTask_cases h with
  | quiet hw hk _ => exact (hs.quiet hw.key hw.runs).setRun (hw.runs ▸ hr) hk.id hk.ended
  | emit ht =>
      exact (hs.send _).setRun hr rfl (by rw [ht]; rfl)
  | write ht =>
      generalize htask : run.task = t at ht
      have hown := hsound.unended r run hr (by cases ht <;> rw [htask] <;> rfl)
      obtain ⟨e, he, hlive, hctl⟩ := World.current_eq_some.mp hown
      cases ht with
      | running =>
          apply hs.of_kept
          intro id e' he' hlive'
          refine ⟨?_, fun r' hserves => ?_⟩
          · have hentry := World.entries_modify.symm.trans he'
            split at hentry
            next hid =>
              subst hid
              rw [he, Option.map_some, Option.some.injEq] at hentry
              refine ⟨e, he, hlive, ?_⟩
              rw [← hentry]
              rfl
            next => exact ⟨e', hentry, hlive', rfl⟩
          · have hend : Task.ended (.emit (.stateChanged run.id .running none) .supervise) =
                run.task.ended := by
              rw [htask]
              rfl
            apply serves_setRun (w := w.setState run.id .running) hr
            · rfl
            · exact hend
            · exact hserves
      | terminal state detail =>
          apply hs.of_kept
          intro id e' he' hlive'
          have hentry := World.entries_modify.symm.trans he'
          split at hentry
          next hid =>
            -- the row that the run has just ended
            rw [he, Option.map_some, Option.some.injEq] at hentry
            rw [← hentry] at hlive'
            simp [state.2] at hlive'
          next hid =>
            refine ⟨⟨e', hentry, hlive', rfl⟩, ?_⟩
            rintro r' ⟨run', hr', hid', hend⟩
            have hne : r' ≠ r := by
              rintro rfl
              rw [hr] at hr'
              cases hr'
              exact hid hid'.symm
            exact ⟨run', (Function.update_of_ne hne _ _).trans hr', hid', hend⟩

theorem served_next (hsound : Sound w) (hs : Served w) {a : Action} (h : w.next a = some w') :
    Served w' := by
  cases next_cases h with
  | call => exact hs.quiet (fun _ => rfl) rfl
  | tick => exact hs.quiet (fun _ => rfl) rfl
  | @caller k c c' w₁ hc hstep =>
      have hs₁ : Served w₁ := served_stepCall (hsound.fresh _ (Nat.le_refl _)) hs hstep
      exact hs₁.quiet (fun _ => rfl) rfl
  | task hr h => exact served_stepTask hsound hs hr h
  | own hr hw hk _ => exact (hs.quiet hw.key hw.runs).setRun (hw.runs ▸ hr) hk.id hk.ended
  | readerEmit line hr hk _ =>
      exact (hs.send _).setRun hr hk.id hk.ended

/-- **A live row is served**, in every state. -/
theorem served_of_reachable : supervisor.Reachable w → Served w := by
  have hsound : ∀ w, supervisor.Reachable w → Sound w := fun _ hw => sound_of_reachable hw
  apply Lts.System.Reaches.invariant_beside (I := Served) hsound
  · rintro w ⟨hentries, -⟩ id e he
    rw [hentries id] at he
    cases he
  · intro w a w' hsound hs _ hn
    exact served_next hsound hs hn

end Served

/-! ### What a call of `start` leaves behind -/

/-- What a call returns, once it has taken effect. -/
def Call.result : Call → Option (Except ProcError Unit)
  | emit _ next | log _ _ next => next.result
  | spawn _ | trySend _ => some (.ok ())
  | returned result => some result
  | register _ | unregister _ | start _ | stop _ => none

/-- A call of `start` that has not taken effect, or one that fails, or one with such a run. -/
def Begins (w : World) (k : CallId) (id : ServiceId) (good : RunId → Prop) : Prop :=
  ∃ c, w.calls k = some c ∧ (c = .start id ∨ c.result.isSome = true ∧
    (c.result = some (.ok ()) → ∃ r run, w.runs r = some run ∧ run.id = id ∧ good r))

section Begins

variable {w w' : World} {id : ServiceId} {k : CallId} {good : RunId → Prop}

theorem result_stepCall {c : Call} {p : World × Call} (h : w.stepCall c = some p)
    (hsome : c.result.isSome = true) : p.2.result = c.result := by
  cases c with
  | register | unregister | start | stop => cases hsome
  | returned => cases h
  | emit | log | spawn =>
      cases h
      rfl
  | trySend control =>
      cases control <;> cases h <;> rfl

theorem result_start (id : ServiceId) :
    (w.start id).2.result.isSome = true ∧
      ((w.start id).2.result = some (.ok ()) → (w.entries id).isSome = true) := by
  unfold World.start
  split
  next => exact ⟨rfl, nofun⟩
  next e he =>
    split <;> exact ⟨rfl, fun _ => by rw [he]; rfl⟩

/-- **What a call of `start` leaves behind**: if those that serve the service are good, and those
that are made from now on, so is the run that it leaves. -/
theorem begins_next (hsound : Sound w) (hs : Served w) (hk : k < w.nextCall)
    (hb : Begins w k id good) (hserves : ∀ r, w.Serves id r → good r) (hnew : good w.nextRun)
    {a : Action} (h : w.next a = some w') : Begins w' k id good := by
  obtain ⟨c, hc, hb⟩ := hb
  have hkept : ∀ {r run}, w.runs r = some run → ∃ run', w'.runs r = some run' ∧ run'.id = run.id := by
    intro r run hr
    obtain ⟨run', hr', ho⟩ := (aged_next hsound h).kept r run hr
    exact ⟨run', hr', ho.id⟩
  have hsame : w'.calls k = some c → Begins w' k id good := by
    intro hc'
    refine ⟨c, hc', hb.imp_right ?_⟩
    rintro ⟨hsome, hrun⟩
    refine ⟨hsome, fun hok => ?_⟩
    obtain ⟨r, run, hr, hid, hgood⟩ := hrun hok
    obtain ⟨run', hr', hid'⟩ := hkept hr
    exact ⟨r, run', hr', hid'.trans hid, hgood⟩
  cases next_cases h with
  | call => exact hsame ((Function.update_of_ne hk.ne _ _).trans hc)
  | task _ hstep => exact hsame ((congrFun (stepTask_calls hstep).1 k).trans hc)
  | own _ hw _ _ => exact hsame ((congrFun hw.calls k).trans hc)
  | readerEmit | tick => exact hsame hc
  | @caller j c₁ c' w₁ hj hstep =>
      by_cases heq : k = j
      · subst heq
        rw [hc, Option.some.injEq] at hj
        subst hj
        refine ⟨c', Function.update_self k _ _, .inr ?_⟩
        rcases hb with rfl | ⟨hsome, hrun⟩
        · have hp : w.start id = (w₁, c') := Option.some.inj hstep
          obtain rfl : (w.start id).1 = w₁ := congrArg Prod.fst hp
          obtain rfl : (w.start id).2 = c' := congrArg Prod.snd hp
          obtain ⟨hsome, hthere⟩ := result_start (w := w) id
          refine ⟨hsome, fun hok => ?_⟩
          obtain ⟨r, ⟨run, hr, hid, -⟩, hcase⟩ := serves_start hs (hthere hok)
          refine ⟨r, run, hr, hid, ?_⟩
          rcases hcase with hserved | rfl
          · exact hserves r hserved
          · exact hnew
        · have hresult := result_stepCall hstep hsome
          refine ⟨hresult ▸ hsome, fun hok => ?_⟩
          obtain ⟨r, run, hr, hid, hgood⟩ := hrun (hresult ▸ hok)
          obtain ⟨run', hr', hid'⟩ := hkept hr
          exact ⟨r, run', hr', hid'.trans hid, hgood⟩
      · exact hsame ((Function.update_of_ne heq _ _).trans
          ((congrFun (stepCall_calls hstep).1 k).trans hc))

end Begins

end OpenVHost.Proc
