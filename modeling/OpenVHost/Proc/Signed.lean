/-
# Whose event it is

Events name a service and not a run. Beside the stream a list is kept of the runs whose
tasks or readers broadcast each event, so that it can be said which run an event is of.

* `runMove_next` — what a step does to a run's last write and to what it has to broadcast.
* `Signed` — the invariant of the list; `signed_next` — every step keeps it.
* `starting_next` — a service that is starting is written by its own run alone.
-/

import OpenVHost.Proc.Feed
import OpenVHost.Proc.Stop

namespace OpenVHost.Proc

/-- The run whose task or reader takes a step. -/
def Action.source : Action → Option RunId
  | .task r _ | .readerEmit r _ => some r
  | _ => none

/-- The list of sources, after a step. -/
def sourcesNext (sources : List (Option RunId)) (w w' : World) (a : Action) : List (Option RunId) :=
  sources ++ List.replicate (w'.events.length - w.events.length) a.source

/-! ### What a step does to a run -/

/-- A run's last write and what it owes, over a step. -/
inductive RunMove (w : World) (a : Action) (w' : World) (r : RunId) (run run' : Run) : Prop where
  | same (hended : run'.task.ended = run.task.ended) (howes : run'.task.owes = run.task.owes)
  | write (answer : Answer) (state : ServiceState) (detail : Option String) (ha : a = .task r answer)
      (hstate : state ≠ .starting) (hunended : run.task.ended = false) (hbefore : run.task.owes = [])
      (howes : run'.task.owes = [.stateChanged run.id state detail])
      (hended : run'.task.ended = !state.live)
      (hrows : w'.rows = (Event.stateChanged run.id state detail).apply w.rows)
  | emit (answer : Answer) (e : Event) (ha : a = .task r answer) (hstate : e.isState = true)
      (hended : run'.task.ended = run.task.ended) (howes : run.task.owes = e :: run'.task.owes)
      (hevents : w'.events = w.events ++ [e])

section Moves

variable {w w' : World} {a : Action} {r : RunId} {run : Run} {id : ServiceId}

theorem writesNext_spec {t : Task} {state : ServiceState} {detail : Option String} {next : Task}
    (h : WritesNext t state detail next) :
    state ≠ .starting ∧ t.ended = false ∧ t.owes = [] ∧ next.owes = [] ∧ next.ended = !state.live := by
  cases h with
  | running => exact ⟨nofun, rfl, rfl, rfl, rfl⟩
  | terminal state detail =>
      refine ⟨?_, rfl, rfl, rfl, by rw [state.2]; rfl⟩
      intro heq
      have hdead := state.2
      rw [heq] at hdead
      cases hdead

/-- **What a step does to a run.** -/
theorem runMove_next (hs : Sound w) (hr : w.runs r = some run) (h : w.next a = some w') :
    ∃ run', w'.runs r = some run' ∧ run'.id = run.id ∧ RunMove w a w' r run run' := by
  obtain ⟨run', hr', hid⟩ : ∃ run', w'.runs r = some run' ∧ run'.id = run.id := by
    obtain ⟨run', hr', holder⟩ := (aged_next hs h).kept r run hr
    exact ⟨run', hr', holder.id⟩
  refine ⟨run', hr', hid, ?_⟩
  rcases next_beside hs hr h with ⟨answer, rfl, hstep⟩ | ⟨run₂, hr₂, hbeside⟩
  · cases stepTask_cases hstep with
    | @quiet w₁ run₁ hw hk howes =>
        have heq : run₁ = run' := by simpa [World.setRun] using hr'
        subst heq
        exact .same hk.ended howes
    | @write state detail next ht =>
        have heq := hr'
        simp only [World.setRun, Function.update_self, Option.some.injEq] at heq
        subst heq
        obtain ⟨hstate, hunended, hbefore, hnone, hended⟩ := writesNext_spec ht
        refine .write answer state detail rfl hstate hunended hbefore ?_ hended rows_setState
        simp [owed, Event.isState, hnone]
    | @emit event next ht =>
        have heq := hr'
        simp only [World.setRun, Function.update_self, Option.some.injEq] at heq
        subst heq
        cases hstate : event.isState with
        | false => exact .same (by rw [ht]; rfl) (by rw [ht]; simp [owed, hstate])
        | true => exact .emit answer event rfl hstate (by rw [ht]; rfl) (by rw [ht]; simp [owed, hstate]) rfl
  · rw [hr'] at hr₂
    cases hr₂
    rcases hbeside.task with htask | ⟨hqueued, hspawn⟩
    · exact .same (by rw [htask]) (by rw [htask])
    · exact .same (by rw [hqueued, hspawn]; rfl) (by rw [hqueued, hspawn]; rfl)

/-- What a step broadcasts is of a call, or of the run that takes it. -/
theorem source_next (h : w.next a = some w') :
    w'.events = w.events ∨ ∃ e, w'.events = w.events ++ [e] ∧ ∀ r, a.source = some r →
      ∃ run run', w.runs r = some run ∧ w'.runs r = some run' ∧ (e.isState = true →
        run.task.owes = e :: run'.task.owes ∧ run'.task.ended = run.task.ended) := by
  cases a with
  | call c =>
      simp only [World.next, Option.ite_none_right_eq_some, Option.some.injEq] at h
      obtain ⟨-, rfl⟩ := h
      exact .inl rfl
  | caller k =>
      obtain ⟨c, hc, h⟩ := Option.bind_eq_some_iff.mp h
      obtain ⟨⟨w₁, c'⟩, hstep, h⟩ := Option.bind_eq_some_iff.mp h
      cases h
      rcases Proc.stepCall_events hstep with heq | ⟨event, next, rfl, heq⟩
      · exact .inl heq
      · exact .inr ⟨event, heq, fun r hr => by cases hr⟩
  | task r answer =>
      obtain ⟨run, hr, h⟩ := Option.bind_eq_some_iff.mp h
      cases stepTask_cases h with
      | quiet hw _ _ => exact .inl hw.events
      | write _ => exact .inl rfl
      | @emit event next ht =>
          refine .inr ⟨event, rfl, fun r' hr' => ?_⟩
          cases hr'
          refine ⟨run, { run with task := next }, hr, Function.update_self .., fun hstate => ?_⟩
          rw [ht]
          exact ⟨by simp [owed, hstate], rfl⟩
  | readerEmit r source =>
      obtain ⟨run, hr, h⟩ := Option.bind_eq_some_iff.mp h
      split at h
      · cases h
        refine .inr ⟨_, rfl, fun r' hr' => ?_⟩
        cases hr'
        exact ⟨run, _, hr, Function.update_self .., fun hstate => by cases hstate⟩
      · cases h
  | exit r status | read r source line | eof r source =>
      obtain ⟨run, hr, h⟩ := Option.bind_eq_some_iff.mp h
      simp only [Option.ite_none_right_eq_some, Option.some.injEq] at h
      obtain ⟨-, rfl⟩ := h
      exact .inl rfl
  | tick =>
      cases h
      exact .inl rfl

/-- **A service that is starting** is written by its own run alone, which is past its start
then. -/
theorem starting_next (h : w.next a = some w') (hwrites : w.writes a = some id)
    (hstarting : w.rows id = some .starting) :
    ∃ r run answer, a = .task r answer ∧ w.runs r = some run ∧ run.id = id ∧
      run.task.ended = false ∧ ∃ state detail, state ≠ .starting ∧
        w'.owes (.task r) = [.stateChanged id state detail] := by
  obtain ⟨e, he, hstate⟩ := Option.map_eq_some_iff.mp hstarting
  have hlive : w.idleAt id = false := by simp [World.idleAt, he, hstate, ServiceState.live]
  cases a with
  | caller k =>
      simp only [World.writes] at hwrites
      split at hwrites
      next spec _ =>
        rw [Option.ite_none_left_eq_some] at hwrites
        obtain ⟨hnot, heq⟩ := hwrites
        cases heq
        simp [World.liveAt, he, hstate, ServiceState.live] at hnot
      all_goals first | cases hwrites | skip
      all_goals
        rw [Option.ite_none_right_eq_some] at hwrites
        obtain ⟨hidle, heq⟩ := hwrites
        cases heq
        rw [hlive] at hidle
        cases hidle
  | task r answer =>
      obtain ⟨run, hr, hstep⟩ := Option.bind_eq_some_iff.mp h
      simp only [World.writes, hr] at hwrites
      have hdecides : run.id = id ∧
          (run.task = .setRunning ∨ ∃ state detail, run.task = .setTerminal state detail) := by
        split at hwrites
        next ht => exact ⟨Option.some.inj hwrites, .inl ht⟩
        next state detail ht => exact ⟨Option.some.inj hwrites, .inr ⟨state, detail, ht⟩⟩
        next => cases hwrites
      obtain ⟨rfl, htask⟩ := hdecides
      have howes : ∀ {state : ServiceState} {detail : Option String} {next : Task}, next.owes = [] →
          ((w.setState run.id state).goto r run (.emit (.stateChanged run.id state detail) next)).owes
            (.task r) = [.stateChanged run.id state detail] := by
        intro state detail next hnone
        rw [World.goto, World.owes_setRun, if_pos rfl]
        simp [owed, Event.isState, hnone]
      rcases htask with ht | ⟨state, detail, ht⟩
      · cases answer <;> simp only [World.stepTask, ht, Option.some.injEq, reduceCtorEq] at hstep
        subst hstep
        exact ⟨r, run, .go, rfl, hr, rfl, by rw [ht]; rfl, ServiceState.running, none, by decide, howes rfl⟩
      · cases answer <;> simp only [World.stepTask, ht, Option.some.injEq, reduceCtorEq] at hstep
        subst hstep
        have hdead : state.1 ≠ .starting := fun heq => by
          have hterminal := state.2
          rw [heq] at hterminal
          cases hterminal
        exact ⟨r, run, .go, rfl, hr, rfl, by rw [ht]; rfl, state.1, detail, hdead, howes rfl⟩
  | call | exit | read | readerEmit | eof | tick => cases hwrites

end Moves

/-! ### The list of sources -/

/-- Event `n` is of run `r`. -/
def SignedBy (sources : List (Option RunId)) (n : Nat) (r : RunId) : Prop := sources[n]? = some (some r)

/-- An event that tells of the end of a run. -/
def Event.isLast : Event → Bool
  | .stateChanged _ state _ => !state.live
  | _ => false

/-- **The invariant**: the events that are signed by a run are of its service; a run has at
most one of them to broadcast, a state that it has written itself; and after its last one
there is none. -/
structure Signed (w : World) (sources : List (Option RunId)) : Prop where
  length : sources.length = w.events.length
  run : ∀ n r e, SignedBy sources n r → w.events[n]? = some e →
    ∃ run, w.runs r = some run ∧ (e.isState = true → e.id = run.id)
  owes : ∀ r run, w.runs r = some run → run.task.owes = [] ∨ ∃ state detail,
    run.task.owes = [.stateChanged run.id state detail] ∧ state ≠ .starting ∧
      run.task.ended = !state.live
  last : ∀ n r e, SignedBy sources n r → w.events[n]? = some e → e.isLast = true →
    (∀ run, w.runs r = some run → run.task.ended = true ∧ run.task.owes = []) ∧
      ∀ m > n, ∀ e', SignedBy sources m r → w.events[m]? = some e' → e'.isState = false

section Signed

variable {w w' : World} {a : Action} {sources : List (Option RunId)} {n : Nat} {r : RunId} {e : Event}

/-- An event that was there is signed by whom it was signed by. -/
theorem signedBy_old (hs : Signed w sources) (hn : n < w.events.length) :
    SignedBy (sourcesNext sources w w' a) n r ↔ SignedBy sources n r := by
  rw [SignedBy, SignedBy, sourcesNext, List.getElem?_append_left (hs.length.symm ▸ hn)]

/-- The event that is new is signed by whoever took the step. -/
theorem signedBy_new (hs : Signed w sources) (h : w'.events = w.events ++ [e]) :
    SignedBy (sourcesNext sources w w' a) w.events.length r ↔ a.source = some r := by
  rw [SignedBy, sourcesNext, List.getElem?_append_right hs.length.le, hs.length, h]
  simp

theorem length_sourcesNext (hs : Signed w sources) (h : w.next a = some w') :
    (sourcesNext sources w w' a).length = w'.events.length := by
  obtain ⟨more, hevents, -⟩ := Proc.events_next h
  rw [sourcesNext, List.length_append, List.length_replicate, hs.length, hevents, List.length_append]
  omega

/-- An event after a step is an old one, or the one that is new. -/
theorem event_cases (h : w.next a = some w') (he : w'.events[n]? = some e) :
    n < w.events.length ∧ w.events[n]? = some e ∨
      n = w.events.length ∧ w'.events = w.events ++ [e] := by
  have hold : w'.events = w.events → n < w.events.length ∧ w.events[n]? = some e := by
    intro heq
    rw [heq] at he
    exact ⟨(List.getElem?_eq_some_iff.mp he).1, he⟩
  rcases source_next h with heq | ⟨e', heq, -⟩
  · exact .inl (hold heq)
  · by_cases hn : n < w.events.length
    · rw [heq, List.getElem?_append_left hn] at he
      exact .inl ⟨hn, he⟩
    · have hlt := (List.getElem?_eq_some_iff.mp he).1
      rw [heq, List.length_append, List.length_singleton] at hlt
      obtain rfl : n = w.events.length := by omega
      rw [heq, List.getElem?_append_right (Nat.le_refl _)] at he
      exact .inr ⟨rfl, by simpa [heq] using he⟩

/-- **Every step keeps the list signed.** -/
theorem signed_next (hw : Sound w) (hs : Signed w sources) (h : w.next a = some w') :
    Signed w' (sourcesNext sources w w' a) := by
  have hkept : ∀ r run, w.runs r = some run → ∃ run', w'.runs r = some run' ∧ run'.id = run.id ∧
      RunMove w a w' r run run' := fun r run hr => runMove_next hw hr h
  -- the new event, if a run has signed it, is what the run owed
  have hnew : ∀ {r e}, w'.events = w.events ++ [e] → a.source = some r →
      ∃ run run', w.runs r = some run ∧ w'.runs r = some run' ∧ (e.isState = true →
        run.task.owes = e :: run'.task.owes ∧ run'.task.ended = run.task.ended) := by
    intro r e heq hsource
    rcases source_next h with hsame | ⟨e', heq', hrun⟩
    · rw [hsame] at heq
      simp at heq
    · have he' : e' = e := by simpa using heq'.symm.trans heq
      subst he'
      exact hrun r hsource
  refine ⟨length_sourcesNext hs h, ?_, ?_, ?_⟩
  · intro n r e hn he
    rcases event_cases h he with ⟨hlt, hold⟩ | ⟨rfl, heq⟩
    · obtain ⟨run, hr, hid⟩ := hs.run n r e ((signedBy_old hs hlt).mp hn) hold
      obtain ⟨run', hr', hid', -⟩ := hkept r run hr
      exact ⟨run', hr', fun hstate => (hid hstate).trans hid'.symm⟩
    · obtain ⟨run, run', hr, hr', howed⟩ := hnew heq ((signedBy_new hs heq).mp hn)
      refine ⟨run', hr', fun hstate => ?_⟩
      obtain ⟨run₁, hr₁, hid, -⟩ := hkept r run hr
      rw [hr'] at hr₁
      cases hr₁
      rcases hs.owes r run hr with hnone | ⟨state, detail, hone, -⟩
      · rw [hnone] at howed
        cases (howed hstate).1
      · rw [← (List.cons.inj ((howed hstate).1.symm.trans hone)).1.symm, hid]
        rfl
  · intro r run' hr'
    rcases (aged_next hw h).cases hr' with ⟨run, hr, -⟩ | hmade
    · obtain ⟨run₁, hr₁, hid, hmove⟩ := hkept r run hr
      rw [hr'] at hr₁
      cases hr₁
      cases hmove with
      | same hended howes =>
          rw [howes, hended, hid]
          exact hs.owes r run hr
      | write answer state detail _ hstate _ _ howes hended _ =>
          exact .inr ⟨state, detail, by rw [howes, hid], hstate, hended⟩
      | emit answer e _ _ _ howes _ =>
          rcases hs.owes r run hr with hnone | ⟨state, detail, hone, -⟩
          · rw [hnone] at howes
            cases howes
          · exact .inl (List.cons.inj (howes.symm.trans hone)).2
    · exact .inl (by rw [hmade.task]; rfl)
  · intro n r e hn he hlast
    rcases event_cases h he with ⟨hlt, hold⟩ | ⟨rfl, heq⟩
    · have hn' := (signedBy_old hs hlt).mp hn
      obtain ⟨run, hr, -⟩ := hs.run n r e hn' hold
      obtain ⟨hover, hsilent⟩ := hs.last n r e hn' hold hlast
      obtain ⟨hended, hnone⟩ := hover run hr
      constructor
      · intro run' hr'
        obtain ⟨run₁, hr₁, -, hmove⟩ := hkept r run hr
        rw [hr'] at hr₁
        cases hr₁
        cases hmove with
        | same hended' howes => exact ⟨hended'.trans hended, howes.trans hnone⟩
        | write _ _ _ _ _ hunended =>
            rw [hended] at hunended
            cases hunended
        | emit _ _ _ _ _ howes _ =>
            rw [hnone] at howes
            cases howes
      · intro m hm e' hsigned he'
        rcases event_cases h he' with ⟨hlt', hold'⟩ | ⟨rfl, heq⟩
        · exact hsilent m hm e' ((signedBy_old hs hlt').mp hsigned) hold'
        · obtain ⟨run₁, run', hr₁, -, howed⟩ := hnew heq ((signedBy_new hs heq).mp hsigned)
          rw [hr] at hr₁
          cases hr₁
          by_contra hstate
          rw [hnone] at howed
          cases (howed (by simpa using hstate)).1
    · have hstate : e.isState = true := by
        cases e <;> first | rfl | cases hlast
      obtain ⟨run, run', hr, hr', howed⟩ := hnew heq ((signedBy_new hs heq).mp hn)
      obtain ⟨howes, hended⟩ := howed hstate
      constructor
      · intro run₁ hr₁
        rw [hr'] at hr₁
        cases hr₁
        rcases hs.owes r run hr with hnone | ⟨state, detail, hone, -, hlive⟩
        · rw [hnone] at howes
          cases howes
        · obtain ⟨rfl, hrest⟩ := List.cons.inj (howes.symm.trans hone)
          exact ⟨hended.trans (hlive.trans hlast), hrest⟩
      · intro m hm e' _ he'
        have hlt := (List.getElem?_eq_some_iff.mp he').1
        rw [heq, List.length_append, List.length_singleton] at hlt
        omega

theorem signed_of_initial (h : w.Initial) : Signed w [] := by
  obtain ⟨-, hruns, -, hevents⟩ := h
  refine ⟨by rw [hevents]; rfl, ?_, ?_, ?_⟩
  · intro n r e hn
    cases hn
  · intro r run hr
    rw [hruns r] at hr
    cases hr
  · intro n r e hn
    cases hn

end Signed

end OpenVHost.Proc
