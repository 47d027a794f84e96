/-
# A waited start

A request to start subscribes to the supervisor's events, looks at the row, calls
`start` and then waits for the first event that settles its service. The events
say which service they are about and not which run. So what the request reads may
be older than its own start: an event between the subscription and the call, or one
that was written before and is broadcast later.

* `Watched` — the app with the rows that each request's service has had from the
  moment on at which the request's own `start` took effect.
* `Timely` — at that moment no older event is still to be read.
* `waited_start_is_own` — a waited start is answered by a state that the service had
  from that moment on.
* `stale_answer` — a run in which it is answered by the end of the run before.
-/

import OpenVHost.Desktop.Quit
import OpenVHost.Proc.Stop
import OpenVHost.Proc.Listing

namespace OpenVHost.Desktop

open Proc (ServiceId ServiceState ProcError CallId World Call Rows)

/-! ### What ends a wait -/

/-- What an event tells a wait for `Running`, if it ends it: the state of the service's
row, or that it is gone. -/
def news (id : ServiceId) : Proc.Event → Option (Option ServiceState)
  | .stateChanged changed state _ =>
      if changed = id ∧ step .running state ≠ .pending then some (some state) else none
  | .unregistered gone => if gone = id then some none else none
  | .registered _ | .log _ _ => none

/-- The verb that a handler waits for. -/
def Handler.waits : Handler → Option Verb
  | await v _ | reread v _ => some v
  | _ => none

/-- The wait is answered by what the row of the service was. -/
inductive Handler.AnsweredBy (v : Verb) (row : Option ServiceState) : Handler → Prop where
  | state {state : ServiceState} (rx : Nat) (hrow : row = some state) :
      AnsweredBy v row (.resolve v rx state)
  | removed (hrow : row = none) :
      AnsweredBy v row (.finish v (.refused .unknownService (removedMessage v.target v.id)))

/-! ### The rows from the start on -/

structure Watched where
  app : App
  /-- The rows at the moment at which a handler's start took effect, and after each step
  since. -/
  since : Nat → Option (List Rows)

/-- Whether the start that handler `h` has called takes effect at this step. -/
def App.startsNow (a : App) (h : Nat) : Action → Bool
  | .supervisor (.caller k) =>
      match a.handlers h with
      | some (.kicking v _ _ k') => k' == k && (a.sup.calls k).any fun c => match c with
          | .start id => id == v.id
          | _ => false
      | _ => false
  | _ => false

def Watched.next (s : Watched) (action : Action) : Option Watched :=
  (s.app.next action).map fun a =>
    { app := a
      since := fun h =>
        if s.app.startsNow h action then some [a.sup.rows]
        else (s.since h).map fun rows => rows ++ [a.sup.rows] }

/-- The app, with the rows that each start has seen. -/
def watched : Lts.System Watched Action where
  init s := s.app.Initial ∧ ∀ h, s.since h = none
  next := Watched.next

/-- An event that is not read yet, or still to be broadcast. -/
def Unread (w : World) (rx : Nat) (e : Proc.Event) : Prop :=
  e ∈ w.events.drop rx ∨ ∃ b, e ∈ w.owes b

/-- **The condition**: when a start takes effect, each event that would end its wait and
is not read yet says `Running`, and so does the service's row. The handler subscribes
before it starts, and an event names the service and no run, so that it takes an event of
the run before for the answer of its own. -/
def Timely (s : Watched) (action : Action) : Prop :=
  ∀ h v rx before k, s.app.handlers h = some (.kicking v rx before k) →
    s.app.startsNow h action = true → ∀ e row, Unread s.app.sup rx e → news v.id e = some row →
      row = some .running ∧ s.app.sup.rows v.id = some .running

section Watched

variable {s s' : Watched} {action : Action}

theorem Watched.next_app (hn : s.next action = some s') : s.app.next action = some s'.app := by
  unfold Watched.next at hn
  obtain ⟨a, ha, rfl⟩ := Option.map_eq_some_iff.mp hn
  exact ha

/-- What is watched is no part of the app: it goes on beside every run. -/
theorem reachable_of_watched {allowed : Watched → Action → Prop} (hr : watched.Reaches allowed s) :
    app.Reachable s.app := by
  induction hr with
  | init hinit => exact .init hinit.1
  | step _ _ hn ih => exact .step ih trivial (Watched.next_app hn)

end Watched

/-! ### News from the supervisor -/

section News

variable {w w' : World} {id : ServiceId} {act : Proc.Action} {rx : Nat}

/-- A call changes nothing of what others owe. -/
theorem stepCall_owes {c : Call} {p : World × Call} (hfresh : w.runs w.nextRun = none)
    (h : w.stepCall c = some p) (b : Proc.Actor) : p.1.owes b = w.owes b := by
  have hcalls := (Proc.stepCall_calls h).1
  have hruns : p.1.runs = w.runs → p.1.owes b = w.owes b := fun heq =>
    World.owes_congr hcalls heq b
  cases c with
  | returned => cases h
  | emit event next | log id line next =>
      cases h
      exact hruns rfl
  | register spec =>
      cases h
      refine hruns ?_
      unfold World.register
      split <;> rfl
  | unregister id =>
      cases h
      refine hruns ?_
      unfold World.unregister
      split
      · rfl
      · split <;> rfl
  | start id =>
      refine World.owes_of_calls hcalls (fun r => ?_) b
      cases h
      unfold World.start
      split
      · rfl
      · split
        · rfl
        · by_cases hr : r = w.nextRun
          · subst hr
            simp [World.owes, World.setRun, hfresh]
          · simp [World.owes, World.setRun, World.insert, World.setFlag, hr]
  | stop id =>
      cases h
      refine hruns ?_
      unfold World.stop
      split
      · rfl
      · split <;> rfl
  | spawn r =>
      refine World.owes_of_calls hcalls (fun r' => ?_) b
      cases h
      exact Proc.owes_spawnTask r r'
  | trySend control =>
      cases control with
      | none =>
          cases h
          rfl
      | some r =>
          refine World.owes_of_calls hcalls (fun r' => ?_) b
          cases h
          exact Proc.owes_trySend r r'

/-- What a call owes anew is no news, or the row says it. -/
theorem owes_stepCall {c : Call} {p : World × Call} {e : Proc.Event} {row : Option ServiceState}
    (h : w.stepCall c = some p) (he : e ∈ p.2.owes) (hnews : news id e = some row) :
    e ∈ c.owes ∨ p.1.rows id = row := by
  cases c with
  | returned => cases h
  | emit event next =>
      cases h
      refine .inl ?_
      simp only [Call.owes, Proc.owed]
      split
      · exact List.mem_cons_of_mem _ he
      · exact he
  | log i line next =>
      cases h
      exact .inl (by simpa [Proc.owed, Proc.Event.isState] using he)
  | register spec =>
      cases h
      unfold World.register at he
      split at he
      · simp at he
      · simp only [Call.owes, Proc.owed, Proc.Event.isState, if_true, List.mem_singleton] at he
        subst he
        cases hnews
  | unregister i =>
      cases h
      unfold World.unregister at he ⊢
      split at he
      · simp at he
      · next e₀ he₀ =>
          split at he
          · simp at he
          · simp only [Call.owes, Proc.owed, Proc.Event.isState, if_true, List.mem_singleton] at he
            subst he
            simp only [news, Option.ite_none_right_eq_some, Option.some.injEq] at hnews
            obtain ⟨rfl, rfl⟩ := hnews
            refine .inr ?_
            rw [Proc.rows_remove]
            exact Function.update_self _ _ _
  | start i =>
      cases h
      unfold World.start at he
      split at he
      · simp at he
      · split at he
        · simp at he
        · simp only [Call.owes, Proc.owed, Proc.Event.isState, if_true, List.mem_singleton] at he
          subst he
          simp [news, step] at hnews
  | stop i =>
      cases h
      unfold World.stop at he
      split at he
      · simp at he
      · split at he <;> simp at he
  | spawn r =>
      cases h
      simp at he
  | trySend control =>
      cases control <;> cases h <;> simp at he

/-- **News that is owed** was owed before, or is what the row says now. -/
theorem owes_next (hs : Proc.Sound w) {e : Proc.Event} {row : Option ServiceState} {b : Proc.Actor}
    (h : w.next act = some w') (hnotnew : App.isCall act = false) (he : e ∈ w'.owes b)
    (hnews : news id e = some row) : (∃ b, e ∈ w.owes b) ∨ w'.rows id = row := by
  cases Proc.next_cases h with
  | call => cases hnotnew
  | tick => exact .inl ⟨b, he⟩
  | @own _ r run run' w₁ hr hw _ htask =>
      rw [World.owes_setRun, World.owes_congr hw.calls hw.runs b] at he
      split at he
      · exact .inl ⟨.task r, by rwa [Proc.owes_task hr, ← htask]⟩
      · exact .inl ⟨b, he⟩
  | @readerEmit _ r run run' line hr _ htask =>
      rw [World.owes_setRun] at he
      split at he
      · exact .inl ⟨.task r, by rwa [Proc.owes_task hr, ← htask]⟩
      · exact .inl ⟨b, he⟩
  | @caller k c c' w₁ hc hstep =>
      rw [World.owes_setCall] at he
      split at he
      · rcases owes_stepCall hstep he hnews with hold | hrow
        · exact .inl ⟨.caller k, by rwa [Proc.owes_caller hc]⟩
        · exact .inr hrow
      · exact .inl ⟨b, by rwa [stepCall_owes (hs.fresh _ (Nat.le_refl _)) hstep b] at he⟩
  | @task r run answer _ hr hstep =>
      cases Proc.stepTask_cases hstep with
      | @quiet w₁ run' hw _ howes =>
          rw [World.owes_setRun, World.owes_congr hw.calls hw.runs b] at he
          split at he
          · exact .inl ⟨.task r, by rwa [Proc.owes_task hr, ← howes]⟩
          · exact .inl ⟨b, he⟩
      | @emit event next ht =>
          rw [World.owes_setRun] at he
          split at he
          · refine .inl ⟨.task r, ?_⟩
            rw [Proc.owes_task hr, ht, Proc.Task.owes, Proc.owed]
            split
            · exact List.mem_cons_of_mem _ he
            · exact he
          · exact .inl ⟨b, he⟩
      | @write state detail next ht =>
          rw [World.owes_setRun] at he
          split at he
          · have hunended : run.task.ended = false := Proc.Task.unended_of_decided
              (Proc.decided_of_writesNext ht)
            obtain ⟨e₀, he₀, -, -⟩ := World.current_eq_some.mp (hs.unended r run hr hunended)
            have hnone : next.owes = [] := by
              generalize run.task = t at ht
              cases ht <;> rfl
            simp only [Proc.Task.owes, Proc.owed, Proc.Event.isState, if_true, hnone,
              List.mem_singleton] at he
            subst he
            simp only [news, Option.ite_none_right_eq_some, Option.some.injEq] at hnews
            obtain ⟨⟨rfl, -⟩, rfl⟩ := hnews
            have hset : (w.setState run.id state).rows =
                (Proc.Event.stateChanged run.id state detail).apply w.rows := Proc.rows_setState
            refine .inr ?_
            show (w.setState run.id state).rows run.id = some state
            rw [hset, Proc.Event.apply, Function.update_self, World.rows, he₀]
            rfl
          · exact .inl ⟨b, he⟩

end News

/-! ### Rows and their services -/

/-- The row that `status` finds is the service's own. -/
theorem rows_of_status {a : App} {id : ServiceId} {row : Proc.ServiceStatus} (hf : a.sup.Filed)
    (h : a.status id = some row) : a.sup.rows id = some row.state := by
  have hmem := List.mem_of_find?_eq_some h
  have hid : row.id = id := by simpa using List.find?_some h
  obtain ⟨i, -, hrow⟩ := List.mem_filterMap.mp hmem
  obtain ⟨e, he, rfl⟩ := Option.map_eq_some_iff.mp hrow
  have hspec : a.sup.specs i = some e.spec := by rw [World.specs, he, Option.map_some]
  have hi : i = id := (hf i e.spec hspec).symm.trans hid
  subst hi
  rw [World.rows, he]
  rfl

/-! ### Waiting for a start -/

/-- All news that is still to be read is of the rows since the start. -/
def Current (w : World) (since : List Rows) (id : ServiceId) (rx : Nat) : Prop :=
  ∀ e row, Unread w rx e → news id e = some row → ∃ rows ∈ since, rows id = row

/-- What holds of a handler that has called a start, or waits for it. -/
def Waiting (w : World) (since : Option (List Rows)) : Handler → Prop
  | .kicking v rx _ k => v.target = .running → (∃ c, w.calls k = some c) ∧
      (w.calls k = some (.start v.id) ∨ ∃ rows, since = some rows ∧ Current w rows v.id rx)
  | .await v rx | .reread v rx =>
      v.target = .running → ∃ rows, since = some rows ∧ Current w rows v.id rx
  | _ => True

section Waiting

variable {a a' : App} {w w' : World} {since : Option (List Rows)} {rows : List Rows}
  {id : ServiceId} {rx rx' : Nat} {x x' : Handler} {v : Verb} {act : Proc.Action}

theorem Current.later (h : Current w rows id rx) (hle : rx ≤ rx') : Current w rows id rx' := by
  rintro e row (he | howed) hnews
  · exact h e row (.inl ((List.drop_subset_drop_left _ hle) he)) hnews
  · exact h e row (.inr howed) hnews

theorem isState_of_news {e : Proc.Event} {row : Option ServiceState} (h : news id e = some row) :
    e.isState = true := by
  cases e with
  | log => cases h
  | _ => rfl

/-- **News stays current** across the steps of the supervisor. -/
theorem current_next (hs : Proc.Sound w) (hc : Current w rows id rx) (h : w.next act = some w')
    (hnotnew : App.isCall act = false) : Current w' (rows ++ [w'.rows]) id rx := by
  have hold : ∀ e row, Unread w rx e → news id e = some row →
      ∃ rs ∈ rows ++ [w'.rows], rs id = row := by
    intro e row he hnews
    obtain ⟨rs, hrs, hrow⟩ := hc e row he hnews
    exact ⟨rs, List.mem_append_left _ hrs, hrow⟩
  rintro e row (he | ⟨b, he⟩) hnews
  · obtain ⟨l, hl, howed⟩ := Proc.events_next h
    rw [hl, List.drop_append] at he
    rcases List.mem_append.mp he with he | he
    · exact hold e row (.inl he) hnews
    · exact hold e row (.inr (howed e (List.mem_of_mem_drop he) (isState_of_news hnews))) hnews
  · rcases owes_next hs h hnotnew he hnews with howed | hrow
    · exact hold e row (.inr howed) hnews
    · exact ⟨w'.rows, by simp, hrow⟩

theorem current_mono (hc : Current w rows id rx) (l : List Rows) : Current w (rows ++ l) id rx := by
  intro e row he hnews
  obtain ⟨rs, hrs, hrow⟩ := hc e row he hnews
  exact ⟨rs, List.mem_append_left _ hrs, hrow⟩

/-- What a new call on the supervisor changes. -/
theorem current_ofCall {c : Call} (hc : Current w rows id rx)
    (howes : c.owes = []) (h : w.next (.call c) = some w') : Current w' rows id rx := by
  simp only [World.next, Option.ite_none_right_eq_some, Option.some.injEq] at h
  obtain ⟨-, rfl⟩ := h
  rintro e row (he | ⟨b, he⟩) hnews
  · exact hc e row (.inl he) hnews
  · rw [World.owes_setCall] at he
    split at he
    · simp [howes] at he
    · exact hc e row (.inr ⟨b, he⟩) hnews

theorem calls_ofCall {c : Call} {k : CallId} (hcalls : Proc.CallsFresh w) {c₀ : Call}
    (hk : w.calls k = some c₀) (h : w.next (.call c) = some w') : w'.calls k = some c₀ := by
  simp only [World.next, Option.ite_none_right_eq_some, Option.some.injEq] at h
  obtain ⟨-, rfl⟩ := h
  have hne : k ≠ w.nextCall := by
    rintro rfl
    rw [hcalls _ (Nat.le_refl _)] at hk
    cases hk
  exact (Function.update_of_ne hne _ _).trans hk

/-- A handler goes on waiting across a call that another makes. -/
theorem waiting_asks {ahead : Option ServiceId} (hcalls : Proc.CallsFresh w)
    (h : Asks w ahead w') (hx : Waiting w since x) (l : List Rows) :
    Waiting w' (since.map fun rows => rows ++ l) x := by
  have hcurrent : ∀ {rows id rx}, Current w rows id rx → Current w' (rows ++ l) id rx := by
    intro rows id rx hc
    cases h with
    | nothing => exact current_mono hc l
    | stop i h => exact current_mono (current_ofCall hc rfl h) l
    | start i _ h => exact current_mono (current_ofCall hc rfl h) l
  have hcall : ∀ {k c}, w.calls k = some c → w'.calls k = some c := by
    intro k c hk
    cases h with
    | nothing => exact hk
    | stop i h => exact calls_ofCall hcalls hk h
    | start i _ h => exact calls_ofCall hcalls hk h
  have hsince : ∀ {id rx}, (∃ rows, since = some rows ∧ Current w rows id rx) →
      ∃ rows, (since.map fun rows => rows ++ l) = some rows ∧ Current w' rows id rx := by
    rintro id rx ⟨rows, rfl, hc⟩
    exact ⟨rows ++ l, rfl, hcurrent hc⟩
  cases x with
  | kicking v rx before k =>
      intro ht
      obtain ⟨⟨c, hc⟩, hx⟩ := hx ht
      exact ⟨⟨c, hcall hc⟩, hx.imp hcall hsince⟩
  | await v rx | reread v rx => exact fun ht => hsince (hx ht)
  | _ => trivial

/-- A call is taken further by its own caller only. -/
theorem calls_next {k : CallId} {c : Call} (h : w.next act = some w')
    (hnotnew : App.isCall act = false) (hk : w.calls k = some c) :
    act ≠ .caller k ∧ w'.calls k = some c ∨ act = .caller k ∧ ∃ c', w'.calls k = some c' := by
  have hsame : act ≠ .caller k → w'.calls k = w.calls k →
      act ≠ .caller k ∧ w'.calls k = some c ∨ act = .caller k ∧ ∃ c', w'.calls k = some c' :=
    fun hne heq => .inl ⟨hne, heq.trans hk⟩
  have hother : (∀ j, act ≠ .caller j) → w'.calls = w.calls →
      act ≠ .caller k ∧ w'.calls k = some c ∨ act = .caller k ∧ ∃ c', w'.calls k = some c' :=
    fun hne heq => hsame (hne k) (congrFun heq k)
  cases act with
  | call => cases hnotnew
  | caller j =>
      obtain ⟨c₁, hc₁, h⟩ := Option.bind_eq_some_iff.mp h
      obtain ⟨⟨w₁, c'⟩, hstep, h⟩ := Option.bind_eq_some_iff.mp h
      cases h
      by_cases hj : k = j
      · subst hj
        exact .inr ⟨rfl, c', Function.update_self k _ _⟩
      · refine hsame (fun heq => hj (by cases heq; rfl)) ?_
        exact (Function.update_of_ne hj _ _).trans (congrFun (Proc.stepCall_calls hstep).1 k)
  | task r answer =>
      obtain ⟨run, hr, h⟩ := Option.bind_eq_some_iff.mp h
      exact hother (by simp) (Proc.stepTask_calls h).1
  | exit r _ | read r _ _ | eof r _ =>
      obtain ⟨run, hr, h⟩ := Option.bind_eq_some_iff.mp h
      simp only [Option.ite_none_right_eq_some, Option.some.injEq] at h
      obtain ⟨-, rfl⟩ := h
      exact hother (by simp) rfl
  | readerEmit r source =>
      obtain ⟨run, hr, h⟩ := Option.bind_eq_some_iff.mp h
      split at h
      · cases h
        exact hother (by simp) rfl
      · cases h
  | tick =>
      cases h
      exact hother (by simp) rfl

/-- A handler goes on waiting across a step of the supervisor at which its start does
not take effect. -/
theorem waiting_next (hs : Proc.Sound w) (h : w.next act = some w')
    (hnotnew : App.isCall act = false) (hx : Waiting w since x)
    (hlater : ∀ v rx before k, x = .kicking v rx before k → act = .caller k →
      w.calls k ≠ some (.start v.id)) :
    Waiting w' (since.map fun rows => rows ++ [w'.rows]) x := by
  have hsince : ∀ {id rx}, (∃ rows, since = some rows ∧ Current w rows id rx) →
      ∃ rows, (since.map fun rows => rows ++ [w'.rows]) = some rows ∧ Current w' rows id rx := by
    rintro id rx ⟨rows, rfl, hc⟩
    exact ⟨rows ++ [w'.rows], rfl, current_next hs hc h hnotnew⟩
  cases x with
  | kicking v rx before k =>
      intro ht
      obtain ⟨⟨c, hc⟩, hx⟩ := hx ht
      rcases calls_next h hnotnew hc with ⟨-, hsame⟩ | ⟨hact, c', hc'⟩
      · refine ⟨⟨c, hsame⟩, hx.imp (fun hstart => ?_) hsince⟩
        rw [hsame, ← hc, hstart]
      · refine ⟨⟨c', hc'⟩, .inr (hsince (hx.resolve_left ?_))⟩
        exact hlater v rx before k rfl hact
  | await v rx | reread v rx => exact fun ht => hsince (hx ht)
  | _ => trivial

/-- **The start takes effect**: with nothing older left to read, what comes is of the
rows from now on. -/
theorem waiting_start {k : CallId} {before : Proc.ServiceStatus} (hs : Proc.Sound w)
    (h : w.next (.caller k) = some w') (hk : w.calls k = some (.start v.id))
    (htimely : ∀ e row, Unread w rx e → news v.id e = some row →
      row = some .running ∧ w.rows v.id = some .running) :
    Waiting w' (some [w'.rows]) (.kicking v rx before k) := by
  intro ht
  have hw' : w' = (w.start v.id).1.setCall k (w.start v.id).2 := by
    simpa [World.next, hk, World.stepCall] using h.symm
  have hcall : w'.calls k = some (w.start v.id).2 := by
    rw [hw']
    exact Function.update_self k _ _
  refine ⟨⟨_, hcall⟩, .inr ⟨_, rfl, ?_⟩⟩
  have hold : ∀ e row, Unread w rx e → news v.id e = some row → w'.rows v.id = row := by
    intro e row he hnews
    obtain ⟨rfl, hrunning⟩ := htimely e row he hnews
    obtain ⟨e₀, he₀, hstate⟩ := Option.map_eq_some_iff.mp hrunning
    have hnothing : (w.start v.id).1 = w := by
      simp [World.start, he₀, hstate, ServiceState.live]
    rw [hw', hnothing]
    exact hrunning
  rintro e row (he | ⟨b, he⟩) hnews
  · obtain ⟨l, hl, howed⟩ := Proc.events_next h
    rw [hl, List.drop_append] at he
    refine ⟨w'.rows, by simp, ?_⟩
    rcases List.mem_append.mp he with he | he
    · exact hold e row (.inl he) hnews
    · exact hold e row (.inr (howed e (List.mem_of_mem_drop he) (isState_of_news hnews))) hnews
  · refine ⟨w'.rows, by simp, ?_⟩
    rcases owes_next hs h rfl he hnews with howed | hrow
    · exact hold e row (.inr howed) hnews
    · exact hrow

theorem waiting_finish (outcome : Outcome) : Waiting w since (.finish v outcome) := by
  unfold Handler.finish
  split <;> trivial

/-- Each way on from a wait is made of what the handler has read. -/
theorem waiting_resolve {state : ServiceState} (hx : Waiting w since (.await v rx)) :
    Waiting w since (.resolve v rx state) := by
  unfold Handler.resolve
  split
  · exact hx
  · trivial
  · split <;> trivial
  · exact waiting_finish _

theorem waiting_onEvent {e : Proc.Event} (hx : Waiting w since (.await v rx)) :
    Waiting w since (App.onEvent v rx e) := by
  cases e with
  | stateChanged changed state detail =>
      simp only [App.onEvent]
      split
      · exact waiting_resolve hx
      · exact hx
  | registered | log => exact hx
  | unregistered gone =>
      simp only [App.onEvent]
      split
      · exact waiting_finish _
      · exact hx

theorem waiting_later (hx : Waiting w since (.await v rx)) (hle : rx ≤ rx') :
    Waiting w since (.await v rx') := by
  intro ht
  obtain ⟨rows, hrows, hc⟩ := hx ht
  exact ⟨rows, hrows, hc.later hle⟩

theorem waiting_mono (hx : Waiting w since x) (l : List Rows) :
    Waiting w (since.map fun rows => rows ++ l) x := by
  have hsince : ∀ {id rx}, (∃ rows, since = some rows ∧ Current w rows id rx) →
      ∃ rows, (since.map fun rows => rows ++ l) = some rows ∧ Current w rows id rx := by
    rintro id rx ⟨rows, rfl, hc⟩
    exact ⟨rows ++ l, rfl, current_mono hc l⟩
  cases x with
  | kicking v rx before k => exact fun ht => ⟨(hx ht).1, (hx ht).2.imp_right hsince⟩
  | await v rx | reread v rx => exact fun ht => hsince (hx ht)
  | _ => trivial

theorem recv_event {events : List Proc.Event} {e : Proc.Event}
    (h : recv events rx = .event e rx') : rx ≤ rx' ∧ e ∈ events.drop rx := by
  unfold recv at h
  split at h
  · cases h
  · split at h
    · next he =>
        cases h
        refine ⟨Nat.le_succ rx, List.mem_iff_getElem?.mpr ⟨0, ?_⟩⟩
        rw [List.getElem?_drop, Nat.add_zero, he]
    · cases h

theorem recv_lagged {events : List Proc.Event} (h : recv events rx = .lagged rx') : rx ≤ rx' := by
  generalize hcap : broadcastCapacity = capacity at h
  unfold recv at h
  rw [hcap] at h
  split at h
  · next hlag =>
      cases h
      exact Nat.le_sub_of_add_le hlag.le
  · split at h <;> cases h

/-- A handler that goes on from what it has read goes on waiting. -/
theorem waiting_handlerStep {answer : Answer} (h : a.handlerStep answer x = some (a', x'))
    (hx : Waiting a.sup since x) (l : List Rows) :
    Waiting a'.sup (since.map fun rows => rows ++ l) x' := by
  cases x with
  | connected | done => cases h
  | execute req =>
      cases h
      refine waiting_mono ?_ l
      split
      · trivial
      · cases req <;> trivial
  | services id =>
      cases id <;> cases h <;> trivial
  | transition v =>
      cases h
      trivial
  | before v rx =>
      cases h
      refine waiting_mono ?_ l
      split
      · trivial
      · split
        · exact waiting_finish _
        · trivial
  | kick v rx before =>
      obtain ⟨⟨a₁, k⟩, hc, h⟩ := Option.map_eq_some_iff.mp h
      cases h
      intro ht
      obtain ⟨w, hw, hcall⟩ := Option.map_eq_some_iff.mp hc
      cases hcall
      rw [ht] at hw
      have hmade : w.calls a.sup.nextCall = some (.start v.id) := by
        simp only [World.next, Option.ite_none_right_eq_some, Option.some.injEq] at hw
        rw [← hw.2]
        exact Function.update_self _ _ _
      exact ⟨⟨_, hmade⟩, .inl hmade⟩
  | kicking v rx before k =>
      obtain ⟨result, hres, h⟩ := Option.map_eq_some_iff.mp h
      cases h
      refine waiting_mono ?_ l
      cases result with
      | error e =>
          cases e with
          | notFound => trivial
          | notTerminal => exact waiting_finish _
      | ok u =>
          cases hw : v.wait with
          | false => trivial
          | true =>
              intro ht
              refine (hx ht).2.resolve_left fun hstart => ?_
              simp [App.result, hstart] at hres
  | answerNow v before | observed v state | failed v exit stderrTail | timedOut v | unknown v =>
      cases h
      exact waiting_mono (waiting_finish _) l
  | await v rx =>
      simp only [App.handlerStep] at h
      split at h
      · cases h
        trivial
      · split at h
        · next event rx' hrecv =>
            cases h
            exact waiting_mono (waiting_onEvent (waiting_later hx (recv_event hrecv).1)) l
        · next rx' hrecv =>
            cases h
            exact waiting_mono (waiting_later hx (recv_lagged hrecv)) l
        · cases h
  | reread v rx =>
      cases h
      refine waiting_mono ?_ l
      split
      · exact waiting_resolve hx
      · exact hx
  | admitBulk =>
      simp only [App.handlerStep] at h
      split at h <;> cases h <;> trivial
  | stoppingAll loop =>
      cases loop with
      | returned stragglers =>
          cases h
          trivial
      | _ =>
          rw [handlerStep_stoppingAll (by simp)] at h
          obtain ⟨⟨a₁, loop'⟩, hl, h⟩ := Option.map_eq_some_iff.mp h
          cases h
          trivial

end Waiting

/-- What is known of every handler that waits. -/
structure Watched.Sound (s : Watched) : Prop where
  rows : ∀ h since, s.since h = some since → s.app.sup.rows ∈ since
  waiting : ∀ h x, s.app.handlers h = some x → Waiting s.app.sup (s.since h) x

section Runs

variable {s s' : Watched} {action : Action} {v : Verb} {h : Nat}

/-- A start that takes effect is one that a handler has called and not seen return. -/
theorem startsNow_eq_true {a : App} (hnow : a.startsNow h action = true) :
    ∃ v rx before k, a.handlers h = some (.kicking v rx before k) ∧
      action = .supervisor (.caller k) ∧ a.sup.calls k = some (.start v.id) := by
  unfold App.startsNow at hnow
  split at hnow
  · split at hnow
    · next k v rx before k' hx =>
        rw [Bool.and_eq_true, beq_iff_eq] at hnow
        obtain ⟨rfl, hnow⟩ := hnow
        obtain ⟨c, hc, hstart⟩ := (Option.any_eq_true _ _).mp hnow
        split at hstart
        · obtain rfl := beq_iff_eq.mp hstart
          exact ⟨v, rx, before, k', hx, rfl, hc⟩
        · cases hstart
    · cases hnow
  · cases hnow

theorem startsNow_kicking {a : App} {rx : Nat} {before : Proc.ServiceStatus} {k : CallId}
    (hx : a.handlers h = some (.kicking v rx before k)) (hc : a.sup.calls k = some (.start v.id)) :
    a.startsNow h (.supervisor (.caller k)) = true := by
  simp [App.startsNow, hx, hc]

theorem waiting_appNext {a a' : App} {since : Nat → Option (List Rows)} (hserving : Serving a)
    (hs : ∀ h x, a.handlers h = some x → Waiting a.sup (since h) x)
    (htimely : Timely ⟨a, since⟩ action) (hn : a.next action = some a') {x : Handler}
    (hx : a'.handlers h = some x) :
    Waiting a'.sup (if a.startsNow h action then some [a'.sup.rows]
      else (since h).map fun rows => rows ++ [a'.sup.rows]) x := by
  have hsound : Proc.Sound a.sup := Proc.sound_of_reachable hserving.supervisor
  have hcalls : Proc.CallsFresh a.sup := Proc.callsFresh_of_reachable hserving.supervisor
  -- a handler that is set anew, and the others as they were
  have hset : ∀ (a₁ : App) (h₀ : Nat) (x₀ : Handler), a₁.handlers = a.handlers →
      (a₁.setHandler h₀ x₀).handlers h = some x → h = h₀ ∧ x = x₀ ∨ a.handlers h = some x := by
    intro a₁ h₀ x₀ heq hx
    by_cases hh : h = h₀
    · subst hh
      exact .inl ⟨rfl, (Option.some.inj ((Function.update_self h _ _).symm.trans hx)).symm⟩
    · exact .inr (heq ▸ (Function.update_of_ne hh _ _).symm.trans hx)
  cases action with
  | supervisor act =>
      simp only [App.next] at hn
      split at hn
      · cases hn
      · next hnotnew =>
          obtain ⟨w, hw, rfl⟩ := Option.map_eq_some_iff.mp hn
          split
          · next hnow =>
              obtain ⟨v, rx, before, k, hx₀, hact, hc⟩ := startsNow_eq_true hnow
              obtain rfl : x = .kicking v rx before k := Option.some.inj (hx.symm.trans hx₀)
              cases hact
              exact waiting_start hsound hw hc (htimely h v rx before k hx₀ hnow)
          · next hnot =>
              refine waiting_next hsound hw (by simpa using hnotnew) (hs h x hx) ?_
              rintro v rx before k rfl rfl hc
              exact hnot (startsNow_kicking hx hc)
  | connect =>
      simp only [App.next] at hn
      split at hn
      · cases hn
        rcases hset _ _ _ rfl hx with ⟨rfl, rfl⟩ | hx₀
        · trivial
        · exact waiting_mono (hs h x hx₀) _
      · cases hn
  | request h₀ req =>
      simp only [App.next] at hn
      split at hn
      · cases hn
        rcases hset _ _ _ rfl hx with ⟨rfl, rfl⟩ | hx₀
        · trivial
        · exact waiting_mono (hs h x hx₀) _
      · cases hn
  | handler h₀ answer =>
      obtain ⟨x₀, hx₀, hn⟩ := Option.bind_eq_some_iff.mp hn
      obtain ⟨⟨a₁, x₁⟩, hstep, hn⟩ := Option.bind_eq_some_iff.mp hn
      cases hn
      obtain ⟨hasks, hb, -⟩ := handlerStep_cases hstep
      rcases hset _ _ _ hb.handlers hx with ⟨rfl, rfl⟩ | hx'
      · exact waiting_handlerStep hstep (hs h x₀ hx₀) _
      · exact waiting_asks hcalls hasks (hs h x hx') _
  | quit answer =>
      obtain ⟨hasks, hhandlers, -⟩ := quitStep_cases hn
      rw [hhandlers] at hx
      exact waiting_asks hcalls hasks (hs h x hx) _

theorem watchedSound_next (hserving : Serving s.app) (hs : s.Sound) (htimely : Timely s action)
    (hn : s.next action = some s') : s'.Sound := by
  obtain ⟨a', happ, rfl⟩ := Option.map_eq_some_iff.mp hn
  constructor
  · intro h since hh
    simp only at hh
    split at hh
    · cases hh
      simp
    · obtain ⟨rows, -, rfl⟩ := Option.map_eq_some_iff.mp hh
      simp
  · exact fun h x hx => waiting_appNext hserving hs.waiting htimely happ hx

theorem watchedSound_of_reaches (hr : watched.Reaches Timely s) : s.Sound := by
  have hserving : ∀ s, watched.Reaches Timely s → Serving s.app := fun _ hr =>
    serving_of_reaches (reachable_of_watched hr)
  refine Lts.System.Reaches.invariant_beside (I := Watched.Sound) hserving ?_ ?_ hr
  · rintro s ⟨hinit, hsince⟩
    constructor
    · intro h since hh
      rw [hsince h] at hh
      cases hh
    · intro h x hx
      rw [hinit.handlers h] at hx
      cases hx
  · exact fun s action s' hserving hs ht hn => watchedSound_next hserving hs ht hn

/-- An event leaves a wait as it is, or answers it with its news. -/
theorem answeredBy_of_event {e : Proc.Event} {rx : Nat}
    {rows : Option (List Rows)} {since : List Rows} (ht : v.target = .running) (hsince : rows = some since)
    (hnews : ∀ row, news v.id e = some row → ∃ rs ∈ since, rs v.id = row) :
    (App.onEvent v rx e).waits = some v ∨ App.onEvent v rx e = .timedOut v ∨
      ∃ since rs, rows = some since ∧ rs ∈ since ∧ (App.onEvent v rx e).AnsweredBy v (rs v.id) := by
  cases e with
  | registered | log => exact .inl rfl
  | unregistered gone =>
      simp only [App.onEvent]
      split
      · next hgone =>
          obtain ⟨rs, hrs, hrow⟩ := hnews none (by simp [news, hgone])
          exact .inr (.inr ⟨since, rs, hsince, hrs, .removed hrow⟩)
      · exact .inl rfl
  | stateChanged changed state detail =>
      simp only [App.onEvent]
      split
      · next hchanged =>
          by_cases hpending : step .running state = .pending
          · have hresolve : Handler.resolve v rx state = .await v rx := by
              unfold Handler.resolve
              rw [ht, hpending]
            rw [hresolve]
            exact .inl rfl
          · obtain ⟨rs, hrs, hrow⟩ := hnews (some state) (by simp [news, hchanged, hpending])
            exact .inr (.inr ⟨since, rs, hsince, hrs, .state rx hrow⟩)
      · exact .inl rfl

/-- **A waited start reports its own run**: a handler that waits for a start goes on
waiting, or its deadline has passed, or it is answered by what the service's row has been
at some moment since the start took effect. -/
theorem waited_start_is_own {x x' : Handler} {a' : App} {answer : Answer}
    (hr : watched.Reaches Timely s) (hx : s.app.handlers h = some x) (hwaits : x.waits = some v)
    (ht : v.target = .running) (hn : s.app.handlerStep answer x = some (a', x')) :
    x'.waits = some v ∨ x' = .timedOut v ∨
      ∃ since rows, s.since h = some since ∧ rows ∈ since ∧ x'.AnsweredBy v (rows v.id) := by
  have hs := watchedSound_of_reaches hr
  have hserving := serving_of_reaches (reachable_of_watched hr)
  have hwaiting := hs.waiting h x hx
  cases x with
  | await v' rx =>
      cases hwaits
      obtain ⟨since, hsince, hcurrent⟩ := hwaiting ht
      simp only [App.handlerStep] at hn
      split at hn
      · cases hn
        exact .inr (.inl rfl)
      · split at hn
        · next event rx' hrecv =>
            cases hn
            have hunread : Unread s.app.sup rx event := .inl (recv_event hrecv).2
            exact answeredBy_of_event ht hsince fun row hnews => hcurrent event row hunread hnews
        · cases hn
          exact .inl rfl
        · cases hn
  | reread v' rx =>
      cases hwaits
      obtain ⟨since, hsince, -⟩ := hwaiting ht
      cases hn
      split
      · next row hrow =>
          refine .inr (.inr ⟨since, _, hsince, hs.rows h since hsince, ?_⟩)
          exact .state rx (rows_of_status (Proc.filed_of_reachable hserving.supervisor) hrow)
      · exact .inl rfl
  | _ => cases hwaits

end Runs

section Samples

open Proc (upToRunning upToLastWrite)

/-- The app over a supervisor with one service, which is stopped. -/
def Watched.served : Watched := ⟨Desktop.served, fun _ => none⟩

theorem initial_watched : watched.init Watched.served := ⟨initial_served, fun _ => rfl⟩

/-- No call of a start is taken its first step. -/
def startless (s : Watched) : Action → Bool
  | .supervisor (.caller k) => (s.app.sup.calls k).all fun c => match c with
      | .start _ => false
      | _ => true
  | _ => true

theorem timely_of_startless {s : Watched} {action : Action} (h : startless s action = true) :
    Timely s action := by
  intro k v rx before j _ hnow
  obtain ⟨v', rx', before', k', hx, rfl, hc⟩ := startsNow_eq_true hnow
  simp [startless, hc] at h

/-- A connection asks for a waited start and calls it. -/
def upToStart (h : Nat) : List Action := [.connect, .request h (.start "web" true)] ++ handlerSteps h 4

/-- The app where a first request has called its start. -/
def aboutToStart : Watched :=
  ((watched.exec Watched.served (upToStart 0)).getD Watched.served)

theorem reaches_aboutToStart : watched.Reaches Timely aboutToStart :=
  Lts.System.Leads.reaches (.init initial_watched) (Lts.System.leads_of_execWhile
    (fun _ _ => timely_of_startless)
    (show watched.execWhile startless Watched.served (upToStart 0) = some aboutToStart from rfl))

/-- Nothing was broadcast since the request subscribed, and nothing is owed. -/
theorem timely_aboutToStart (action : Action) : Timely aboutToStart action := by
  rintro h v rx before k hx - e row (he | ⟨b, he⟩) hnews
  · have hregistered : e ∈ booted.events := List.mem_of_mem_drop he
    obtain rfl := List.mem_singleton.mp hregistered
    cases hnews
  · cases b with
    | task r => cases he
    | caller k =>
        match k with
        | 0 | 1 | _ + 2 => cases he

/-- The service comes up, and the request is told so. -/
theorem waited_start_is_own_web :
    ∃ (s : Watched) (x' : Handler) (since : List Rows) (rows : Rows), s.since 0 = some since ∧
      rows ∈ since ∧ x'.AnsweredBy ⟨.whole, .running, "web", true⟩ (rows "web") := by
  obtain ⟨s₁, hn, hrest⟩ : ∃ s₁, watched.next aboutToStart (.supervisor (.caller 1)) = some s₁ ∧
      ((watched.execWhile startless s₁ (callerSteps 1 4 ++ (upToRunning 0 7).map .supervisor ++
        handlerSteps 0 5)).any fun s => (s.app.handlers 0).any fun x =>
          decide (x.waits = some ⟨.whole, .running, "web", true⟩) &&
            (s.app.handlerStep .go x).any fun p => decide (p.2.waits = none) &&
              decide (p.2 ≠ .timedOut ⟨.whole, .running, "web", true⟩)) = true :=
    ⟨_, rfl, by decide +kernel⟩
  obtain ⟨s, hexec, hs⟩ := (Option.any_eq_true _ _).mp hrest
  simp only [Bool.and_eq_true, decide_eq_true_eq, Option.any_eq_true] at hs
  obtain ⟨x, hx, hwaits, ⟨a', x'⟩, hstep, hnowait, hnotimeout⟩ := hs
  have hr : watched.Reaches Timely s := Lts.System.Leads.reaches
    (.step reaches_aboutToStart (timely_aboutToStart (.supervisor (.caller 1))) hn)
    (Lts.System.leads_of_execWhile (fun _ _ => timely_of_startless) hexec)
  rcases waited_start_is_own hr hx hwaits rfl hstep with hw | ht | ⟨since, rows, h⟩
  · rw [hw] at hnowait
    cases hnowait
  · exact absurd ht hnotimeout
  · exact ⟨s, x', since, rows, h⟩

/-- **An answer of the run before**: the service's first run is over, but its task has
not broadcast that yet when a second start is called. -/
theorem stale_answer :
    ∃ s : Watched, watched.Reachable s ∧
      s.app.handlers 1 = some (.done (.error .operationFailed
        (divertedMessage .running "web" .stopped))) ∧
      ∃ since, s.since 1 = some since ∧ ∀ rows ∈ since, rows "web" = some .starting := by
  obtain ⟨s, hs, hp⟩ := Lts.System.exists_of_exec (S := watched)
    (upToStart 0 ++ callerSteps 1 5 ++ (upToRunning 0 7).map .supervisor ++
      (upToLastWrite 0).map .supervisor ++ upToStart 1 ++ callerSteps 2 5 ++
      [.supervisor (.task 0 .go)] ++ handlerSteps 1 4)
    (fun s => decide (s.app.handlers 1 = some (.done (.error .operationFailed
        (divertedMessage .running "web" .stopped)))) &&
      (s.since 1).any fun since => since.all fun rows => decide (rows "web" = some .starting))
    (.init initial_watched) (by decide +kernel)
  simp only [Bool.and_eq_true, decide_eq_true_eq, Option.any_eq_true, List.all_eq_true] at hp
  exact ⟨s, hs, hp⟩

end Samples

end OpenVHost.Desktop
