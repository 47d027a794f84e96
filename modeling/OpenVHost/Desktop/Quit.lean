/-
# What quit leaves behind it

`execute` looks at the `Quitting` mark once, when a request begins. A request that
began before the mark makes its calls whenever it comes to them: a `restart` may
wait through the whole of `stop_all` and start its service afterwards.

* `Handler.startAhead`, `callAhead` — a request, or a call, that may still start
  a service.
* `Clear` — when `stop_all` may return.
* `quit_leaves_nothing_starting` — in the runs where it returns only then, no
  service task is created afterwards, and what it saw as stopped stays so.
* `restart_outlives_quit` — a run where it returns too soon.
-/

import OpenVHost.Desktop.Control
import OpenVHost.Proc.Events

namespace OpenVHost.Desktop

open Proc (ServiceId ServiceState ServiceStatus RunId CallId World Call Sound Quiet)

/-! ### Starts ahead -/

def registered (w : World) (id : ServiceId) : Bool := (w.entries id).isSome

/-- The task of run `r` has been created. -/
def Created (w : World) (r : RunId) : Prop := ∃ run, w.runs r = some run ∧ run.task ≠ .queued

/-- What is left of a call may still create a task. -/
def callAhead (w : World) : Call → Bool
  | .start id => registered w id
  | .spawn _ => true
  | .emit _ next | .log _ _ next => callAhead w next
  | _ => false

/-- After this half there is another one that starts the service. -/
def Verb.again (v : Verb) : Option ServiceId :=
  match v.half with
  | .restartStop _ => some v.id
  | .whole | .restartStart => none

/-- A start that a verb makes, in this half or in the next. -/
def Verb.startAhead (v : Verb) : Option ServiceId :=
  match v.target with
  | .running => some v.id
  | .stopped => v.again

/-- The service that an admitted request has still to call `start` for. -/
def Handler.startAhead : Handler → Option ServiceId
  | transition v | before v _ | kick v _ _ => v.startAhead
  | kicking v _ _ _ | answerNow v _ | await v _ | reread v _ | observed v _ => v.again
  | _ => none

/-- A registered service may still be started by a request that was admitted. -/
def App.StartAhead (a : App) : Prop :=
  (∃ k c, a.sup.calls k = some c ∧ callAhead a.sup c = true) ∨
    ∃ h x id, a.handlers h = some x ∧ x.startAhead = some id ∧ registered a.sup id = true

/-- `stop_all` returns to the quit only when no admitted request may still start a
service, and when nothing was started since it looked. -/
def Clear (a : App) : Action → Prop
  | .quit answer =>
      ∀ still, a.quit = .stopAll (.decide still) → (still = [] ∨ answer = .elapsed) →
        ¬ a.StartAhead ∧ ∀ id, a.sup.liveAt id = true → id ∈ still
  | _ => True

section Ahead

variable {v : Verb} {id : ServiceId}

theorem Verb.startAhead_of_again (h : v.again = some id) : v.startAhead = some id := by
  obtain ⟨half, target, id', wait⟩ := v
  cases target with
  | stopped => exact h
  | running =>
      cases half with
      | restartStop => exact h
      | whole | restartStart => cases h

theorem finish_refused (code : ErrorCode) (message : String) :
    (Handler.finish v (.refused code message)).startAhead = none := by
  obtain ⟨half, target, id', wait⟩ := v
  cases half <;> rfl

/-- Only the next half of a restart starts anything after an outcome. -/
theorem again_of_finish {outcome : Outcome} (h : (Handler.finish v outcome).startAhead = some id) :
    v.again = some id := by
  cases outcome with
  | refused code message =>
      rw [finish_refused] at h
      cases h
  | reached service disposition =>
      obtain ⟨half, target, id', wait⟩ := v
      cases half with
      | restartStop => exact h
      | whole | restartStart => cases h

theorem again_of_resolve {rx : Nat} {state : ServiceState}
    (h : (Handler.resolve v rx state).startAhead = some id) : v.again = some id := by
  unfold Handler.resolve at h
  split at h
  · exact h
  · exact h
  · split at h <;> cases h
  · exact again_of_finish h

theorem again_of_onEvent {rx : Nat} {event : Proc.Event}
    (h : (App.onEvent v rx event).startAhead = some id) : v.again = some id := by
  cases event with
  | stateChanged changed state detail =>
      simp only [App.onEvent] at h
      split at h
      · exact again_of_resolve h
      · exact h
  | registered status | log id line => exact h
  | unregistered gone =>
      simp only [App.onEvent] at h
      split at h
      · exact again_of_finish h
      · exact h

end Ahead

/-! ### The step of a handler -/

/-- A call that a step of the app makes on the supervisor. -/
inductive Asks (w : World) (ahead : Option ServiceId) : World → Prop where
  | nothing : Asks w ahead w
  | stop (id : ServiceId) {w' : World} (h : w.next (.call (.stop id)) = some w') : Asks w ahead w'
  | start (id : ServiceId) {w' : World} (hid : ahead = some id)
      (h : w.next (.call (.start id)) = some w') : Asks w ahead w'

/-- What a step leaves of the app beside its handler. -/
structure Beside (a a' : App) : Prop where
  handlers : a'.handlers = a.handlers
  quitting : a'.quitting = a.quitting
  quit : a'.quit = a.quit

theorem Beside.refl (a : App) : Beside a a := ⟨rfl, rfl, rfl⟩

section Handler

variable {a a' : App} {answer : Answer}

theorem call_eq_some {c : Call} {k : CallId} (h : a.call c = some (a', k)) :
    a.sup.next (.call c) = some a'.sup ∧ Beside a a' := by
  unfold App.call at h
  cases hn : a.sup.next (.call c) with
  | none => simp [hn] at h
  | some w =>
      simp only [hn, Option.map_some, Option.some.injEq, Prod.mk.injEq] at h
      obtain ⟨rfl, -⟩ := h
      exact ⟨rfl, rfl, rfl, rfl⟩

/-- `stop_all` only asks for stops. -/
theorem stopAllStep_asks {loop loop' : StopAll}
    (h : a.stopAllStep answer loop = some (a', loop')) (ahead : Option ServiceId) :
    Asks a.sup ahead a'.sup ∧ Beside a a' := by
  unfold App.stopAllStep at h
  split at h
  case h_5 id rest =>
    obtain ⟨⟨a₁, k⟩, hc, h⟩ := Option.map_eq_some_iff.mp h
    cases h
    obtain ⟨hn, hb⟩ := call_eq_some hc
    exact ⟨.stop id hn, hb⟩
  case h_6 k rest =>
    obtain ⟨result, -, h⟩ := Option.map_eq_some_iff.mp h
    cases h
    exact ⟨.nothing, .refl a⟩
  case h_8 => cases h
  all_goals
    cases h
    exact ⟨.nothing, .refl a⟩

theorem handlerStep_stoppingAll {loop : StopAll} (hloop : ∀ stragglers, loop ≠ .returned stragglers) :
    a.handlerStep answer (.stoppingAll loop) =
      (a.stopAllStep answer loop).map fun r => (r.1, .stoppingAll r.2) := by
  cases loop with
  | returned stragglers => exact absurd rfl (hloop stragglers)
  | _ => rfl

theorem quitStep_stopAll {loop : StopAll} (hloop : ∀ stragglers, loop ≠ .returned stragglers) :
    a.quitStep answer (.stopAll loop) =
      (a.stopAllStep answer loop).map fun r => { r.1 with quit := .stopAll r.2 } := by
  cases loop with
  | returned stragglers => exact absurd rfl (hloop stragglers)
  | _ => rfl

/-- **What a handler's step does**: it calls `start` only if it had a start ahead,
and it comes to have one only by being admitted. -/
theorem handlerStep_cases {x x' : Handler} (h : a.handlerStep answer x = some (a', x')) :
    Asks a.sup x.startAhead a'.sup ∧ Beside a a' ∧
      ∀ id, x'.startAhead = some id →
        x.startAhead = some id ∨ a.quitting ≠ some true := by
  cases x with
  | connected | done => cases h
  | execute req =>
      cases h
      refine ⟨.nothing, .refl a, fun id hid => .inr fun hq => ?_⟩
      cases req <;> simp [hq, mutates, Handler.startAhead] at hid
  | services id =>
      cases id with
      | none =>
          cases h
          exact ⟨.nothing, .refl a, fun id hid => by cases hid⟩
      | some id =>
          cases h
          exact ⟨.nothing, .refl a, fun id hid => by cases hid⟩
  | transition v =>
      cases h
      exact ⟨.nothing, .refl a, fun id hid => .inl hid⟩
  | before v rx =>
      cases h
      refine ⟨.nothing, .refl a, fun id hid => .inl ?_⟩
      split at hid
      · cases hid
      · split at hid
        · exact Verb.startAhead_of_again (again_of_finish hid)
        · exact hid
  | kick v rx before =>
      obtain ⟨⟨a₁, k⟩, hc, h⟩ := Option.map_eq_some_iff.mp h
      cases h
      obtain ⟨hn, hb⟩ := call_eq_some hc
      refine ⟨?_, hb, fun id hid => .inl (Verb.startAhead_of_again hid)⟩
      cases ht : v.target with
      | running =>
          rw [ht] at hn
          exact .start v.id (by simp [Handler.startAhead, Verb.startAhead, ht]) hn
      | stopped =>
          rw [ht] at hn
          exact .stop v.id hn
  | kicking v rx before k =>
      obtain ⟨result, -, h⟩ := Option.map_eq_some_iff.mp h
      cases h
      refine ⟨.nothing, .refl a, fun id hid => .inl ?_⟩
      cases result with
      | error e =>
          cases e with
          | notFound => cases hid
          | notTerminal => exact again_of_finish hid
      | ok u =>
          cases hw : v.wait with
          | false => simpa [hw, Handler.startAhead] using hid
          | true => simpa [hw, Handler.startAhead] using hid
  | answerNow v before | observed v state =>
      cases h
      exact ⟨.nothing, .refl a, fun id hid => .inl (again_of_finish hid)⟩
  | await v rx =>
      simp only [App.handlerStep] at h
      split at h
      · cases h
        exact ⟨.nothing, .refl a, fun id hid => by cases hid⟩
      · split at h
        · cases h
          exact ⟨.nothing, .refl a, fun id hid => .inl (again_of_onEvent hid)⟩
        · cases h
          exact ⟨.nothing, .refl a, fun id hid => .inl hid⟩
        · cases h
  | reread v rx =>
      cases h
      refine ⟨.nothing, .refl a, fun id hid => .inl ?_⟩
      split at hid
      · exact again_of_resolve hid
      · exact hid
  | failed v exit stderrTail | timedOut v | unknown v =>
      cases h
      refine ⟨.nothing, .refl a, fun id hid => ?_⟩
      rw [finish_refused] at hid
      cases hid
  | admitBulk =>
      simp only [App.handlerStep] at h
      split at h
      · cases h
        exact ⟨.nothing, .refl a, fun id hid => by cases hid⟩
      · cases h
        exact ⟨.nothing, ⟨rfl, rfl, rfl⟩, fun id hid => by cases hid⟩
  | stoppingAll loop =>
      cases loop with
      | returned stragglers =>
          cases h
          exact ⟨.nothing, ⟨rfl, rfl, rfl⟩, fun id hid => by cases hid⟩
      | _ =>
          rw [handlerStep_stoppingAll (by simp)] at h
          obtain ⟨⟨a₁, loop'⟩, hl, h⟩ := Option.map_eq_some_iff.mp h
          cases h
          obtain ⟨hasks, hb⟩ := stopAllStep_asks hl none
          exact ⟨hasks, hb, fun id hid => by cases hid⟩

end Handler

/-! ### The supervisor without a start ahead -/

/-- Nothing is started between two states of the supervisor. -/
structure Rests (w w' : World) : Prop where
  created : ∀ r, Created w' r → Created w r
  live : ∀ id, w'.liveAt id = true → w.liveAt id = true
  registered : ∀ id, registered w' id = registered w id

/-- A call of the app's own: it adds and removes no service. -/
def ofApp : Call → Bool
  | .register _ | .unregister _ => false
  | .emit _ next | .log _ _ next => ofApp next
  | _ => true

/-- Every call meets a condition. -/
def CallsMeet (p : Call → Prop) (w : World) : Prop := ∀ k c, w.calls k = some c → p c

/-- Every call was made by the app, and none may still create a task. -/
def CallsRest (w : World) : Prop :=
  CallsMeet (fun c => ofApp c = true ∧ callAhead w c = false) w

section Supervisor

variable {w w' w'' : World} {r : RunId} {id : ServiceId}

theorem Rests.refl (w : World) : Rests w w := ⟨fun _ h => h, fun _ h => h, fun _ => rfl⟩

theorem Rests.trans (h : Rests w w') (h' : Rests w' w'') : Rests w w'' :=
  ⟨fun r hr => h.created r (h'.created r hr), fun id hid => h.live id (h'.live id hid),
    fun id => (h'.registered id).trans (h.registered id)⟩

theorem live_eq_key (w : World) (id : ServiceId) :
    w.liveAt id = ((w.entries id).map Proc.Entry.key).any fun key => key.1.live := by
  unfold World.liveAt
  cases w.entries id <;> rfl

theorem registered_eq_key (w : World) (id : ServiceId) :
    registered w id = ((w.entries id).map Proc.Entry.key).isSome := by
  unfold registered
  cases w.entries id <;> rfl

theorem rests_of_same (hkey : ∀ id, (w'.entries id).map Proc.Entry.key =
    (w.entries id).map Proc.Entry.key) (hruns : w'.runs = w.runs) : Rests w w' := by
  constructor
  · intro r hr
    unfold Created at hr ⊢
    rwa [hruns] at hr
  · intro id hid
    rw [live_eq_key, ← hkey, ← live_eq_key]
    exact hid
  · intro id
    rw [registered_eq_key, hkey, ← registered_eq_key]

theorem rests_of_quiet (h : Quiet w w') : Rests w w' := rests_of_same h.key h.runs

/-- A run goes on that had been created. -/
theorem rests_setRun (run' : Proc.Run) (h : Created w r) : Rests w (w.setRun r run') := by
  constructor
  · rintro r' ⟨run'', hr', htask⟩
    by_cases heq : r' = r
    · rw [heq]
      exact h
    · exact ⟨run'', (Function.update_of_ne heq _ _).symm.trans hr', htask⟩
  · exact fun id hid => hid
  · exact fun id => rfl

/-- A run goes on with the task that it had. -/
theorem rests_setRun_same {run run' : Proc.Run} (hr : w.runs r = some run)
    (htask : run'.task = run.task) : Rests w (w.setRun r run') := by
  constructor
  · rintro r' ⟨run'', hr', hq⟩
    by_cases heq : r' = r
    · subst heq
      have heq := Option.some.inj ((Function.update_self r' _ _).symm.trans hr')
      exact ⟨run, hr, by rwa [← htask, heq]⟩
    · exact ⟨run'', (Function.update_of_ne heq _ _).symm.trans hr', hq⟩
  · exact fun id hid => hid
  · exact fun id => rfl

/-- A task writes the state of a service that is live already. -/
theorem rests_setState {state : ServiceState} (h : w.liveAt id = true) :
    Rests w (w.setState id state) := by
  constructor
  · exact fun r hr => hr
  · intro i hi
    by_cases heq : i = id
    · rw [heq]
      exact h
    · unfold World.liveAt at hi ⊢
      rwa [World.setState, World.entries_modify, if_neg heq] at hi
  · intro i
    unfold registered
    rw [World.setState, World.entries_modify]
    split
    next heq => rw [Option.isSome_map, heq]
    next => rfl

theorem live_of_current (h : w.current id = some r) : w.liveAt id = true := by
  obtain ⟨e, he, hlive, -⟩ := World.current_eq_some.mp h
  simp [World.liveAt, he, hlive]

/-- A task of a sound supervisor starts nothing. -/
theorem rests_stepTask (hs : Sound w) {run : Proc.Run} (hr : w.runs r = some run)
    {answer : Proc.Answer} (h : w.stepTask r run answer = some w') : Rests w w' := by
  have hcreated : Created w r := by
    refine ⟨run, hr, fun hq => ?_⟩
    unfold World.stepTask at h
    simp [hq] at h
  cases Proc.stepTask_cases h with
  | @quiet w₁ run' hw hk howes =>
      have hq := rests_of_quiet hw
      refine hq.trans (rests_setRun run' ?_)
      obtain ⟨run, hrun, htask⟩ := hcreated
      exact ⟨run, hw.runs ▸ hrun, htask⟩
  | @emit event next ht =>
      have hsend : Rests w (w.send event) := rests_of_same (fun _ => rfl) rfl
      exact hsend.trans (rests_setRun _ hcreated)
  | write ht =>
      have hend : run.task.ended = false := by
        generalize run.task = t at ht
        cases ht <;> rfl
      have hlive : w.liveAt run.id = true := live_of_current (hs.unended r run hr hend)
      exact (rests_setState hlive).trans (rests_setRun _ hcreated)

theorem callAhead_congr (h : ∀ id, registered w' id = registered w id) (c : Call) :
    callAhead w' c = callAhead w c := by
  induction c with
  | start id => exact h id
  | emit _ _ ih | log _ _ _ ih => exact ih
  | _ => rfl

/-- **A call without a start ahead starts nothing**, and comes to have none. -/
theorem stepCall_rests {c : Call} {res : World × Call} (h : w.stepCall c = some res)
    (hof : ofApp c = true) (hahead : callAhead w c = false) :
    Rests w res.1 ∧ ofApp res.2 = true ∧ callAhead w res.2 = false := by
  cases c with
  | register | unregister => cases hof
  | spawn => cases hahead
  | returned => cases h
  | emit event next =>
      cases h
      exact ⟨rests_of_same (fun _ => rfl) rfl, hof, hahead⟩
  | log id line next =>
      cases h
      exact ⟨rests_of_quiet (World.quiet_pushLog _ _), hof, hahead⟩
  | start id =>
      cases h
      have hnone : w.entries id = none := by simpa [callAhead, registered] using hahead
      have hstart : w.start id = (w, .returned (.error (.notFound id))) := by
        simp only [World.start, hnone]
      rw [hstart]
      exact ⟨.refl w, rfl, rfl⟩
  | stop id =>
      cases h
      unfold World.stop
      split
      · exact ⟨.refl w, rfl, rfl⟩
      · split
        · exact ⟨rests_of_same (fun _ => rfl) rfl, rfl, rfl⟩
        · exact ⟨.refl w, rfl, rfl⟩
  | trySend control =>
      cases control with
      | none =>
          cases h
          exact ⟨.refl w, rfl, rfl⟩
      | some r =>
          cases h
          unfold World.trySend
          split
          · exact ⟨.refl w, rfl, rfl⟩
          next run hr =>
            split
            · exact ⟨.refl w, rfl, rfl⟩
            · exact ⟨rests_setRun_same hr rfl, rfl, rfl⟩

theorem CallsMeet.setCall {p : Call → Prop} (h : CallsMeet p w) {k : CallId} {c : Call} (hc : p c)
    (hcalls : w'.calls = Function.update w.calls k (some c)) : CallsMeet p w' := by
  intro k' c' hk
  rw [hcalls] at hk
  by_cases heq : k' = k
  · subst heq
    rw [← Option.some.inj ((Function.update_self k' _ _).symm.trans hk)]
    exact hc
  · exact h k' c' ((Function.update_of_ne heq _ _).symm.trans hk)

theorem CallsMeet.of_calls {p : Call → Prop} (h : CallsMeet p w) (hcalls : w'.calls = w.calls) :
    CallsMeet p w' := by
  intro k c hk
  rw [hcalls] at hk
  exact h k c hk

theorem callsRest_congr (hreg : ∀ id, registered w' id = registered w id) :
    CallsRest w' ↔ CallsMeet (fun c => ofApp c = true ∧ callAhead w c = false) w' := by
  unfold CallsRest
  rw [show callAhead w' = callAhead w from funext (callAhead_congr hreg)]

theorem CallsRest.of_rests (h : CallsRest w) (hr : Rests w w') (hcalls : w'.calls = w.calls) :
    CallsRest w' :=
  (callsRest_congr hr.registered).mpr (CallsMeet.of_calls h hcalls)

theorem CallsRest.setCall (h : CallsRest w) (hr : Rests w w') {k : CallId} {c : Call}
    (hof : ofApp c = true) (hahead : callAhead w c = false)
    (hcalls : w'.calls = Function.update w.calls k (some c)) : CallsRest w' :=
  (callsRest_congr hr.registered).mpr (CallsMeet.setCall h ⟨hof, hahead⟩ hcalls)

theorem calls_caller {w₁ : World} {k : CallId} {c c' : Call} (hstep : w.stepCall c = some (w₁, c')) :
    (w₁.setCall k c').calls = Function.update w.calls k (some c') := by
  rw [← (Proc.stepCall_calls hstep).1]
  rfl

/-- **A supervisor without a start ahead starts nothing**, as long as nobody makes a
call that does. -/
theorem rests_next (hs : Sound w) (hc : CallsRest w) {action : Proc.Action}
    (hcall : App.isCall action = false) (h : w.next action = some w') :
    Rests w w' ∧ CallsRest w' := by
  cases Proc.next_cases h with
  | call => cases hcall
  | @caller k c c' w₁ hk hstep =>
      obtain ⟨hof, hahead⟩ := hc k c hk
      obtain ⟨hr, hof', hahead'⟩ := stepCall_rests hstep hof hahead
      have hrest : Rests w (w₁.setCall k c') := hr.trans (rests_of_same (fun _ => rfl) rfl)
      exact ⟨hrest, hc.setCall hrest hof' hahead' (calls_caller hstep)⟩
  | task hr h =>
      have hrest := rests_stepTask hs hr h
      exact ⟨hrest, hc.of_rests hrest (Proc.stepTask_calls h).1⟩
  | own hr hw _ htask =>
      have hrest := (rests_of_quiet hw).trans (rests_setRun_same (hw.runs ▸ hr) htask)
      exact ⟨hrest, hc.of_rests hrest hw.calls⟩
  | @readerEmit _ r run run' line hr _ htask =>
      have hsend : Rests w (w.send (.log run.id line)) := rests_of_same (fun _ => rfl) rfl
      have hrest := hsend.trans (rests_setRun_same hr htask)
      exact ⟨hrest, hc.of_rests hrest rfl⟩
  | tick =>
      have hrest : Rests w { w with clock := w.clock + 1 } := rests_of_same (fun _ => rfl) rfl
      exact ⟨hrest, hc.of_rests hrest rfl⟩

/-- **A call that the app may make starts nothing by itself.** -/
theorem rests_asks (hc : CallsRest w) {ahead : Option ServiceId}
    (hahead : ∀ id, ahead = some id → registered w id = false) (h : Asks w ahead w') :
    Rests w w' ∧ CallsRest w' := by
  cases h with
  | nothing => exact ⟨.refl w, hc⟩
  | stop id h =>
      cases h
      have hrest : Rests w ({ w with nextCall := w.nextCall + 1 }.setCall w.nextCall (.stop id)) :=
        rests_of_same (fun _ => rfl) rfl
      exact ⟨hrest, hc.setCall hrest rfl rfl rfl⟩
  | start id hid h =>
      cases h
      have hrest : Rests w ({ w with nextCall := w.nextCall + 1 }.setCall w.nextCall (.start id)) :=
        rests_of_same (fun _ => rfl) rfl
      have hnot : callAhead w (.start id) = false := hahead id hid
      exact ⟨hrest, hc.setCall hrest rfl hnot rfl⟩

theorem ofApp_stepCall {c : Call} {res : World × Call} (h : w.stepCall c = some res)
    (hof : ofApp c = true) : ofApp res.2 = true := by
  cases c with
  | register | unregister => cases hof
  | returned => cases h
  | emit | log =>
      cases h
      exact hof
  | start id =>
      cases h
      unfold World.start
      split
      · rfl
      · split <;> rfl
  | stop id =>
      cases h
      unfold World.stop
      split
      · rfl
      · split <;> rfl
  | spawn r =>
      cases h
      rfl
  | trySend control => cases control <;> cases h <;> rfl

theorem ofApp_next (hof : CallsMeet (ofApp · = true) w) {action : Proc.Action}
    (hcall : App.isCall action = false) (h : w.next action = some w') :
    CallsMeet (ofApp · = true) w' := by
  cases Proc.next_cases h with
  | call => cases hcall
  | caller hk hstep =>
      exact hof.setCall (ofApp_stepCall hstep (hof _ _ hk)) (calls_caller hstep)
  | task hr h => exact hof.of_calls (Proc.stepTask_calls h).1
  | own hr hw _ _ => exact hof.of_calls hw.calls
  | readerEmit | tick => exact hof

theorem ofApp_asks (hof : CallsMeet (ofApp · = true) w) {ahead : Option ServiceId}
    (h : Asks w ahead w') : CallsMeet (ofApp · = true) w' := by
  cases h with
  | nothing => exact hof
  | stop id h =>
      cases h
      exact hof.setCall (c := .stop id) rfl rfl
  | start id hid h =>
      cases h
      exact hof.setCall (c := .start id) rfl rfl

end Supervisor

/-! ### Runs of the app -/

/-- The app's supervisor is one that the supervisor's own runs reach, its calls are
the app's, and the mark is there once the quit has begun. -/
structure Serving (a : App) : Prop where
  supervisor : Proc.supervisor.Reachable a.sup
  calls : CallsMeet (ofApp · = true) a.sup
  quitting : a.quitting = some (decide (a.quit ≠ .idle))

/-- The quit is past the point where anything may be started. -/
structure AtRest (a : App) : Prop where
  calls : CallsRest a.sup
  handlers : ∀ h x id, a.handlers h = some x → x.startAhead = some id → registered a.sup id = false
  quit : a.quit ≠ .idle

section Runs

variable {a a' : App} {action : Action} {stragglers : List ServiceId}

theorem supervisor_of_asks {ahead : Option ServiceId} {w w' : World}
    (hw : Proc.supervisor.Reachable w) (h : Asks w ahead w') : Proc.supervisor.Reachable w' := by
  cases h with
  | nothing => exact hw
  | stop id h =>
      have hn : Proc.supervisor.next w (.call (.stop id)) = some w' := h
      exact .step hw trivial hn
  | start id _ h =>
      have hn : Proc.supervisor.next w (.call (.start id)) = some w' := h
      exact .step hw trivial hn

/-- What a step of the app is: a step of the supervisor, or something that a handler
or the quit does. -/
theorem next_cases (h : a.next action = some a') :
    (∃ act, action = .supervisor act ∧ App.isCall act = false ∧ a.sup.next act = some a'.sup ∧
      Beside a a') ∨
    (∃ h x', Asks a.sup ((a.handlers h).bind Handler.startAhead) a'.sup ∧
      a'.handlers = Function.update a.handlers h (some x') ∧ a'.quitting = a.quitting ∧
      a'.quit = a.quit ∧ ∀ id, x'.startAhead = some id →
        (a.handlers h).bind Handler.startAhead = some id ∨ a.quitting ≠ some true) ∨
    (∃ answer, action = .quit answer ∧ a.quitStep answer a.quit = some a') := by
  cases action with
  | supervisor act =>
      simp only [App.next] at h
      split at h
      next => cases h
      next hcall =>
        obtain ⟨w, hw, rfl⟩ := Option.map_eq_some_iff.mp h
        exact .inl ⟨act, rfl, by simpa using hcall, hw, rfl, rfl, rfl⟩
  | connect =>
      simp only [App.next] at h
      split at h
      · cases h
        exact .inr (.inl ⟨_, _, .nothing, rfl, rfl, rfl, fun id hid => by cases hid⟩)
      · cases h
  | request k req =>
      simp only [App.next] at h
      split at h
      · cases h
        exact .inr (.inl ⟨_, _, .nothing, rfl, rfl, rfl, fun id hid => by cases hid⟩)
      · cases h
  | handler k answer =>
      obtain ⟨x, hx, h⟩ := Option.bind_eq_some_iff.mp h
      obtain ⟨⟨a₁, x'⟩, hstep, h⟩ := Option.bind_eq_some_iff.mp h
      cases h
      obtain ⟨hasks, hb, hahead⟩ := handlerStep_cases hstep
      refine .inr (.inl ⟨k, x', ?_, ?_, hb.quitting, hb.quit, ?_⟩)
      · rw [hx]
        exact hasks
      · show Function.update a₁.handlers k (some x') = _
        rw [hb.handlers]
      · rw [hx]
        exact hahead
  | quit answer => exact .inr (.inr ⟨answer, rfl, h⟩)

/-- What a step of the quit does: it leaves the requests alone, and only marks, goes
on, or asks for stops. -/
theorem quitStep_cases {answer : Answer} (h : a.quitStep answer a.quit = some a') :
    Asks a.sup none a'.sup ∧ a'.handlers = a.handlers ∧ a'.quit ≠ .idle ∧
      a'.quitting = (if a.quit = .idle then a.quitting.map fun _ => true else a.quitting) := by
  cases hq : a.quit with
  | idle | unlink | abortInstall =>
      rw [hq] at h
      cases h
      refine ⟨.nothing, rfl, ?_, ?_⟩ <;> simp
  | destroyed => simp [hq, App.quitStep] at h
  | stopAll loop =>
      rw [hq] at h
      cases loop with
      | returned stragglers =>
          cases h
          refine ⟨.nothing, rfl, ?_, ?_⟩ <;> simp
      | _ =>
          rw [quitStep_stopAll (by simp)] at h
          obtain ⟨⟨a₁, loop'⟩, hl, h⟩ := Option.map_eq_some_iff.mp h
          cases h
          obtain ⟨hasks, hb⟩ := stopAllStep_asks hl none
          exact ⟨hasks, hb.handlers, by simp, hb.quitting.trans (by simp)⟩

/-- `stop_all` returns what it last saw, in a step of its own. -/
theorem stopAllStep_returns {answer : Answer} {loop : StopAll}
    (h : a.stopAllStep answer loop = some (a', .returned stragglers)) :
    loop = .decide stragglers ∧ (stragglers = [] ∨ answer = .elapsed) ∧ a' = a := by
  cases loop with
  | decide still =>
      cases still with
      | nil =>
          cases h
          exact ⟨rfl, .inl rfl, rfl⟩
      | cons id rest =>
          simp only [App.stopAllStep, Option.some.injEq, Prod.mk.injEq] at h
          obtain ⟨rfl, h⟩ := h
          split at h
          next he =>
            cases h
            exact ⟨rfl, .inr he, rfl⟩
          next => cases h
  | sweep rest =>
      cases rest with
      | nil => cases h
      | cons id rest => simp [App.stopAllStep] at h
  | stopping => simp [App.stopAllStep] at h
  | pending | sleep | returned => cases h

theorem quitStep_returns {answer : Answer} (h : a.quitStep answer a.quit = some a')
    (hnot : a.stopAllReturned = none) (hret : a'.stopAllReturned = some stragglers) :
    a.quit = .stopAll (.decide stragglers) ∧ (stragglers = [] ∨ answer = .elapsed) ∧
      a'.sup = a.sup ∧ a'.handlers = a.handlers := by
  cases hq : a.quit with
  | idle | unlink | abortInstall =>
      rw [hq] at h
      cases h
      cases hret
  | destroyed => simp [hq, App.quitStep] at h
  | stopAll loop =>
      rw [hq] at h
      have hloop : ∀ stragglers, loop ≠ .returned stragglers := by
        rintro stragglers rfl
        simp [App.stopAllReturned, hq] at hnot
      rw [quitStep_stopAll hloop] at h
      obtain ⟨⟨a₁, loop'⟩, hl, h⟩ := Option.map_eq_some_iff.mp h
      cases h
      cases loop' with
      | returned still =>
          cases hret
          obtain ⟨hdec, hwhy, rfl⟩ := stopAllStep_returns hl
          exact ⟨by rw [hdec], hwhy, rfl, rfl⟩
      | _ => cases hret

theorem serving_next (hs : Serving a) (h : a.next action = some a') : Serving a' := by
  rcases next_cases h with ⟨act, -, hcall, hn, hb⟩ | ⟨k, x', hasks, -, hq, hquit, -⟩ |
    ⟨answer, -, h⟩
  · constructor
    · exact .step hs.supervisor trivial hn
    · exact ofApp_next hs.calls hcall hn
    · rw [hb.quit, hb.quitting]
      exact hs.quitting
  · constructor
    · exact supervisor_of_asks hs.supervisor hasks
    · exact ofApp_asks hs.calls hasks
    · rw [hquit, hq]
      exact hs.quitting
  · obtain ⟨hasks, -, hne, hq⟩ := quitStep_cases h
    constructor
    · exact supervisor_of_asks hs.supervisor hasks
    · exact ofApp_asks hs.calls hasks
    · rw [hq, hs.quitting]
      by_cases hidle : a.quit = .idle <;> simp [hidle, hne]

theorem serving_of_reaches {allowed : App → Action → Prop} : app.Reaches allowed a → Serving a := by
  apply Lts.System.Reaches.invariant
  · intro a ha
    constructor
    · exact ha.supervisor
    · intro k c hk
      obtain ⟨result, rfl⟩ := ha.calls k c hk
      rfl
    · rw [ha.quitting, ha.quit]
      rfl
  · intro a action a' hs _ hn
    exact serving_next hs hn

theorem AtRest.ahead (hr : AtRest a) (h : Nat) {id : ServiceId}
    (hid : (a.handlers h).bind Handler.startAhead = some id) : registered a.sup id = false := by
  obtain ⟨x, hx, hxid⟩ := Option.bind_eq_some_iff.mp hid
  exact hr.handlers h x id hx hxid

/-- **Nothing is started once the quit is past that point**, whatever step is taken. -/
theorem atRest_next (hs : Serving a) (hr : AtRest a) (h : a.next action = some a') :
    AtRest a' ∧ Rests a.sup a'.sup := by
  have hsound := Proc.sound_of_reachable hs.supervisor
  rcases next_cases h with ⟨act, -, hcall, hn, hb⟩ | ⟨k, x', hasks, hx', hq, hquit, hahead⟩ |
    ⟨answer, -, h⟩
  · -- the supervisor goes on
    obtain ⟨hrest, hcalls⟩ := rests_next hsound hr.calls hcall hn
    refine ⟨⟨hcalls, ?_, hb.quit ▸ hr.quit⟩, hrest⟩
    intro k x id hx hid
    rw [hrest.registered]
    exact hr.handlers k x id (hb.handlers ▸ hx) hid
  · -- a handler goes on
    obtain ⟨hrest, hcalls⟩ := rests_asks hr.calls (fun id => hr.ahead k) hasks
    refine ⟨⟨hcalls, ?_, hquit ▸ hr.quit⟩, hrest⟩
    intro k' x id hx hid
    rw [hrest.registered]
    rw [hx'] at hx
    by_cases heq : k' = k
    · subst heq
      have hxx : x' = x := Option.some.inj ((Function.update_self k' _ _).symm.trans hx)
      rcases hahead id (hxx ▸ hid) with hold | hnew
      · exact hr.ahead k' hold
      · -- it was admitted after the mark
        exact absurd (hs.quitting.trans (by simp [hr.quit])) hnew
    · exact hr.handlers k' x id ((Function.update_of_ne heq _ _).symm.trans hx) hid
  · -- the quit goes on
    obtain ⟨hasks, hhandlers, hne, -⟩ := quitStep_cases h
    obtain ⟨hrest, hcalls⟩ := rests_asks hr.calls (fun id hid => by cases hid) hasks
    refine ⟨⟨hcalls, ?_, hne⟩, hrest⟩
    intro k x id hx hid
    rw [hrest.registered]
    exact hr.handlers k x id (hhandlers ▸ hx) hid

/-- Where `stop_all` has returned, nothing may be started, and what runs is one of its
stragglers. -/
structure Stopped (a : App) (stragglers : List ServiceId) : Prop where
  atRest : AtRest a
  live : ∀ id, a.sup.liveAt id = true → id ∈ stragglers

theorem stopAllReturned_congr (h : a'.quit = a.quit) : a'.stopAllReturned = a.stopAllReturned := by
  unfold App.stopAllReturned
  rw [h]

theorem returned_next (hret : a.stopAllReturned = some stragglers)
    (h : a.next action = some a') : a'.stopAllReturned = some stragglers := by
  rcases next_cases h with ⟨act, -, -, -, hb⟩ | ⟨k, x', -, -, -, hquit, -⟩ | ⟨answer, -, h⟩
  · rw [stopAllReturned_congr hb.quit, hret]
  · rw [stopAllReturned_congr hquit, hret]
  · unfold App.stopAllReturned at hret
    split at hret
    next hq =>
      cases hret
      rw [hq] at h
      cases h
      rfl
    next hq =>
      rw [hq] at h
      cases h
    next => cases hret

/-- A return that the condition allows. -/
theorem stopped_of_clear (hs : Serving a) (hnot : ¬ a.StartAhead)
    (hlive : ∀ id, a.sup.liveAt id = true → id ∈ stragglers) (hquit : a'.quit ≠ .idle)
    (hsup : a'.sup = a.sup) (hhandlers : a'.handlers = a.handlers) : Stopped a' stragglers := by
  constructor
  · constructor
    · intro k c hk
      rw [hsup] at hk ⊢
      refine ⟨hs.calls k c hk, ?_⟩
      by_contra hahead
      exact hnot (.inl ⟨k, c, hk, by simpa using hahead⟩)
    · intro k x id hx hid
      rw [hhandlers] at hx
      rw [hsup]
      by_contra hreg
      exact hnot (.inr ⟨k, x, id, hx, hid, by simpa using hreg⟩)
    · exact hquit
  · intro id hid
    exact hlive id (hsup ▸ hid)

theorem stopped_of_reaches (ha : app.Reaches Clear a) :
    ∀ stragglers, a.stopAllReturned = some stragglers → Stopped a stragglers := by
  refine Lts.System.Reaches.invariant_beside (S := app)
    (I := fun a => ∀ stragglers, a.stopAllReturned = some stragglers → Stopped a stragglers)
    (fun a ha => serving_of_reaches ha) ?_ ?_ ha
  · intro a ha stragglers hret
    simp [App.stopAllReturned, ha.quit] at hret
  · intro a action a' hs hstopped hclear hn stragglers hret
    cases hbefore : a.stopAllReturned with
    | some still =>
        have hsame : still = stragglers :=
          Option.some.inj ((returned_next hbefore hn).symm.trans hret)
        subst hsame
        have hst := hstopped still hbefore
        obtain ⟨hrest', hrest⟩ := atRest_next hs hst.atRest hn
        exact ⟨hrest', fun id hid => hst.live id (hrest.live id hid)⟩
    | none =>
        rcases next_cases hn with ⟨act, -, -, -, hb⟩ | ⟨k, x', -, -, -, hquit, -⟩ |
          ⟨answer, rfl, h⟩
        · rw [stopAllReturned_congr hb.quit, hbefore] at hret
          cases hret
        · rw [stopAllReturned_congr hquit, hbefore] at hret
          cases hret
        · obtain ⟨hdecide, hwhy, hsup, hhandlers⟩ := quitStep_returns h hbefore hret
          obtain ⟨hnot, hlive⟩ := hclear stragglers hdecide hwhy
          exact stopped_of_clear hs hnot hlive (quitStep_cases h).2.2.1 hsup hhandlers

/-- **Quit leaves nothing starting behind it** where `stop_all` returns only when no
admitted request may still start a service: no service task is created afterwards,
and what `stop_all` did not report as a straggler is never live again. -/
theorem quit_leaves_nothing_starting (ha : app.Reaches Clear a)
    (hret : a.stopAllReturned = some stragglers) (hl : app.Leads Lts.System.Any a a') :
    (∀ r, Created a'.sup r → Created a.sup r) ∧
      ∀ id, id ∉ stragglers → a'.sup.liveAt id = false := by
  have hs := serving_of_reaches ha
  have hst := stopped_of_reaches ha stragglers hret
  have hinv : Serving a' ∧ AtRest a' ∧ Rests a.sup a'.sup := by
    refine Lts.System.Leads.invariant (S := app)
      (I := fun a' => Serving a' ∧ AtRest a' ∧ Rests a.sup a'.sup) ⟨hs, hst.atRest, .refl _⟩ ?_ hl
    rintro b action b' ⟨hsb, hrb, hab⟩ _ hn
    obtain ⟨hrb', hbb'⟩ := atRest_next hsb hrb hn
    exact ⟨serving_next hsb hn, hrb', hab.trans hbb'⟩
  obtain ⟨-, -, hrests⟩ := hinv
  constructor
  · exact hrests.created
  · intro id hid
    rw [← Bool.not_eq_true]
    intro hlive
    exact hid (hst.live id (hrests.live id hlive))

end Runs

/-! ### Two runs -/

section Samples

open Proc (sampleSpec callThrough upToRunning upToLastWrite)

/-- A supervisor with one service, which is stopped. -/
def booted : World :=
  (Proc.supervisor.exec World.new (callThrough 0 (.register (sampleSpec "web")) 2)).getD World.new

theorem reachable_booted : Proc.supervisor.Reachable booted :=
  Lts.System.reaches_of_exec (.init Proc.initial_new)
    (show Proc.supervisor.exec World.new (callThrough 0 (.register (sampleSpec "web")) 2) = some booted
      from rfl)

/-- The app over it, serving. -/
def served : App :=
  { sup := booted
    ids := ["web"]
    quitting := some false
    socket := true
    bulkLock := false
    applyLock := false
    handlers := fun _ => none
    nextHandler := 0
    quit := .idle }

theorem calls_booted {k : CallId} {c : Call} (h : booted.calls k = some c) :
    ∃ result, c = .returned result := by
  cases k with
  | zero =>
      cases h
      exact ⟨_, rfl⟩
  | succ k => cases h

theorem initial_served : served.Initial := by
  constructor
  · exact reachable_booted
  · exact fun k c => calls_booted
  · intro id
    by_cases hid : id = "web"
    · subst hid
      simp only [served, List.mem_singleton, iff_true]
      rfl
    · have hnone : booted.entries id = none := Function.update_of_ne hid _ _
      simp [served, hid, hnone]
  · exact List.pairwise_singleton _ _
  · rfl
  · exact fun _ => rfl
  · rfl

/-- Steps of a call on the supervisor. -/
def callerSteps (k : CallId) (steps : Nat) : List Action :=
  List.replicate steps (.supervisor (.caller k))

/-- Steps of a handler, without a deadline. -/
def handlerSteps (h steps : Nat) : List Action := List.replicate steps (.handler h .go)

def quitSteps (steps : Nat) : List Action := List.replicate steps (.quit .go)

/-- `stop_all` has looked and is about to return; one connection is there. -/
def aboutToReturn : App :=
  { served with
    quitting := some true
    socket := false
    handlers := Function.update served.handlers 0 (some .connected)
    nextHandler := 1
    quit := .stopAll (.decide []) }

theorem clear_of_quit {a : App} {action : Action} (h : ∀ still, a.quit ≠ .stopAll (.decide still)) :
    Clear a action := by
  cases action with
  | quit answer => exact fun still hq => absurd hq (h still)
  | _ => trivial

theorem reaches_aboutToReturn : app.Reaches Clear aboutToReturn := by
  have h₁ : app.Reaches Clear
      { served with
        handlers := Function.update served.handlers 0 (some .connected)
        nextHandler := 1 } := .step (.init initial_served) trivial (a := .connect) rfl
  have h₂ := h₁.step (a := .quit .go) (clear_of_quit fun still => by simp [served]) rfl
  have h₃ := h₂.step (a := .quit .go) (clear_of_quit fun still => by simp) rfl
  have h₄ := h₃.step (a := .quit .go) (clear_of_quit fun still => by simp) rfl
  exact h₄.step (a := .quit .go) (clear_of_quit fun still => by simp) rfl

theorem clear_aboutToReturn : Clear aboutToReturn (.quit .go) := by
  intro still hq _
  cases hq
  constructor
  · rintro (⟨k, c, hk, hahead⟩ | ⟨k, x, id, hx, hid, -⟩)
    · obtain ⟨result, rfl⟩ := calls_booted hk
      cases hahead
    · cases k with
      | zero =>
          cases hx
          cases hid
      | succ k => cases hx
  · intro id hid
    by_cases hweb : id = "web"
    · subst hweb
      cases hid
    · have hnone : booted.entries id = none := Function.update_of_ne hweb _ _
      have hdead : aboutToReturn.sup.liveAt id = false := by
        show booted.liveAt id = false
        simp [World.liveAt, hnone]
      rw [hdead] at hid
      cases hid

/-- A connection that is made before the quit, and whose request comes after
`stop_all` has returned, is refused. -/
theorem quit_leaves_nothing_starting_refused :
    ∃ a a', app.Reaches Clear a ∧ a.stopAllReturned = some [] ∧ app.Leads Lts.System.Any a a' ∧
      a'.handlers 0 = some (.done (.error .busy quittingMessage)) ∧ a'.sup.liveAt "web" = false := by
  have hret : app.Reaches Clear { aboutToReturn with quit := .stopAll (.returned []) } :=
    reaches_aboutToReturn.step clear_aboutToReturn rfl
  have hexec : app.exec { aboutToReturn with quit := .stopAll (.returned []) }
      [.request 0 (.restart "web" true), .handler 0 .go] = some
        { aboutToReturn with
          quit := .stopAll (.returned [])
          handlers := Function.update (Function.update aboutToReturn.handlers 0
            (some (.execute (.restart "web" true)))) 0
            (some (.done (.error .busy quittingMessage))) } := rfl
  have hl := Lts.System.leads_of_exec hexec
  exact ⟨_, _, hret, rfl, hl, rfl, (quit_leaves_nothing_starting hret rfl hl).2 "web" (by simp)⟩

/-- A service runs and is being restarted; its stop half waits through the whole of
`stop_all`. -/
def upToQuit : List Action :=
  [.connect, .request 0 (.start "web" true)] ++ handlerSteps 0 4 ++ callerSteps 1 5 ++
    (upToRunning 0 7).map .supervisor ++
    [.connect, .request 1 (.restart "web" true)] ++ handlerSteps 1 4 ++ callerSteps 2 4 ++
    handlerSteps 1 1 ++ quitSteps 6 ++ callerSteps 3 4 ++ quitSteps 3 ++
    (upToLastWrite 0).map .supervisor ++ [.supervisor (.task 0 .go)] ++ quitSteps 2

/-- The stop half is over, and the start half follows. -/
def startHalf : List Action := handlerSteps 1 8 ++ callerSteps 4 5

def createdAt (r : RunId) (w : World) : Bool :=
  (w.runs r).any fun run => match run.task with | .queued => false | _ => true

theorem createdAt_iff {r : RunId} {w : World} : createdAt r w = true ↔ Created w r := by
  unfold createdAt Created
  rw [Option.any_eq_true]
  constructor
  · rintro ⟨run, hr, htask⟩
    refine ⟨run, hr, fun hq => ?_⟩
    rw [hq] at htask
    cases htask
  · rintro ⟨run, hr, htask⟩
    refine ⟨run, hr, ?_⟩
    split
    next hq => exact absurd hq htask
    next => rfl

/-- **A restart outlives the quit**: `stop_all` has returned without a straggler, and
then a task is created for the service that it saw stopped. -/
theorem restart_outlives_quit :
    ∃ a a', app.Reachable a ∧ a.stopAllReturned = some [] ∧ app.Leads Lts.System.Any a a' ∧
      (∃ r, Created a'.sup r ∧ ¬ Created a.sup r) ∧ a.sup.liveAt "web" = false ∧
      a'.sup.liveAt "web" = true := by
  obtain ⟨a, ha, hend⟩ := Lts.System.exists_of_exec (S := app) upToQuit
    (fun a => decide (a.stopAllReturned = some []) && !createdAt 1 a.sup && !a.sup.liveAt "web" &&
      (app.exec a startHalf).any fun a' => createdAt 1 a'.sup && a'.sup.liveAt "web")
    (.init initial_served) (by decide +kernel)
  simp only [Bool.and_eq_true, decide_eq_true_eq, Bool.not_eq_true', Option.any_eq_true] at hend
  obtain ⟨⟨⟨hret, hnot⟩, hdead⟩, a', hexec, hcreated, hlive⟩ := hend
  refine ⟨a, a', ha, hret, Lts.System.leads_of_exec hexec, ⟨1, ?_, ?_⟩, hdead, hlive⟩
  · rwa [← createdAt_iff]
  · rw [← createdAt_iff, hnot]
    exact Bool.false_ne_true

end Samples

end OpenVHost.Desktop
