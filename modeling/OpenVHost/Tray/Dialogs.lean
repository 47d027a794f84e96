/-
# Failure dialogs

A dialog is shown for a `Failed` event of a service with a mark, and the mark is the
service's. The dialogs are those of the tray's own starts as long as each start of the
tray makes a run while nothing older of its service is left to handle, and nothing is
handled between the mark and the start.

* `DialogsRight` — the dialogs are those of the runs that the tray has started.
* `Undisturbed` — the condition.
* `dialogs_right` — what the dialogs are in every undisturbed run.
* `foreign_failure` — a run in which a dialog is shown for the run of another client.
-/

import OpenVHost.Proc.Evidence
import OpenVHost.Tray.Converge
import OpenVHost.Tray.Ledger

namespace OpenVHost.Tray

open Proc (ServiceId ServiceState RunId CallId Event World SignedBy)

/-! ### What is claimed of the dialogs -/

/-- The event that comes next is the first one that is not handled. -/
def Subscriber.handled : Subscriber → Nat
  | .recv rx | .look rx | .post rx _ => rx
  | .name rx _ _ | .resolve rx _ _ _ => rx - 1

namespace MenuBar

variable (t : MenuBar)

def handled : Nat := (t.subscriber.map Subscriber.handled).getD 0

def ledger : Ledger := ⟨t.sup.world, t.sources, t.own, t.tracked, t.handled⟩

/-- Event `n` has its service failed. -/
def FailedAt (n : Nat) : Prop :=
  ∃ id exit tail detail, t.sup.world.events[n]? = some (.stateChanged id (.failed exit tail) detail)

/-- Event `n` is of a run of the tray that was not seen running or stopped before. -/
def OwnStart (n : Nat) : Prop :=
  ∃ r ∈ t.own, SignedBy t.sources n r ∧ ∀ m < n, SignedBy t.sources m r →
    ∀ id state detail, t.sup.world.events[m]? = some (.stateChanged id state detail) →
      state ≠ .running ∧ state ≠ .stopped

/-- A dialog is shown for a `Failed` event that was handled exactly if it is of a start of the
tray that was not seen running or stopped, and at most one for each run. -/
structure DialogsRight : Prop where
  shown : ∀ n < t.handled, t.FailedAt n → ((∃ d ∈ t.dialogs, d.event = n) ↔ t.OwnStart n)
  failed : ∀ d ∈ t.dialogs, d.event < t.handled ∧ t.FailedAt d.event
  once : (t.dialogs.map fun d => t.sources[d.event]?).Nodup

/-- The tray has marked the service, and its `start` has not taken effect yet. -/
def UnderWay (id : ServiceId) : Prop :=
  (∃ k j, t.jobs k = some j ∧ j.awaits = some id) ∨
    ∃ k ∈ t.starts, t.sup.world.calls k = some (.start id)

end MenuBar

/-- **The condition**: events are broadcast in the order of the writes, and received
without a gap. When a start of the tray takes effect, the service is not up, has its mark,
and has no event left that would resolve it; and no such event is handled before. A mark
names a service and no run, so that the next event of it that ends a start is taken for
the answer, whoever started it. -/
def Undisturbed (t : MenuBar) : Turn → Prop
  | .supervisor action => t.sup.world.Orderly action ∧ ∀ k ∈ t.starts, ∀ id, action = .caller k →
      t.sup.world.calls k = some (.start id) →
        t.sup.world.idleAt id = true ∧ id ∈ t.tracked ∧ ¬ t.ledger.Open id
  | .subscriber =>
      (∀ rx, t.subscriber = some (.recv rx) →
        t.sup.world.events.length ≤ rx + Desktop.broadcastCapacity) ∧
      ∀ rx id state name, t.subscriber = some (.resolve rx id state name) → state ≠ .starting →
        id ∈ t.tracked → ¬ t.UnderWay id
  | _ => True

/-! ### The invariant -/

/-- It may come to mark a service. -/
def Job.marks : Job → Bool
  | .stop _ | .calling _ | .stopAll .control _ | .release .control | .releaseApply .control
  | .tryBulk .control | .tryApply .control | .done => false
  | _ => true

namespace MenuBar

structure Tells (t : MenuBar) : Prop where
  proc : Proc.Sound t.sup.world
  calls : Proc.CallsFresh t.sup.world
  sync : ∀ id, Proc.InSync t.sup.world id
  ledger : t.ledger.Sound
  rx : ∀ s, t.subscriber = some s → s.rx ≤ t.sup.world.events.length
  heard : ∀ rx id state, (t.subscriber = some (.name rx id state) ∨
      ∃ name, t.subscriber = some (.resolve rx id state name)) →
    0 < rx ∧ ∃ detail, t.sup.world.events[rx - 1]? = some (.stateChanged id state detail)
  tracked : ∀ id ∈ t.tracked, t.UnderWay id ∨ ∃ r ∈ t.own, ∃ run, t.sup.world.runs r = some run ∧
    run.id = id ∧ t.ledger.Held r id
  nodup : t.tracked.Nodup
  newJob : ∀ k, t.nextJob ≤ k → t.jobs k = none
  deaf : t.subscriber = none → t.own = [] ∧ t.starts = [] ∧ t.dialogs = [] ∧
    ∀ k j, t.jobs k = some j → j.marks = false
  right : t.DialogsRight

end MenuBar

section Dialogs

variable {t t' : MenuBar} {k : Nat} {j j' : Job} {id : ServiceId} {n : Nat} {w w' : World}

/-! ### Calls -/

theorem calls_kept {a : Proc.Action} {c : Proc.Call} (hcalls : Proc.CallsFresh w)
    (h : w.next a = some w') (hne : a ≠ .caller k) (hk : w.calls k = some c) : w'.calls k = some c := by
  cases a with
  | call c' =>
      simp only [World.next, Option.ite_none_right_eq_some, Option.some.injEq] at h
      obtain ⟨-, rfl⟩ := h
      have hold : k ≠ w.nextCall := by
        rintro rfl
        rw [hcalls _ (Nat.le_refl _)] at hk
        cases hk
      exact (Function.update_of_ne hold _ _).trans hk
  | caller | task | exit | read | readerEmit | eof | tick =>
      rcases Desktop.calls_next h rfl hk with ⟨-, heq⟩ | ⟨heq, -⟩
      · exact heq
      · exact absurd heq hne

/-- Only the block of a `start` makes a run. -/
theorem nextRun_stepCall {c : Proc.Call} {p : World × Proc.Call} (h : w.stepCall c = some p) :
    p.1.nextRun = w.nextRun ∨ ∃ id, c = .start id := by
  cases c with
  | start id => exact .inr ⟨id, rfl⟩
  | returned => cases h
  | emit | log =>
      cases h
      exact .inl rfl
  | register spec =>
      cases h
      unfold World.register
      split <;> exact .inl rfl
  | unregister i =>
      cases h
      unfold World.unregister
      split
      · exact .inl rfl
      · split <;> exact .inl rfl
  | stop i =>
      cases h
      unfold World.stop
      split
      · exact .inl rfl
      · split <;> exact .inl rfl
  | spawn r =>
      cases h
      unfold World.spawnTask
      split
      · exact .inl rfl
      · split <;> exact .inl rfl
  | trySend control =>
      cases control with
      | none =>
          cases h
          exact .inl rfl
      | some r =>
          cases h
          unfold World.trySend
          split
          · exact .inl rfl
          · split <;> exact .inl rfl

theorem start_of_nextRun (h : w.next (.caller k) = some w') (hne : w'.nextRun ≠ w.nextRun) :
    ∃ id, w.calls k = some (.start id) := by
  obtain ⟨c, hc, h⟩ := Option.bind_eq_some_iff.mp h
  obtain ⟨p, hstep, h⟩ := Option.bind_eq_some_iff.mp h
  cases h
  rcases nextRun_stepCall hstep with hsame | ⟨id, rfl⟩
  · exact absurd hsame hne
  · exact ⟨id, hc⟩

/-! ### Steps of the supervisor -/

theorem failedAt_of_events (h : t'.sup.world.events[n]? = t.sup.world.events[n]?) :
    t'.FailedAt n ↔ t.FailedAt n := by
  rw [MenuBar.FailedAt, MenuBar.FailedAt, h]

/-- What is claimed of the dialogs is not about clicks, marks or what is posted. -/
theorem MenuBar.DialogsRight.frame {posted : List Look} {bulkLock applyLock applying : Bool}
    {handle : Option Handle} {jobs : Nat → Option Job} {nextJob moment : Nat} {tracked : List ServiceId}
    {starts : List CallId} (h : t.DialogsRight) :
    ({ t with posted, bulkLock, applyLock, applying, handle, jobs, nextJob, moment, tracked, starts } :
      MenuBar).DialogsRight :=
  ⟨h.shown, h.failed, h.once⟩

/-- What is claimed of the dialogs is about events that were handled. -/
theorem right_step {action : Proc.Action} {own : List RunId} (ht : t.Tells)
    (h : t.sup.world.next action = some w')
    (hown : ∀ r, r ∈ own ↔ r ∈ t.own ∨ r ∈ own ∧ t.sup.world.runs r = none)
    (hworld : t'.sup.world = w') (hhandled : t'.handled = t.handled) (hdialogs : t'.dialogs = t.dialogs)
    (hsources : t'.sources = Proc.sourcesNext t.sources t.sup.world w' action) (hown' : t'.own = own) :
    t'.DialogsRight := by
  have hlt : ∀ {m}, m < t.handled → m < t.sup.world.events.length := fun hm =>
    Nat.lt_of_lt_of_le hm ht.ledger.handled
  have hevents : ∀ {m}, m < t.handled → t'.sup.world.events[m]? = t.sup.world.events[m]? := by
    intro m hm
    rw [hworld]
    exact getElem?_events (l := t.ledger) h (hlt hm)
  have hsigned : ∀ {m r}, m < t.handled → (SignedBy t'.sources m r ↔ SignedBy t.sources m r) := by
    intro m r hm
    rw [hsources]
    exact Proc.signedBy_old ht.ledger.signed (hlt hm)
  have hstart : ∀ {m}, m < t.handled → (t'.OwnStart m ↔ t.OwnStart m) := by
    intro m hm
    have hbefore : ∀ r, (∀ i < m, SignedBy t'.sources i r → ∀ id state detail,
          t'.sup.world.events[i]? = some (.stateChanged id state detail) →
            state ≠ .running ∧ state ≠ .stopped) ↔
        ∀ i < m, SignedBy t.sources i r → ∀ id state detail,
          t.sup.world.events[i]? = some (.stateChanged id state detail) →
            state ≠ .running ∧ state ≠ .stopped := by
      intro r
      refine forall_congr' fun i => forall_congr' fun hi => ?_
      rw [hsigned (hi.trans hm), hevents (hi.trans hm)]
    constructor
    · rintro ⟨r, hr, hs, hb⟩
      have hs' := (hsigned hm).mp hs
      rw [hown'] at hr
      rcases (hown r).mp hr with hold | ⟨-, hnone⟩
      · exact ⟨r, hold, hs', (hbefore r).mp hb⟩
      · -- a run that is new has signed nothing
        obtain ⟨run, hrun, -⟩ := ht.ledger.signed.run m r _ hs' (List.getElem?_eq_getElem (hlt hm))
        have hrun' : t.sup.world.runs r = some run := hrun
        rw [hnone] at hrun'
        cases hrun'
    · rintro ⟨r, hr, hs, hb⟩
      exact ⟨r, hown' ▸ (hown r).mpr (.inl hr), (hsigned hm).mpr hs, (hbefore r).mpr hb⟩
  obtain ⟨hshown, hfailed, honce⟩ := ht.right
  refine ⟨?_, ?_, ?_⟩
  · intro m hm hat
    rw [hhandled] at hm
    rw [hdialogs, hstart hm]
    exact hshown m hm ((failedAt_of_events (hevents hm)).mp hat)
  · intro d hd
    rw [hdialogs] at hd
    obtain ⟨hlt', hat⟩ := hfailed d hd
    exact ⟨hhandled ▸ hlt', (failedAt_of_events (hevents hlt')).mpr hat⟩
  · rw [hdialogs]
    refine (List.map_congr_left fun d hd => ?_) ▸ honce
    obtain ⟨hlt', -⟩ := hfailed d hd
    rw [hsources, Proc.sourcesNext, List.getElem?_append_left]
    have hlen := ht.ledger.signed.length
    have hlt'' := hlt hlt'
    exact hlen.symm ▸ hlt''

theorem makes_eq_true {action : Proc.Action} {sup : Proc.Listing} (h : t.makes action sup = true) :
    ∃ k ∈ t.starts, action = .caller k ∧ sup.world.nextRun ≠ t.sup.world.nextRun := by
  cases action with
  | caller k =>
      obtain ⟨hk, hne⟩ := of_decide_eq_true h
      exact ⟨k, hk, rfl, hne⟩
  | call | task | exit | read | readerEmit | eof | tick => cases h

/-- **A step of the supervisor.** -/
theorem tells_step {action : Proc.Action} (ht : t.Tells) (horder : t.sup.world.Orderly action)
    (hstarts : ∀ k ∈ t.starts, ∀ id, action = .caller k → t.sup.world.calls k = some (.start id) →
      t.sup.world.idleAt id = true ∧ id ∈ t.tracked ∧ ¬ t.ledger.Open id)
    (h : t.step action = some t') : t'.Tells := by
  obtain ⟨sup, hsup, rfl⟩ := Option.map_eq_some_iff.mp h
  have hw := Proc.Listing.next_world hsup
  have hevents : ∀ {n : Nat} {e : Event}, t.sup.world.events[n]? = some e →
      sup.world.events[n]? = some e := by
    intro n e he
    exact (getElem?_events (l := t.ledger) hw (List.getElem?_eq_some_iff.mp he).1).trans he
  -- a start of the tray that takes effect makes a run, with the mark of its service
  have hmade : ∀ own, ∀ k ∈ t.starts, ∀ id, action = .caller k →
      t.sup.world.calls k = some (.start id) → t.makes action sup = true ∧
        ∃ run, sup.world.runs t.sup.world.nextRun = some run ∧ run.id = id ∧
          (t.ledger.step action sup.world own).Held t.sup.world.nextRun id := by
    intro own k hk id ha hc
    obtain ⟨hidle, htracked, hclosed⟩ := hstarts k hk id ha hc
    subst ha
    obtain ⟨run, hrun, hid, hnext, hheld⟩ :=
      held_made (l := t.ledger) own ht.proc ht.ledger hw hc hidle htracked hclosed
    refine ⟨decide_eq_true ⟨hk, ?_⟩, run, hrun, hid, hheld⟩
    rw [show sup.world.nextRun = t.sup.world.nextRun + 1 from hnext]
    exact Nat.succ_ne_self _
  have hnew : ∀ own, t.makes action sup = true → ∃ run, sup.world.runs t.sup.world.nextRun = some run ∧
      (t.ledger.step action sup.world own).Held t.sup.world.nextRun run.id := by
    intro own hmakes
    obtain ⟨k, hk, ha, hne⟩ := makes_eq_true hmakes
    obtain ⟨id, hc⟩ := start_of_nextRun (ha ▸ hw) hne
    obtain ⟨-, run, hrun, hid, hheld⟩ := hmade own k hk id ha hc
    exact ⟨run, hrun, hid.symm ▸ hheld⟩
  set own := if t.makes action sup then t.own ++ [t.sup.world.nextRun] else t.own with hown
  have hmem : ∀ r, r ∈ own ↔ r ∈ t.own ∨ r ∈ own ∧ t.sup.world.runs r = none := by
    intro r
    constructor
    · intro hr
      by_cases hold : r ∈ t.own
      · exact .inl hold
      · refine .inr ⟨hr, ?_⟩
        rw [hown] at hr
        split at hr
        · rcases List.mem_append.mp hr with hr | hr
          · exact absurd hr hold
          · rw [List.mem_singleton.mp hr]
            exact ht.proc.fresh _ (Nat.le_refl _)
        · exact absurd hr hold
    · rintro (hr | ⟨hr, -⟩)
      · rw [hown]
        split
        · exact List.mem_append_left _ hr
        · exact hr
      · exact hr
  have hledger : (t.ledger.step action sup.world own).Sound := by
    refine ledgerSound_step ht.proc ht.calls ht.sync ht.ledger hw fun r hr => ?_
    rw [hown] at hr
    split at hr
    next hmakes =>
      rcases List.mem_append.mp hr with hr | hr
      · exact .inl hr
      · rw [List.mem_singleton.mp hr]
        exact .inr (hnew own hmakes)
    next => exact .inl hr
  refine
    { proc := Proc.sound_next ht.proc hw
      calls := Proc.callsFresh_next ht.calls hw
      sync := (Proc.next_told ht.proc ht.calls hw).inSync horder ht.sync
      ledger := hledger
      rx := fun s hs => (ht.rx s hs).trans ?_
      heard := ?_
      tracked := ?_
      nodup := ht.nodup
      newJob := ht.newJob
      deaf := ?_
      right := right_step ht hw hmem rfl rfl rfl rfl rfl }
  · obtain ⟨more, hmore, -⟩ := Proc.events_next hw
    show t.sup.world.events.length ≤ sup.world.events.length
    rw [hmore, List.length_append]
    exact Nat.le_add_right _ _
  · intro rx id state hs
    obtain ⟨hrx, detail, he⟩ := ht.heard rx id state hs
    exact ⟨hrx, detail, hevents he⟩
  · intro id hid
    rcases ht.tracked id hid with (⟨k, j, hj, hawaits⟩ | ⟨k, hk, hc⟩) | ⟨r, hr, run, hrun, hrid, hheld⟩
    · exact .inl (.inl ⟨k, j, hj, hawaits⟩)
    · by_cases ha : action = .caller k
      · obtain ⟨hmakes, run, hrun, hrid, hheld⟩ := hmade own k hk id ha hc
        refine .inr ⟨t.sup.world.nextRun, ?_, run, hrun, hrid, hheld⟩
        show t.sup.world.nextRun ∈ own
        rw [hown, if_pos hmakes]
        exact List.mem_append_right _ (List.mem_singleton_self _)
      · exact .inl (.inr ⟨k, hk, calls_kept ht.calls hw ha hc⟩)
    · obtain ⟨run', hrun', hid', -⟩ := Proc.runMove_next ht.proc hrun hw
      subst hrid
      refine .inr ⟨r, (hmem r).mpr (.inl hr), run', hrun', hid', ?_⟩
      exact held_step ht.proc ht.calls ht.sync ht.ledger hw hrun hheld
  · intro hnone
    obtain ⟨hempty, hstarts', hrest⟩ := ht.deaf hnone
    refine ⟨?_, hstarts', hrest⟩
    show own = []
    rw [hown, if_neg]
    · exact hempty
    · intro hmakes
      obtain ⟨k, hk, -⟩ := makes_eq_true hmakes
      rw [hstarts'] at hk
      cases hk

/-! ### Clicks and bulk actions -/

/-- A call on the supervisor, of a caller that waits for it. -/
theorem tells_call {c : Proc.Call} {p : MenuBar × CallId} (ht : t.Tells) (h : t.call c = some p) :
    p.1.Tells ∧ p.1.jobs = t.jobs ∧ p.1.nextJob = t.nextJob ∧ p.1.subscriber = t.subscriber ∧
      p.1.starts = t.starts ∧ p.1.sup.world.calls p.2 = some c := by
  obtain ⟨t₁, hstep, rfl⟩ := Option.map_eq_some_iff.mp h
  have horder : t.sup.world.Orderly (.call c) := fun _ hwrites => by cases hwrites
  refine ⟨tells_step ht horder (fun _ _ _ ha => by cases ha) hstep, ?_⟩
  obtain ⟨sup, hsup, rfl⟩ := Option.map_eq_some_iff.mp hstep
  refine ⟨rfl, rfl, rfl, rfl, ?_⟩
  have hw := Proc.Listing.next_world hsup
  simp only [World.next, Option.ite_none_right_eq_some, Option.some.injEq] at hw
  obtain ⟨-, hw⟩ := hw
  show sup.world.calls t.sup.world.nextCall = some c
  rw [← hw]
  exact Function.update_self ..

theorem tells_callStart {p : MenuBar × CallId} (ht : t.Tells) (hheard : t.subscriber ≠ none)
    (h : t.callStart id = some p) :
    p.1.Tells ∧ p.1.jobs = t.jobs ∧ p.1.nextJob = t.nextJob ∧ p.1.subscriber = t.subscriber ∧
      ∃ k ∈ p.1.starts, p.1.sup.world.calls k = some (.start id) := by
  obtain ⟨p₁, hcall, rfl⟩ := Option.map_eq_some_iff.mp h
  obtain ⟨ht₁, hjobs, hnext, hsub, -, hc⟩ := tells_call ht hcall
  refine ⟨{ ht₁ with tracked := ?_, deaf := ?_, right := ht₁.right.frame }, hjobs, hnext, hsub, p₁.2, ?_, hc⟩
  · intro i hi
    rcases ht₁.tracked i hi with (hjob | ⟨k, hk, hkc⟩) | hheld
    · exact .inl (.inl hjob)
    · exact .inl (.inr ⟨k, List.mem_append_left _ hk, hkc⟩)
    · exact .inr hheld
  · intro hnone
    exact absurd (hsub.symm.trans hnone) hheard
  · exact List.mem_append_right _ (List.mem_singleton_self _)

theorem marks_of_awaits (h : j.awaits = some id) : j.marks = true := by
  cases j <;> first | rfl | cases h

theorem marks_jobStep {answer : Desktop.Answer} {p : MenuBar × Job} (h : t.jobStep answer j = some p)
    (hj : j.marks = false) : p.2.marks = false := by
  cases j with
  | click | mark | start | look | post | startAll | startNext | starting | lookAgain | postAgain => cases hj
  | done => cases h
  | stop id =>
      rw [MenuBar.jobStep] at h
      obtain ⟨p₁, -, rfl⟩ := Option.map_eq_some_iff.mp h
      rfl
  | calling c =>
      simp only [MenuBar.jobStep, Option.ite_none_right_eq_some, Option.some.injEq] at h
      obtain ⟨-, rfl⟩ := h
      rfl
  | tryBulk b =>
      cases b with
      | startAll | stopAll => cases hj
      | control =>
          cases h
          split <;> rfl
  | tryApply b =>
      cases b with
      | startAll | stopAll => cases hj
      | control =>
          cases h
          split <;> rfl
  | stopAll b loop =>
      cases b with
      | startAll | stopAll => cases hj
      | control =>
          cases loop with
          | returned stragglers =>
              cases h
              rfl
          | pending | decide | sweep | stopping | sleep =>
              unfold MenuBar.jobStep at h
              obtain ⟨p₁, -, rfl⟩ := Option.map_eq_some_iff.mp h
              rfl
  | release b =>
      cases b with
      | startAll | stopAll => cases hj
      | control =>
          cases h
          rfl
  | releaseApply b =>
      cases b with
      | startAll | stopAll => cases hj
      | control =>
          cases h
          rfl

/-- A job moves on that has no start to call, or has called it. -/
theorem tells_setJob (ht : t.Tells) (hk : k < t.nextJob)
    (hawaits : ∀ j id, t.jobs k = some j → j.awaits = some id →
      ∃ c ∈ t.starts, t.sup.world.calls c = some (.start id))
    (hmarks : t.subscriber = none → j'.marks = false) : (t.setJob k j').Tells :=
  { ht with
    tracked := by
      intro id hid
      rcases ht.tracked id hid with (⟨i, j, hj, ha⟩ | hcalled) | hheld
      · by_cases hi : i = k
        · subst hi
          exact .inl (.inr (hawaits j id hj ha))
        · exact .inl (.inl ⟨i, j, (jobs_setJob_of_ne hi).trans hj, ha⟩)
      · exact .inl (.inr hcalled)
      · exact .inr hheld
    newJob := by
      intro i hi
      have hne : i ≠ k := fun heq => absurd hk (Nat.not_lt.mpr (heq ▸ hi))
      rw [jobs_setJob_of_ne hne]
      exact ht.newJob i hi
    deaf := by
      intro hnone
      obtain ⟨hown, hstarts, hdialogs, hjobs⟩ := ht.deaf hnone
      refine ⟨hown, hstarts, hdialogs, fun i j hj => ?_⟩
      rcases setJob_cases hj with ⟨-, rfl⟩ | ⟨-, hj⟩
      · exact hmarks hnone
      · exact hjobs i j hj
    right := ht.right.frame }

/-- A service is marked, by one who will call its start. -/
theorem tells_mark (ht : t.Tells) (hunderWay : t.UnderWay id) : (t.mark id).Tells :=
  { ht with
    ledger := ledgerSound_mark ht.ledger fun i hi => by
      by_cases heq : i = id
      · exact heq ▸ List.mem_cons_self
      · exact List.mem_cons_of_mem _ ((List.mem_erase_of_ne heq).mpr hi)
    tracked := by
      intro i hi
      by_cases heq : i = id
      · exact .inl (heq ▸ hunderWay)
      · have hold : i ∈ t.tracked := by
          rcases List.mem_cons.mp hi with hi | hi
          · exact absurd hi heq
          · exact List.mem_of_mem_erase hi
        rcases ht.tracked i hold with hunder | ⟨r, hr, run, hrun, hid, hheld⟩
        · exact .inl hunder
        · exact .inr ⟨r, hr, run, hrun, hid, ⟨hi, hheld.unseen, owner_tracked hheld.owner⟩⟩
    nodup := List.nodup_cons.mpr ⟨ht.nodup.not_mem_erase, ht.nodup.erase id⟩
    right := ht.right.frame }

/-- **A step of a click or of a bulk action.** -/
theorem tells_jobStep {answer : Desktop.Answer} {p : MenuBar × Job} (ht : t.Tells)
    (hj : t.jobs k = some j) (h : t.jobStep answer j = some p) : (p.1.setJob k p.2).Tells := by
  have hk : k < t.nextJob := by
    by_contra hle
    rw [ht.newJob k (Nat.le_of_not_lt hle)] at hj
    cases hj
  have hmarks : t.subscriber = none → p.2.marks = false := fun hnone =>
    marks_jobStep h ((ht.deaf hnone).2.2.2 k j hj)
  have hheard : ∀ {i}, j.awaits = some i → t.subscriber ≠ none := fun ha hnone => by
    have hquiet := (ht.deaf hnone).2.2.2 k j hj
    rw [marks_of_awaits ha] at hquiet
    cases hquiet
  have hplain : ∀ {t₁ : MenuBar}, t₁.jobs = t.jobs → j.awaits = none →
      ∀ j₁ id, t₁.jobs k = some j₁ → j₁.awaits = some id →
        ∃ c ∈ t₁.starts, t₁.sup.world.calls c = some (.start id) := by
    intro t₁ hjobs hnone j₁ id hj₁ ha
    rw [hjobs, hj] at hj₁
    cases hj₁
    rw [hnone] at ha
    cases ha
  generalize hj' : p.2 = j' at hmarks
  generalize ht' : p.1 = t'
  have hmove := jobStep_cases h
  rw [hj', ht'] at hmove
  cases hmove with
  | own posted bulkLock applyLock hnone hnone' =>
      have hkept : ({ t with posted := posted, bulkLock := bulkLock, applyLock := applyLock } : MenuBar).Tells :=
        { ht with right := ht.right.frame }
      exact tells_setJob hkept hk (hplain rfl hnone) hmarks
  | mark id hnone hawaits =>
      have hset := tells_setJob ht hk (hplain rfl hnone) hmarks
      exact tells_mark hset (.inl ⟨k, j', jobs_setJob_self, hawaits⟩)
  | stop id hcall hnone hnone' =>
      obtain ⟨ht₁, hjobs, hnext, hsub, -⟩ := tells_call ht hcall
      exact tells_setJob ht₁ (hnext ▸ hk) (hplain hjobs hnone) fun hdeaf => hmarks (hsub ▸ hdeaf)
  | start id hcall ha hnone' =>
      obtain ⟨ht₁, hjobs, hnext, hsub, hcalled⟩ := tells_callStart ht (hheard ha) hcall
      refine tells_setJob ht₁ (hnext ▸ hk) ?_ fun hdeaf => hmarks (hsub ▸ hdeaf)
      intro j₁ i hj₁ ha₁
      rw [hjobs, hj] at hj₁
      cases hj₁
      rw [ha] at ha₁
      cases ha₁
      exact hcalled

/-! ### The subscriber -/

theorem resolves_stateChanged {state : ServiceState} {detail : Option String} (h : state ≠ .starting) :
    resolves id (.stateChanged id state detail) = true := by
  simp [resolves, h]

/-- **A mark is there** when an event resolves it exactly if the event is of a run of the
tray that was not seen running or stopped. -/
theorem tracked_iff_ownStart {exit : Option Int} {tail : List String} {detail : Option String}
    (ht : t.Tells) (hunder : id ∈ t.tracked → ¬ t.UnderWay id)
    (he : t.sup.world.events[t.handled]? = some (.stateChanged id (.failed exit tail) detail)) :
    id ∈ t.tracked ↔ t.OwnStart t.handled := by
  have htold : t.ledger.Says t.handled id := ⟨_, he, resolves_stateChanged nofun⟩
  constructor
  · intro hid
    rcases ht.tracked id hid with hunderWay | ⟨r, hr, run, hrun, hrid, hheld⟩
    · exact absurd hunderWay (hunder hid)
    · refine ⟨r, hr, signed_of_held htold hheld, ?_⟩
      intro m hm hsigned id' state detail' he'
      obtain ⟨run', hrun', hid'⟩ := ht.ledger.signed.run m r _ hsigned he'
      have hrun'' : t.sup.world.runs r = some run' := hrun'
      rw [hrun] at hrun''
      cases hrun''
      have hsame : id' = id := (hid' rfl).trans hrid
      subst hsame
      have hunseen := hheld.unseen m hm hsigned
      constructor
      · rintro rfl
        exact hunseen ⟨_, he', resolves_stateChanged nofun⟩
      · rintro rfl
        exact hunseen ⟨_, he', resolves_stateChanged nofun⟩
  · rintro ⟨r, hr, hsigned, hbefore⟩
    obtain ⟨run, hrun, hcase⟩ := ht.ledger.own r hr
    obtain ⟨run', hrun', hid'⟩ := ht.ledger.signed.run t.handled r _ hsigned he
    rw [hrun] at hrun'
    cases hrun'
    have hrid : id = run.id := hid' rfl
    rcases hcase with hheld | ⟨m, hm, hsigned', e, he', hres⟩
    · exact hrid ▸ hheld.tracked
    · -- what has resolved it was its failure, and nothing of the run follows that
      exfalso
      cases e with
      | registered | unregistered | log => cases hres
      | stateChanged id' state detail' =>
          obtain ⟨-, hstate⟩ := of_decide_eq_true hres
          obtain ⟨hrunning, hstopped⟩ := hbefore m hm hsigned' id' state detail' he'
          have hlast : Event.isLast (.stateChanged id' state detail') = true := by
            cases state with
            | failed => rfl
            | starting => exact absurd rfl hstate
            | running => exact absurd rfl hrunning
            | stopped => exact absurd rfl hstopped
          have hnone := (ht.ledger.signed.last m r _ hsigned' he' hlast).2 t.handled hm _ hsigned he
          cases hnone

/-- The subscriber goes on, past the same events. -/
theorem tells_setSubscriber {s s' : Subscriber} (ht : t.Tells) (hs : t.subscriber = some s)
    (hhandled : s'.handled = s.handled) (hrx : s'.rx ≤ t.sup.world.events.length)
    (hheard : ∀ rx id state, (s' = .name rx id state ∨ ∃ name, s' = .resolve rx id state name) →
      0 < rx ∧ ∃ detail, t.sup.world.events[rx - 1]? = some (.stateChanged id state detail)) :
    ({ t with subscriber := some s' } : MenuBar).Tells := by
  have hsame : ({ t with subscriber := some s' } : MenuBar).handled = t.handled := by
    simp only [MenuBar.handled, hs, Option.map_some, Option.getD_some, hhandled]
  have hledger : ({ t with subscriber := some s' } : MenuBar).ledger = t.ledger := by
    rw [MenuBar.ledger, MenuBar.ledger, hsame]
  refine { ht with
    ledger := hledger ▸ ht.ledger
    rx := ?_
    heard := ?_
    tracked := ?_
    deaf := fun hnone => by cases hnone
    right := ?_ }
  · intro s₁ heq
    cases heq
    exact hrx
  · intro rx id state heq
    refine hheard rx id state ?_
    rcases heq with heq | ⟨name, heq⟩
    · exact .inl (Option.some.inj heq)
    · exact .inr ⟨name, Option.some.inj heq⟩
  · intro id hid
    rw [hledger]
    exact ht.tracked id hid
  · refine ⟨fun n hn => ?_, fun d hd => ?_, ht.right.once⟩
    · rw [hsame] at hn
      exact ht.right.shown n hn
    · rw [hsame]
      exact ht.right.failed d hd

/-- **The subscriber goes on past an event**, with what it makes of the marks and the dialogs. -/
theorem tells_pastEvent {s' : Subscriber} {e : Event} {tracked : List ServiceId} {dialogs : List Dialog}
    (ht : t.Tells) (hhandled : s'.handled = t.handled + 1)
    (he : t.sup.world.events[t.handled]? = some e) (hrx : s'.rx = t.handled + 1)
    (hheard : ∀ rx id state, s' ≠ .name rx id state ∧ ∀ name, s' ≠ .resolve rx id state name)
    (hledger : (t.ledger.handle tracked).Sound) (hnodup : tracked.Nodup)
    (htracked : ∀ id ∈ tracked, id ∈ t.tracked ∧ ¬ t.ledger.Says t.handled id)
    (hright : ({ t with tracked := tracked, dialogs := dialogs, subscriber := some s' } :
      MenuBar).DialogsRight) :
    ({ t with tracked := tracked, dialogs := dialogs, subscriber := some s' } : MenuBar).Tells := by
  have hsame : ({ t with tracked := tracked, dialogs := dialogs, subscriber := some s' } :
      MenuBar).ledger = t.ledger.handle tracked := by
    have hnow : ({ t with tracked := tracked, dialogs := dialogs, subscriber := some s' } :
        MenuBar).handled = t.handled + 1 := hhandled
    rw [MenuBar.ledger, hnow]
    rfl
  refine { ht with
    ledger := hsame ▸ hledger
    rx := ?_
    heard := ?_
    tracked := ?_
    nodup := hnodup
    deaf := fun hnone => by cases hnone
    right := hright }
  · intro s₁ heq
    cases heq
    rw [hrx]
    exact (List.getElem?_eq_some_iff.mp he).1
  · intro rx id state heq
    rcases heq with heq | ⟨name, heq⟩
    · exact absurd (Option.some.inj heq) (hheard rx id state).1
    · exact absurd (Option.some.inj heq) ((hheard rx id state).2 name)
  · intro id hid
    rw [hsame]
    obtain ⟨hold, hnot⟩ := htracked id hid
    rcases ht.tracked id hold with hunder | ⟨r, hr, run, hrun, hrid, hheld⟩
    · exact .inl hunder
    · exact .inr ⟨r, hr, run, hrun, hrid, held_skip hnot hid hheld⟩

/-- Past an event that resolves nothing. -/
theorem tells_pastOther {s' : Subscriber} {e : Event} (ht : t.Tells)
    (hhandled : s'.handled = t.handled + 1) (he : t.sup.world.events[t.handled]? = some e)
    (hrx : s'.rx = t.handled + 1) (hnot : ∀ id, resolves id e = false)
    (hheard : ∀ rx id state, s' ≠ .name rx id state ∧ ∀ name, s' ≠ .resolve rx id state name) :
    ({ t with subscriber := some s' } : MenuBar).Tells := by
  have hquiet : ∀ id, ¬ t.ledger.Says t.handled id := by
    rintro id ⟨e', he', hres⟩
    have he'' : t.sup.world.events[t.handled]? = some e' := he'
    rw [he] at he''
    cases he''
    rw [hnot id] at hres
    cases hres
  refine tells_pastEvent ht hhandled he hrx hheard (ledgerSound_skip ht.ledger ?_ hquiet) ht.nodup
    (fun id hid => ⟨hid, hquiet id⟩) ⟨?_, ?_, ht.right.once⟩
  · exact (List.getElem?_eq_some_iff.mp he).1
  · intro n hn hat
    have hlt : n < t.handled + 1 := hhandled ▸ hn
    rcases Nat.lt_succ_iff_lt_or_eq.mp hlt with hlt | rfl
    · exact ht.right.shown n hlt hat
    · obtain ⟨id, exit, tail, detail, hfailed⟩ := hat
      exact absurd ⟨_, hfailed, resolves_stateChanged nofun⟩ (hquiet id)
  · intro d hd
    obtain ⟨hlt, hat⟩ := ht.right.failed d hd
    have hgrown : d.event < s'.handled := by
      rw [hhandled]
      exact Nat.lt_succ_of_lt hlt
    exact ⟨hgrown, hat⟩

/-- The dialogs after an event was resolved: there is one more if it is a failure of a service
with a mark. -/
theorem dialogs_resolve {state : ServiceState} {name : String} {d : Dialog}
    (hd : d ∈ (t.resolve n id state name).dialogs) :
    d ∈ t.dialogs ∨ d.event = n ∧ id ∈ t.tracked ∧ ∃ exit tail, state = .failed exit tail := by
  rcases List.mem_append.mp hd with hd | hd
  · exact .inl hd
  · cases state with
    | starting | running | stopped => cases hd
    | failed exit tail =>
        by_cases hid : id ∈ t.tracked
        · simp only [hid, if_true, Option.map_some, Option.toList_some, List.mem_singleton] at hd
          exact .inr ⟨by rw [hd], hid, exit, tail, rfl⟩
        · simp [hid] at hd

theorem shown_resolve {exit : Option Int} {tail : List String} {name : String} (hid : id ∈ t.tracked) :
    ∃ d ∈ (t.resolve n id (.failed exit tail) name).dialogs, d.event = n := by
  have hdialogs : (t.resolve n id (.failed exit tail) name).dialogs =
      t.dialogs ++ [⟨(failureDialogText name exit tail).1, (failureDialogText name exit tail).2, n⟩] := by
    simp [MenuBar.resolve, dialogForTransition, hid]
  rw [hdialogs]
  exact ⟨_, List.mem_append_right _ (List.mem_singleton_self _), rfl⟩

/-- A run fails once. -/
theorem failed_once {m : Nat} {r : RunId} (hsigned : Proc.Signed t.sup.world t.sources) (hm : t.FailedAt m)
    (hn : t.FailedAt n) (hrm : SignedBy t.sources m r) (hrn : SignedBy t.sources n r) : ¬ m < n := by
  intro hlt
  obtain ⟨id, exit, tail, detail, hm⟩ := hm
  obtain ⟨id', exit', tail', detail', hn⟩ := hn
  have hquiet := (hsigned.last m r _ hrm hm rfl).2 n hlt _ hrn hn
  cases hquiet

/-- What is claimed of the dialogs, past an event that resolves a mark. -/
theorem right_resolve {rx : Nat} {state : ServiceState} {name : String} (ht : t.Tells)
    (hs : t.subscriber = some (.resolve rx id state name)) (hunder : id ∈ t.tracked → ¬ t.UnderWay id) :
    ({ t with
        tracked := t.tracked.erase id
        dialogs := (t.resolve t.handled id state name).dialogs
        subscriber := some (.look rx) } : MenuBar).DialogsRight := by
  obtain ⟨hpos, detail, he⟩ := ht.heard rx id state (.inr ⟨name, hs⟩)
  have hhandled : t.handled = rx - 1 := by
    simp [MenuBar.handled, hs, Subscriber.handled]
  have hrx : rx = t.handled + 1 := by omega
  rw [← hhandled] at he
  have hfailedAt : ∀ {exit tail}, state = .failed exit tail → t.FailedAt t.handled := by
    rintro exit tail rfl
    exact ⟨id, exit, tail, detail, he⟩
  have hmark : ∀ {exit tail}, state = .failed exit tail → (id ∈ t.tracked ↔ t.OwnStart t.handled) := by
    rintro exit tail rfl
    exact tracked_iff_ownStart ht hunder he
  have hnone : ∀ d ∈ t.dialogs, d.event ≠ t.handled := fun d hd =>
    Nat.ne_of_lt (ht.right.failed d hd).1
  refine ⟨?_, ?_, ?_⟩
  · intro m hm hat
    have hm' : m < rx := hm
    rw [hrx] at hm'
    rcases Nat.lt_succ_iff_lt_or_eq.mp hm' with hlt | rfl
    · refine Iff.trans ?_ (ht.right.shown m hlt hat)
      constructor
      · rintro ⟨d, hd, rfl⟩
        rcases dialogs_resolve hd with hd | ⟨heq, -⟩
        · exact ⟨d, hd, rfl⟩
        · exact absurd heq (Nat.ne_of_lt hlt)
      · rintro ⟨d, hd, rfl⟩
        exact ⟨d, List.mem_append_left _ hd, rfl⟩
    · obtain ⟨id', exit, tail, detail', hfailed⟩ := hat
      have hfailed' : t.sup.world.events[t.handled]? =
          some (.stateChanged id' (.failed exit tail) detail') := hfailed
      rw [he] at hfailed'
      cases hfailed'
      refine Iff.trans ?_ (hmark rfl)
      constructor
      · rintro ⟨d, hd, heq⟩
        have hd' : d ∈ (t.resolve t.handled id (.failed exit tail) name).dialogs := hd
        rcases dialogs_resolve hd' with hd | ⟨-, hid, -⟩
        · exact absurd heq (hnone d hd)
        · exact hid
      · intro hid
        exact shown_resolve hid
  · intro d hd
    show d.event < rx ∧ t.FailedAt d.event
    rcases dialogs_resolve hd with hd | ⟨heq, -, exit, tail, hstate⟩
    · obtain ⟨hlt, hat⟩ := ht.right.failed d hd
      exact ⟨by omega, hat⟩
    · rw [heq]
      exact ⟨by omega, hfailedAt hstate⟩
  · show (List.map (fun d => t.sources[d.event]?) (t.resolve t.handled id state name).dialogs).Nodup
    rw [MenuBar.resolve, List.map_append, List.nodup_append]
    refine ⟨ht.right.once, ?_, ?_⟩
    · rw [← Option.toList_map, Option.map_map]
      exact Option.toList_nodup _
    · intro a ha b hb heq
      obtain ⟨d, hd, rfl⟩ := List.mem_map.mp ha
      obtain ⟨d', hd', rfl⟩ := List.mem_map.mp hb
      have hnew : d' ∈ (t.resolve t.handled id state name).dialogs := List.mem_append_right _ hd'
      have hevent : d'.event = t.handled := by
        obtain ⟨text, -, rfl⟩ := Option.map_eq_some_iff.mp (Option.mem_toList.mp hd')
        rfl
      obtain ⟨hlt, hat⟩ := ht.right.failed d hd
      rcases dialogs_resolve hnew with hold | ⟨-, hid, exit, tail, hstate⟩
      · exact hnone d' hold hevent
      · -- the run would have failed before
        obtain ⟨r, -, hsigned, -⟩ := (hmark hstate).mp hid
        rw [hevent] at heq
        exact failed_once ht.ledger.signed hat (hfailedAt hstate) (heq.trans hsigned) hsigned hlt

/-- **Past an event that resolves a mark**, with the dialog that it owes. -/
theorem tells_resolve {rx : Nat} {state : ServiceState} {name : String} (ht : t.Tells)
    (hs : t.subscriber = some (.resolve rx id state name))
    (hunder : state ≠ .starting → id ∈ t.tracked → ¬ t.UnderWay id) :
    ({ t.resolve (rx - 1) id state name with subscriber := some (.look rx) } : MenuBar).Tells := by
  obtain ⟨hpos, detail, he⟩ := ht.heard rx id state (.inr ⟨name, hs⟩)
  have hhandled : t.handled = rx - 1 := by
    simp [MenuBar.handled, hs, Subscriber.handled]
  have hrx : rx = t.handled + 1 := by omega
  have hother : ∀ r i st, Subscriber.look rx ≠ .name r i st ∧ ∀ name, Subscriber.look rx ≠ .resolve r i st name :=
    fun _ _ _ => ⟨nofun, fun _ => nofun⟩
  rw [← hhandled] at he ⊢
  by_cases hstarting : state = .starting
  · subst hstarting
    have hsame : t.resolve t.handled id .starting name = t := by
      simp [MenuBar.resolve, dialogForTransition]
    rw [hsame]
    exact tells_pastOther ht hrx he hrx (fun i => by simp [resolves]) hother
  · have htold : t.ledger.Says t.handled id := ⟨_, he, resolves_stateChanged hstarting⟩
    have hshape : t.resolve t.handled id state name =
        { t with
          tracked := t.tracked.erase id
          dialogs := (t.resolve t.handled id state name).dialogs } := by
      cases state <;> first | rfl | exact absurd rfl hstarting
    rw [hshape]
    refine tells_pastEvent (t := t) ht hrx he hrx hother (ledgerSound_resolve ht.ledger htold)
      (ht.nodup.erase id) ?_ (right_resolve ht hs (hunder hstarting))
    intro i hi
    obtain ⟨hne, hold⟩ := ht.nodup.mem_erase_iff.mp hi
    refine ⟨hold, ?_⟩
    rintro ⟨e', he', hres⟩
    have he'' : t.sup.world.events[t.handled]? = some e' := he'
    rw [he] at he''
    cases he''
    exact hne (id_of_resolves hres).symm

/-- **A step of the subscriber.** -/
theorem tells_subscriberStep {s : Subscriber} {p : MenuBar × Subscriber} (ht : t.Tells)
    (hs : t.subscriber = some s) (hok : Undisturbed t .subscriber) (h : t.subscriberStep s = some p) :
    ({ p.1 with subscriber := some p.2 } : MenuBar).Tells := by
  have hle := ht.rx s hs
  have hhandled : t.handled = s.handled := by simp [MenuBar.handled, hs]
  cases s with
  | recv rx =>
      simp only [MenuBar.subscriberStep] at h
      split at h
      next event rx' hrecv =>
        cases h
        obtain ⟨he, rfl⟩ := recv_eq_event hrecv
        obtain ⟨hlt, -⟩ := List.getElem?_eq_some_iff.mp he
        have hnext : rx + 1 = t.handled + 1 := congrArg (· + 1) hhandled.symm
        have he' : t.sup.world.events[t.handled]? = some event := hhandled ▸ he
        cases event with
        | stateChanged id state detail =>
            refine tells_setSubscriber ht hs rfl hlt ?_
            rintro rx' id' state' (heq | ⟨name, heq⟩)
            · cases heq
              exact ⟨Nat.succ_pos _, detail, he⟩
            · cases heq
        | registered status =>
            exact tells_pastOther ht hnext he' hnext (fun _ => rfl) fun _ _ _ =>
              ⟨by rintro ⟨⟩, by rintro _ ⟨⟩⟩
        | unregistered id =>
            exact tells_pastOther ht hnext he' hnext (fun _ => rfl) fun _ _ _ =>
              ⟨by rintro ⟨⟩, by rintro _ ⟨⟩⟩
        | log id line =>
            exact tells_pastOther ht hnext he' hnext (fun _ => rfl) fun _ _ _ =>
              ⟨by rintro ⟨⟩, by rintro _ ⟨⟩⟩
      next rx' hrecv =>
        -- the subscriber does not lag
        have hnear := hok.1 rx hs
        unfold Desktop.recv at hrecv
        rw [if_neg (Nat.not_lt.mpr hnear)] at hrecv
        split at hrecv <;> cases hrecv
      next => cases h
  | name rx id state =>
      cases h
      refine tells_setSubscriber ht hs rfl hle ?_
      rintro rx' id' state' (heq | ⟨name, heq⟩)
      · cases heq
      · cases heq
        exact ht.heard rx id state (.inl hs)
  | resolve rx id state name =>
      cases h
      exact tells_resolve ht hs (hok.2 rx id state name hs)
  | look rx =>
      cases h
      refine tells_setSubscriber ht hs rfl hle ?_
      rintro rx' id state (heq | ⟨name, heq⟩) <;> cases heq
  | post rx look =>
      cases h
      have hposted : (t.refreshTrayIfBuilt look).Tells ∧
          (t.refreshTrayIfBuilt look).subscriber = t.subscriber ∧
            (t.refreshTrayIfBuilt look).sup = t.sup := by
        unfold MenuBar.refreshTrayIfBuilt
        split
        · exact ⟨ht, rfl, rfl⟩
        · exact ⟨{ ht with right := ht.right.frame }, rfl, rfl⟩
      obtain ⟨ht₁, hsub, hsup⟩ := hposted
      refine tells_setSubscriber ht₁ (hsub.trans hs) rfl ?_ ?_
      · rw [hsup]
        exact hle
      · rintro rx' id state (heq | ⟨name, heq⟩) <;> cases heq

/-- The subscription: nothing is marked yet. -/
theorem tells_subscribe (ht : t.Tells) (hnone : t.subscriber = none) :
    ({ t with subscriber := some (.recv t.sup.world.events.length) } : MenuBar).Tells := by
  obtain ⟨hown, hstarts, hdialogs, hjobs⟩ := ht.deaf hnone
  have hunder : ∀ id, ¬ t.UnderWay id := by
    rintro id (⟨k, j, hj, hawaits⟩ | ⟨k, hk, -⟩)
    · have hquiet := hjobs k j hj
      rw [marks_of_awaits hawaits] at hquiet
      cases hquiet
    · rw [hstarts] at hk
      cases hk
  refine { ht with
    ledger := ⟨ht.ledger.signed, Nat.le_refl _, fun r hr => ?_⟩
    rx := fun s heq => ?_
    heard := fun rx id state heq => ?_
    tracked := fun id hid => ?_
    deaf := fun heq => by cases heq
    right := ⟨fun n hn hat => ?_, fun d hd => ?_, ht.right.once⟩ }
  · have hr' : r ∈ t.own := hr
    rw [hown] at hr'
    cases hr'
  · cases heq
    exact Nat.le_refl _
  · rcases heq with heq | ⟨name, heq⟩ <;> cases heq
  · rcases ht.tracked id hid with hunderWay | ⟨r, hr, -⟩
    · exact absurd hunderWay (hunder id)
    · rw [hown] at hr
      cases hr
  · constructor
    · rintro ⟨d, hd, -⟩
      have hd' : d ∈ t.dialogs := hd
      rw [hdialogs] at hd'
      cases hd'
    · rintro ⟨r, hr, -⟩
      have hr' : r ∈ t.own := hr
      rw [hown] at hr'
      cases hr'
  · have hd' : d ∈ t.dialogs := hd
    rw [hdialogs] at hd'
    cases hd'

theorem tells_addJob (ht : t.Tells) (hmarks : t.subscriber = none → j.marks = false) :
    (t.addJob j).Tells := by
  have hnext : ({ t with nextJob := t.nextJob + 1 } : MenuBar).Tells :=
    { ht with newJob := fun i hi => ht.newJob i (Nat.le_of_succ_le hi), right := ht.right.frame }
  refine tells_setJob hnext (Nat.lt_succ_self _) ?_ hmarks
  intro j₁ id hj₁
  have hold : t.jobs t.nextJob = some j₁ := hj₁
  rw [ht.newJob _ (Nat.le_refl _)] at hold
  cases hold

/-- **What every undisturbed step keeps.** -/
theorem tells_next {turn : Turn} (ht : t.Tells) (hok : Undisturbed t turn) (h : t.next turn = some t') :
    t'.Tells := by
  cases turn with
  | supervisor action => exact tells_step ht hok.1 hok.2 h
  | build =>
      simp only [MenuBar.next] at h
      split at h
      · cases h
        exact { ht with right := ht.right.frame }
      · cases h
  | subscribe =>
      simp only [MenuBar.next] at h
      split at h
      next _ hnone =>
        cases h
        exact tells_subscribe ht hnone
      next => cases h
  | subscriber =>
      obtain ⟨s, hs, h⟩ := Option.bind_eq_some_iff.mp h
      obtain ⟨p, hstep, h⟩ := Option.bind_eq_some_iff.mp h
      cases h
      exact tells_subscriberStep ht hs hok hstep
  | main i =>
      obtain ⟨look, -, h⟩ := Option.bind_eq_some_iff.mp h
      obtain ⟨hd, -, h⟩ := Option.bind_eq_some_iff.mp h
      cases h
      exact { ht with right := ht.right.frame }
  | click id =>
      simp only [MenuBar.next, Option.ite_none_right_eq_some, Option.some.injEq] at h
      obtain ⟨hsub, rfl⟩ := h
      refine tells_addJob ht fun hnone => ?_
      rw [hnone] at hsub
      cases hsub
  | bulk b =>
      simp only [MenuBar.next, Option.ite_none_right_eq_some, Option.some.injEq] at h
      obtain ⟨hsub, rfl⟩ := h
      refine tells_addJob ht fun hnone => ?_
      rcases hsub with rfl | hsub
      · rfl
      · rw [hnone] at hsub
        cases hsub
  | job k answer =>
      obtain ⟨j, hj, h⟩ := Option.bind_eq_some_iff.mp h
      obtain ⟨p, hstep, h⟩ := Option.bind_eq_some_iff.mp h
      cases h
      exact tells_jobStep ht hj hstep
  | lockApply =>
      simp only [MenuBar.next, Option.ite_none_left_eq_some, Option.some.injEq] at h
      obtain ⟨-, rfl⟩ := h
      exact { ht with right := ht.right.frame }
  | unlockApply =>
      simp only [MenuBar.next, Option.ite_none_right_eq_some, Option.some.injEq] at h
      obtain ⟨-, rfl⟩ := h
      exact { ht with right := ht.right.frame }

theorem tells_of_initial (h : t.Initial) : t.Tells := by
  have hreach : Proc.supervisor.Reachable t.sup.world := .init h.world
  have hhandled : t.handled = 0 := by simp [MenuBar.handled, h.subscriber]
  have hdialogs : ∀ d, d ∉ t.dialogs := fun d hd => by
    rw [h.dialogs] at hd
    cases hd
  refine
    { proc := Proc.sound_of_reachable hreach
      calls := fun k _ => h.world.2.2.1 k
      sync := (Proc.inSync_of_reaches (.init h.world)).1
      ledger := ⟨?_, ?_, fun r hr => ?_⟩
      rx := fun s hs => by rw [h.subscriber] at hs; cases hs
      heard := fun rx id state heq => ?_
      tracked := fun id hid => by rw [h.tracked] at hid; cases hid
      nodup := by rw [h.tracked]; exact List.nodup_nil
      newJob := fun k _ => h.jobs k
      deaf := fun _ => ⟨h.own, h.starts, h.dialogs, fun k j hj => by rw [h.jobs k] at hj; cases hj⟩
      right := ⟨fun n hn => ?_, fun d hd => absurd hd (hdialogs d), by rw [h.dialogs]; exact List.nodup_nil⟩ }
  · show Proc.Signed t.sup.world t.sources
    rw [h.sources]
    exact Proc.signed_of_initial h.world
  · show t.handled ≤ _
    rw [hhandled]
    exact Nat.zero_le _
  · have hr' : r ∈ t.own := hr
    rw [h.own] at hr'
    cases hr'
  · rcases heq with heq | ⟨name, heq⟩
    · rw [h.subscriber] at heq
      cases heq
    · rw [h.subscriber] at heq
      cases heq
  · rw [hhandled] at hn
    cases hn

/-- **The dialogs are those of the tray's own starts** in every run whose steps are all
undisturbed. -/
theorem dialogs_right (h : tray.Reaches Undisturbed t) : t.DialogsRight := by
  have ht : t.Tells :=
    h.invariant (fun _ => tells_of_initial) fun _ _ _ ht hok hn => tells_next ht hok hn
  exact ht.right

/-! ### Runs -/

namespace MenuBar

variable (t : MenuBar)

/-- A check that no service is about to be started. -/
def underWayNow (id : ServiceId) : Bool :=
  ((List.range t.nextJob).any fun k => (t.jobs k).any fun j => decide (j.awaits = some id)) ||
    t.starts.any fun k =>
      match t.sup.world.calls k with
      | some (.start i) => decide (i = id)
      | _ => false

/-- A check that nothing is left that would resolve a mark. -/
def openNow (id : ServiceId) : Bool :=
  ((t.sup.world.events.drop t.handled).any (resolves id)) || !t.sup.world.quietNow

end MenuBar

/-- A check for `Undisturbed`. -/
def undisturbedNow (t : MenuBar) : Turn → Bool
  | .supervisor action => t.sup.world.orderlyNow action &&
      match action with
      | .caller k =>
          match t.sup.world.calls k with
          | some (.start id) => t.starts.all (· ≠ k) ||
              (t.sup.world.idleAt id && decide (id ∈ t.tracked) && !t.openNow id)
          | _ => true
      | _ => true
  | .subscriber =>
      match t.subscriber with
      | some (.recv rx) => decide (t.sup.world.events.length ≤ rx + Desktop.broadcastCapacity)
      | some (.resolve _ id _ _) => !t.underWayNow id
      | _ => true
  | _ => true

theorem openNow_of_open (ht : t.Named) (h : t.ledger.Open id) : t.openNow id = true := by
  rw [MenuBar.openNow, Bool.or_eq_true]
  rcases h with ⟨n, hn, e, he, hres⟩ | ⟨b, e, he, -⟩
  · left
    rw [List.any_eq_true]
    refine ⟨e, List.mem_iff_getElem?.mpr ⟨n - t.handled, ?_⟩, hres⟩
    have hat : t.handled + (n - t.handled) = n := Nat.add_sub_cancel' hn
    rw [List.getElem?_drop, hat]
    exact he
  · right
    rw [Bool.not_eq_true']
    by_contra hquiet
    have hsettled := Proc.settled_of_quietNow ht.proc ht.calls (by simpa using hquiet) b
    have he' : e ∈ t.sup.world.owes b := he
    rw [hsettled] at he'
    cases he'

theorem underWayNow_of_underWay (ht : t.Named) (h : t.UnderWay id) : t.underWayNow id = true := by
  rw [MenuBar.underWayNow, Bool.or_eq_true]
  rcases h with ⟨k, j, hj, hawaits⟩ | ⟨k, hk, hc⟩
  · left
    have hlt : k < t.nextJob := by
      by_contra hle
      rw [ht.newJob k (Nat.le_of_not_lt hle)] at hj
      cases hj
    rw [List.any_eq_true]
    exact ⟨k, List.mem_range.mpr hlt, by simp [hj, hawaits]⟩
  · right
    rw [List.any_eq_true]
    exact ⟨k, hk, by simp [hc]⟩

theorem undisturbed_of_undisturbedNow {turn : Turn} (ht : t.Named) (h : undisturbedNow t turn = true) :
    Undisturbed t turn := by
  cases turn with
  | supervisor action =>
      obtain ⟨horderly, hall⟩ := Bool.and_eq_true_iff.mp h
      refine ⟨Proc.orderly_of_orderlyNow ht.proc ht.calls horderly, ?_⟩
      rintro k hk id rfl hc
      simp only [hc] at hall
      rcases Bool.or_eq_true_iff.mp hall with hother | hstart
      · have hne := List.all_eq_true.mp hother k hk
        simp at hne
      simp only [Bool.and_eq_true, decide_eq_true_eq, Bool.not_eq_true'] at hstart
      obtain ⟨⟨hidle, htracked⟩, hclosed⟩ := hstart
      refine ⟨hidle, htracked, fun hopen => ?_⟩
      rw [openNow_of_open ht hopen] at hclosed
      cases hclosed
  | subscriber =>
      refine ⟨fun rx hs => ?_, fun rx id state name hs _ _ hunder => ?_⟩
      · simpa [undisturbedNow, hs] using h
      · have hnot : t.underWayNow id = false := by simpa [undisturbedNow, hs] using h
        rw [underWayNow_of_underWay ht hunder] at hnot
        cases hnot
  | build | subscribe | main | click | bulk | job | lockApply | unlockApply => trivial

/-- The program of the service is not there. -/
def spawnFails : List Proc.Action :=
  .task 0 (.spawnError "not found") :: List.replicate 7 (.task 0 .go) ++
    [.task 0 (.removed true), .task 0 .go, .task 0 .go]

/-- A click starts the service, and the subscriber hears that it has failed. -/
def failedClick : List Turn :=
  builtTray ++ [.click "web"] ++ jobSteps 0 3 ++ List.replicate 5 (.supervisor (.caller 1)) ++
    spawnFails.map .supervisor ++ List.replicate 11 .subscriber

theorem dialogs_right_failed :
    ∃ t : MenuBar, t.own = [0] ∧ t.dialogs.length = 1 ∧ t.DialogsRight := by
  obtain ⟨t, hreach, -, hp⟩ := Lts.System.exists_of_execWhile (S := tray) (I := MenuBar.Named)
    undisturbedNow failedClick (fun t => decide (t.own = [0]) && decide (t.dialogs.length = 1))
    (fun _ _ _ ht hn => named_next ht hn) (fun _ _ => undisturbed_of_undisturbedNow) (.init initial_unbuilt)
    named_unbuilt (by decide +kernel)
  simp only [Bool.and_eq_true, decide_eq_true_eq] at hp
  exact ⟨t, hp.1, hp.2, dialogs_right hreach⟩

/-- A click takes its snapshot, and another client starts the service before the click does.
The subscriber is past that when the click marks the service; the child fails later. -/
def foreignStart : List Turn :=
  builtTray ++ [.click "web"] ++ jobSteps 0 1 ++ cameUp ++ List.replicate 13 .subscriber ++
    jobSteps 0 2 ++ [.supervisor (.caller 2)] ++ jobSteps 0 1 ++
    (Proc.upToFailed 0 1).map .supervisor ++ [.supervisor (.task 0 .go)] ++ List.replicate 6 .subscriber

/-- **A failure that is not the tray's**: the tray has made no run, and shows a dialog. -/
theorem foreign_failure : ¬ ∀ t, tray.Reachable t → t.DialogsRight := by
  intro hall
  obtain ⟨t, hreach, hp⟩ := Lts.System.exists_of_exec (S := tray) foreignStart
    (fun t => decide (t.own = []) && decide (t.dialogs ≠ [])) (.init initial_unbuilt) (by decide +kernel)
  simp only [Bool.and_eq_true, decide_eq_true_eq] at hp
  obtain ⟨hown, hdialogs⟩ := hp
  obtain ⟨d, rest, hd⟩ := List.exists_cons_of_ne_nil hdialogs
  have hright := hall t hreach
  have hmem : d ∈ t.dialogs := by
    rw [hd]
    exact List.mem_cons_self
  obtain ⟨hlt, hfailed⟩ := hright.failed d hmem
  obtain ⟨r, hr, -⟩ := (hright.shown d.event hlt hfailed).mp ⟨d, hmem, rfl⟩
  rw [hown] at hr
  cases hr

end Dialogs

end OpenVHost.Tray
