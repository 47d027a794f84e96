/-
# A list and the events after it

A subscriber that also asks for the list of services has rows from two sources. A list
is as new as the moment at which it was taken, whatever the subscriber has read of the
events by then.

* `readOn` — rows, and the events that are read on top of them.
* `Behind` — what they will say once the rest of the events is read.
* `behind_of_rows` — a list is in step wherever the reader stands behind it.
* `behind_next` — a step of the supervisor leaves a reader in step.
-/

import OpenVHost.Async.Feed
import OpenVHost.Desktop.Waited

namespace OpenVHost.Proc

/-! ### Reading on -/

/-- Rows, and events that are read on top of them. -/
def readOn (rows : Rows) (events : List Event) : Rows := events.foldl Event.apply rows

/-- What an event does to one service's row. -/
def Event.update (id : ServiceId) : Event → Option (Async.Update ServiceState)
  | stateChanged i state _ => if i = id then some (.set state) else none
  | log _ _ => none
  | registered status => if status.id = id then some (.put status.state) else none
  | unregistered i => if i = id then some .drop else none

section ReadOn

variable {rows rows' : Rows} {events : List Event} {e : Event} {id : ServiceId}

theorem readOn_append (more : List Event) :
    readOn rows (events ++ more) = readOn (readOn rows events) more := List.foldl_append ..

theorem readOn_log (h : ∀ e ∈ events, e.isState = false) : readOn rows events = rows := by
  induction events generalizing rows with
  | nil => rfl
  | cons e es ih =>
      show readOn (e.apply rows) es = rows
      rw [apply_log (h e List.mem_cons_self)]
      exact ih fun x hx => h x (List.mem_cons_of_mem _ hx)

theorem apply_row (e : Event) :
    e.apply rows id = Async.replay (e.update id).toList (rows id) := by
  cases e with
  | log i line => rfl
  | stateChanged i state detail =>
      by_cases hi : i = id
      · subst hi
        simp [Event.apply, Event.update, Async.replay, Async.Update.apply]
      · simp [Event.apply, Event.update, Async.replay, hi, Ne.symm hi]
  | registered status =>
      by_cases hi : status.id = id
      · subst hi
        simp [Event.apply, Event.update, Async.replay, Async.Update.apply]
      · simp [Event.apply, Event.update, Async.replay, hi, Ne.symm hi]
  | unregistered i =>
      by_cases hi : i = id
      · subst hi
        simp [Event.apply, Event.update, Async.replay, Async.Update.apply]
      · simp [Event.apply, Event.update, Async.replay, hi, Ne.symm hi]

/-- Events act on each row by themselves. -/
theorem readOn_row :
    readOn rows events id = Async.replay (events.filterMap (Event.update id)) (rows id) := by
  induction events generalizing rows with
  | nil => rfl
  | cons e es ih =>
      show readOn (e.apply rows) es id = _
      rw [ih, apply_row]
      cases hu : e.update id <;> simp [Async.replay, hu]

end ReadOn

/-! ### A reader behind the events -/

/-- The rows of a reader that has read the events before the `n`th will be right once it
has read the rest, for a service whose row is in step now or after one event more. -/
structure Behind (w : World) (n : Nat) (rows : Rows) (id : ServiceId) : Prop where
  settled : ¬ w.Pending id → readOn rows (w.events.drop n) id = w.rows id
  pending : ∀ b, ∀ e ∈ w.owes b, e.id = id →
    e.apply (readOn rows (w.events.drop n)) id = w.rows id

section Behind

variable {w w' : World} {a : Action} {n : Nat} {rows : Rows} {id : ServiceId}

theorem replay_split (w : World) (id : ServiceId) (n : Nat) : replay w.events id =
    Async.replay ((w.events.drop n).filterMap (Event.update id)) (replay (w.events.take n) id) := by
  rw [← readOn_row]
  have hsplit : replay w.events = readOn (replay (w.events.take n)) (w.events.drop n) := by
    conv_lhs => rw [← List.take_append_drop n w.events]
    exact readOn_append _
  rw [hsplit]

/-- **A list is in step** wherever the reader stands behind it. -/
theorem behind_of_rows (hsync : InSync w id) (n : Nat) : Behind w n w.rows id := by
  have hsplit := replay_split w id n
  cases hsync with
  | settled hnone hrow =>
      refine ⟨fun _ => ?_, fun b e he hid => absurd ⟨b, e, he, hid⟩ hnone⟩
      rw [readOn_row, ← hrow, hsplit]
      exact Async.replay_twice _ _
  | behind b e hid howes hothers hrow =>
      have hpending : w.Pending id := ⟨b, e, by simp [howes], hid⟩
      refine ⟨fun hnone => absurd hpending hnone, fun b' e' he' hid' => ?_⟩
      have hb : b' = b := by
        by_contra hne
        exact hothers b' hne e' he' hid'
      subst hb
      rw [howes, List.mem_singleton] at he'
      subst he'
      rw [apply_row, readOn_row, ← hrow, apply_row, hsplit]
      cases e'.update id with
      | none =>
          exact Async.replay_twice ((w.events.drop n).filterMap (Event.update id))
            (replay (w.events.take n) id)
      | some u => exact Async.replay_behind _ u _

/-- A reader that has read everything has the rows, once everything is broadcast. -/
theorem Behind.read (h : Behind w n rows id) (hn : w.events.length ≤ n) (hsettled : w.Settled) :
    rows id = w.rows id := by
  have hdrop : w.events.drop n = [] := List.drop_eq_nil_of_le hn
  have hrow := h.settled fun ⟨b, e, he, _⟩ => by
    rw [hsettled b] at he
    cases he
  rwa [hdrop] at hrow

/-- Reading one event. -/
theorem Behind.recv {e : Event} (h : Behind w n rows id) (he : w.events[n]? = some e) :
    Behind w (n + 1) (e.apply rows) id := by
  obtain ⟨hn, rfl⟩ := List.getElem?_eq_some_iff.mp he
  have hdrop : w.events.drop n = w.events[n] :: w.events.drop (n + 1) :=
    List.drop_eq_getElem_cons hn
  have hread : readOn (w.events[n].apply rows) (w.events.drop (n + 1)) =
      readOn rows (w.events.drop n) := by
    rw [hdrop]
    rfl
  exact ⟨fun hnone => by rw [hread]; exact h.settled hnone,
    fun b e' he' hid => by rw [hread]; exact h.pending b e' he' hid⟩

/-- A step that owes nothing else than before broadcasts nothing but lines of logs. -/
theorem silent_events (h : w.next a = some w') (howes : ∀ b, w'.owes b = w.owes b) :
    ∃ l, w'.events = w.events ++ l ∧ ∀ e ∈ l, e.isState = false := by
  have hsame : w'.events = w.events → ∃ l, w'.events = w.events ++ l ∧ ∀ e ∈ l, e.isState = false :=
    fun heq => ⟨[], by rw [heq, List.append_nil], by simp⟩
  -- a state event that is broadcast was owed and is not any more
  have hlog : ∀ {e : Event} {later : List Event}, later = owed e later → e.isState = false := by
    intro e later heq
    by_contra hstate
    rw [Bool.not_eq_false] at hstate
    have hlen := congrArg List.length heq
    simp [owed, hstate] at hlen
  cases next_cases h with
  | call | tick => exact hsame rfl
  | own _ hw _ _ => exact hsame hw.events
  | readerEmit line => exact ⟨[_], rfl, fun e he => by rw [List.mem_singleton.mp he]; rfl⟩
  | @task r run answer _ hr hstep =>
      cases stepTask_cases hstep with
      | quiet hw _ _ => exact hsame hw.events
      | write _ => exact hsame rfl
      | @emit event next ht =>
          refine ⟨[event], rfl, fun e he => ?_⟩
          obtain rfl := List.mem_singleton.mp he
          have hb := howes (.task r)
          rw [World.owes_setRun, if_pos rfl, owes_task hr, ht] at hb
          exact hlog hb
  | @caller k c c' w₁ hc hstep =>
      rcases Proc.stepCall_events hstep with heq | ⟨event, next, rfl, heq⟩
      · exact hsame heq
      · cases hstep
        refine ⟨[event], heq, fun e he => ?_⟩
        obtain rfl := List.mem_singleton.mp he
        have hb := howes (.caller k)
        rw [World.owes_setCall, if_pos rfl, owes_caller hc] at hb
        exact hlog hb

/-- **A step of the supervisor leaves a reader in step.** -/
theorem behind_next (hs : Sound w) (hcalls : CallsFresh w) (hsync : ∀ id, InSync w id)
    (horder : w.Orderly a) (h : w.next a = some w') (hn : n ≤ w.events.length)
    (hb : Behind w n rows id) : Behind w' n rows id := by
  cases next_told hs hcalls h with
  | silent hrows hreplay howes =>
      obtain ⟨l, hevents, hl⟩ := silent_events h howes
      have hread : readOn rows (w'.events.drop n) = readOn rows (w.events.drop n) := by
        rw [hevents, List.drop_append_of_le_length hn, readOn_append, readOn_log hl]
      refine ⟨fun hnone => ?_, fun b e he hid => ?_⟩
      · rw [hread, hrows]
        exact hb.settled fun ⟨b, e, he, hid⟩ => hnone ⟨b, e, howes b ▸ he, hid⟩
      · rw [hread, hrows]
        exact hb.pending b e (howes b ▸ he) hid
  | write b e hwrites hrows hevents hbefore howes =>
      have hfree := horder e.id hwrites
      by_cases hid : id = e.id
      · subst hid
        refine ⟨fun hnone => absurd ⟨b, e, by simp [howes], rfl⟩ hnone, fun c e' he' hid' => ?_⟩
        have hrow := hb.settled hfree
        rw [howes c] at he'
        split at he'
        · obtain rfl := List.mem_singleton.mp he'
          rw [hevents, hrows]
          exact apply_congr hrow
        · exact absurd ⟨c, e', he', hid'⟩ hfree
      · have hrow : w'.rows id = w.rows id := by rw [hrows, apply_of_ne hid]
        refine ⟨fun hnone => ?_, fun c e' he' hid' => ?_⟩
        · rw [hevents, hrow]
          refine hb.settled fun ⟨c, e', he', hid'⟩ => hnone ⟨c, e', ?_, hid'⟩
          rw [howes c]
          split
          next hc =>
            rw [hc, hbefore] at he'
            cases he'
          next => exact he'
        · rw [howes c] at he'
          split at he'
          · obtain rfl := List.mem_singleton.mp he'
            exact absurd hid'.symm hid
          · rw [hevents, hrow]
            exact hb.pending c e' he' hid'
  | emit b e later hrows hevents hbefore howes =>
      have hread : readOn rows (w'.events.drop n) = e.apply (readOn rows (w.events.drop n)) := by
        rw [hevents, List.drop_append_of_le_length hn, readOn_append]
        rfl
      by_cases hid : id = e.id
      · subst hid
        have hrow : readOn rows (w'.events.drop n) e.id = w'.rows e.id := by
          rw [hread, hrows]
          exact hb.pending b e (by simp [hbefore]) rfl
        refine ⟨fun _ => hrow, fun c e' he' hid' => ?_⟩
        -- nothing of this row is pending any more
        cases hsync e.id with
        | settled hnone _ => exact absurd ⟨b, e, by simp [hbefore], rfl⟩ hnone
        | behind b' e₀ _ howe hothers _ =>
            have hb' : b = b' := by
              by_contra hne
              exact hothers b hne e (by simp [hbefore]) rfl
            subst hb'
            rw [hbefore] at howe
            cases howe
            rw [howes c] at he'
            split at he'
            · cases he'
            next hc => exact absurd hid' (hothers c hc e' he')
      · have hrow : readOn rows (w'.events.drop n) id = readOn rows (w.events.drop n) id := by
          rw [hread, apply_of_ne hid]
        refine ⟨fun hnone => ?_, fun c e' he' hid' => ?_⟩
        · rw [hrow, hrows]
          refine hb.settled fun ⟨c, e', he', hid'⟩ => hnone ⟨c, e', ?_, hid'⟩
          rw [howes c]
          split
          next hc =>
            rw [hc, hbefore] at he'
            rcases List.mem_cons.mp he' with rfl | he'
            · exact absurd hid'.symm hid
            · exact he'
          next => exact he'
        · subst hid'
          rw [apply_congr hrow, hrows]
          refine hb.pending c e' ?_ rfl
          rw [howes c] at he'
          split at he'
          next hc =>
            rw [hc, hbefore]
            exact List.mem_cons_of_mem _ he'
          next => exact he'

end Behind

end OpenVHost.Proc
