/-
# Marks and the events that resolve them

A mark says that the tray is starting a service; the next event that has the service
`Running`, `Stopped` or `Failed` resolves it. Such an event names the service only. What
is kept here beside the marks is which run each event is of and which runs are the tray's
own, and how far the subscriber is.

* `Ledger` — the events with their runs, the tray's runs, the marks, the events handled.
* `Owner` — the next event that resolves a mark is the run's, or will be.
* `held_next`, `held_made` — steps of the supervisor leave a run its mark.
* `held_skip`, `resolved` — handling an event.
-/

import OpenVHost.Tray.Refresh

namespace OpenVHost.Tray

open Proc (ServiceId ServiceState RunId CallId Event World SignedBy)

/-- The event has the service up, stopped or failed. -/
def resolves (id : ServiceId) : Event → Bool
  | .stateChanged changed state _ => decide (changed = id ∧ state ≠ .starting)
  | .registered _ | .unregistered _ | .log _ _ => false

theorem id_of_resolves {id : ServiceId} {e : Event} (h : resolves id e = true) : e.id = id := by
  cases e with
  | stateChanged changed state detail => exact (of_decide_eq_true h).1
  | registered | unregistered | log => cases h

theorem isState_of_resolves {id : ServiceId} {e : Event} (h : resolves id e = true) : e.isState = true := by
  cases e with
  | stateChanged | registered | unregistered => rfl
  | log => cases h

structure Ledger where
  world : World
  sources : List (Option RunId)
  own : List RunId
  tracked : List ServiceId
  /-- So many events are handled. -/
  handled : Nat

namespace Ledger

variable (l : Ledger)

/-- Event `n` resolves the mark of a service. -/
def Says (n : Nat) (id : ServiceId) : Prop :=
  ∃ e, l.world.events[n]? = some e ∧ resolves id e = true

/-- There is such an event that is not handled, or it is still to be broadcast. -/
def Open (id : ServiceId) : Prop :=
  (∃ n, l.handled ≤ n ∧ l.Says n id) ∨ ∃ b, ∃ e ∈ l.world.owes b, resolves id e = true

/-- The next event that resolves the mark of the service is the run's. -/
inductive Owner (r : RunId) (id : ServiceId) : Prop where
  | fresh (hstarting : l.world.rows id = some .starting)
      (hunended : ∀ run, l.world.runs r = some run → run.task.ended = false) (hclosed : ¬ l.Open id)
  | next (n : Nat) (hn : l.handled ≤ n) (hsigned : SignedBy l.sources n r) (htold : l.Says n id)
      (hfirst : ∀ m, l.handled ≤ m → m < n → ¬ l.Says m id)
  | owed (hnone : ∀ m, l.handled ≤ m → ¬ l.Says m id) (e : Event)
      (he : e ∈ l.world.owes (.task r)) (hres : resolves id e = true)

/-- The mark of the service is the run's, and nothing of the run has resolved it. -/
structure Held (r : RunId) (id : ServiceId) : Prop where
  tracked : id ∈ l.tracked
  unseen : ∀ m < l.handled, SignedBy l.sources m r → ¬ l.Says m id
  owner : l.Owner r id

/-- An event of the run was handled that resolves the mark of the service. -/
def Done (r : RunId) (id : ServiceId) : Prop :=
  ∃ m < l.handled, SignedBy l.sources m r ∧ l.Says m id

/-- Each run of the tray has the mark of its service, until an event of it resolves that. -/
structure Sound : Prop where
  signed : Proc.Signed l.world l.sources
  handled : l.handled ≤ l.world.events.length
  own : ∀ r ∈ l.own, ∃ run, l.world.runs r = some run ∧ (l.Held r run.id ∨ l.Done r run.id)

/-- The ledger after a step of the supervisor. -/
def step (a : Proc.Action) (w' : World) (own : List RunId) : Ledger :=
  { l with world := w', sources := Proc.sourcesNext l.sources l.world w' a, own := own }

end Ledger

section Step

variable {l : Ledger} {w' : World} {a : Proc.Action} {own : List RunId} {r : RunId} {id : ServiceId}
  {n : Nat}

theorem getElem?_events (h : l.world.next a = some w') (hn : n < l.world.events.length) :
    w'.events[n]? = l.world.events[n]? := by
  obtain ⟨more, hevents, -⟩ := Proc.events_next h
  rw [hevents, List.getElem?_append_left hn]

theorem says_step (h : l.world.next a = some w') (hn : n < l.world.events.length) :
    (l.step a w' own).Says n id ↔ l.Says n id := by
  have hevents := getElem?_events h hn
  constructor
  · rintro ⟨e, he, hres⟩
    exact ⟨e, hevents.symm.trans he, hres⟩
  · rintro ⟨e, he, hres⟩
    exact ⟨e, hevents.trans he, hres⟩

theorem says_lt (h : l.Says n id) : n < l.world.events.length := by
  obtain ⟨e, he, -⟩ := h
  exact (List.getElem?_eq_some_iff.mp he).1

/-- What is said after a step was said before, or is said by the event that is new. -/
theorem says_cases (h : l.world.next a = some w') (htold : (l.step a w' own).Says n id) :
    l.Says n id ∨ n = l.world.events.length ∧
      ∃ e, w'.events = l.world.events ++ [e] ∧ resolves id e = true := by
  obtain ⟨e, he, hres⟩ := htold
  rcases Proc.event_cases h he with ⟨hlt, hold⟩ | ⟨rfl, hnew⟩
  · exact .inl ⟨e, hold, hres⟩
  · exact .inr ⟨rfl, e, hnew, hres⟩

theorem done_step (hl : l.Sound) (h : l.world.next a = some w') (hd : l.Done r id) :
    (l.step a w' own).Done r id := by
  obtain ⟨m, hm, hsigned, htold⟩ := hd
  have hlt := says_lt htold
  exact ⟨m, hm, (Proc.signedBy_old hl.signed hlt).mpr hsigned, (says_step h hlt).mpr htold⟩

/-- As long as the row has its service starting, the run has not ended. -/
theorem unended_step (hs : Proc.Sound l.world) (h : l.world.next a = some w') {run : Proc.Run}
    (hr : l.world.runs r = some run) (hunended : run.task.ended = false)
    (hstarting : w'.rows run.id = some .starting) :
    ∀ run', w'.runs r = some run' → run'.task.ended = false := by
  intro run' hr'
  obtain ⟨run₁, hr₁, -, hmove⟩ := Proc.runMove_next hs hr h
  rw [hr'] at hr₁
  cases hr₁
  cases hmove with
  | same hended => exact hended.trans hunended
  | emit _ _ _ _ hended => exact hended.trans hunended
  | write answer state detail _ hstate _ _ _ _ hrows =>
      rw [hrows, Event.apply, Function.update_self] at hstarting
      obtain ⟨_, -, heq⟩ := Option.map_eq_some_iff.mp hstarting
      exact absurd heq hstate

/-- **A step of the supervisor** leaves the next event that resolves the mark the run's. -/
theorem owner_step (hs : Proc.Sound l.world) (hcalls : Proc.CallsFresh l.world)
    (hsync : ∀ id, Proc.InSync l.world id) (hl : l.Sound) (h : l.world.next a = some w')
    {run : Proc.Run} (hr : l.world.runs r = some run) (ho : l.Owner r run.id) :
    (l.step a w' own).Owner r run.id := by
  have hnew : ∀ {m}, (∀ m, l.handled ≤ m → ¬ l.Says m run.id) →
      (∀ e, w'.events = l.world.events ++ [e] → resolves run.id e = false) → l.handled ≤ m →
      ¬ (l.step a w' own).Says m run.id := by
    intro m hnone hlog hm htold
    rcases says_cases h htold with hold | ⟨-, e, hevents, hres⟩
    · exact hnone m hm hold
    · rw [hlog e hevents] at hres
      cases hres
  have hclosed : ¬ l.Open run.id → ∀ m, l.handled ≤ m → ¬ l.Says m run.id :=
    fun hopen m hm htold => hopen (.inl ⟨m, hm, htold⟩)
  have hsame : w'.events = l.world.events →
      ∀ e, w'.events = l.world.events ++ [e] → resolves run.id e = false := by
    intro heq e hevents
    rw [heq] at hevents
    simp at hevents
  cases ho with
  | next n hn hsigned htold hfirst =>
      have hlt := says_lt htold
      refine .next n hn ((Proc.signedBy_old hl.signed hlt).mpr hsigned) ((says_step h hlt).mpr htold) ?_
      exact fun m hm hmn htold' => hfirst m hm hmn ((says_step h (hmn.trans hlt)).mp htold')
  | fresh hstarting hunended hopen =>
      cases Proc.next_told hs hcalls h with
      | silent hrows _ howes =>
          obtain ⟨more, hevents, hlogs⟩ := Proc.silent_events h howes
          have hrow : w'.rows run.id = some .starting := by rw [hrows]; exact hstarting
          refine .fresh hrow (unended_step hs h hr (hunended run hr) hrow) ?_
          rintro (⟨m, hm, htold⟩ | ⟨b, e, he, hres⟩)
          · refine hnew (hclosed hopen) (fun e heq => ?_) hm htold
            have he : e ∈ more := by
              rw [hevents] at heq
              rw [List.append_cancel_left heq]
              exact List.mem_singleton_self e
            by_contra hres
            have hstate := isState_of_resolves (by simpa using hres)
            rw [hlogs e he] at hstate
            cases hstate
          · exact hopen (.inr ⟨b, e, howes b ▸ he, hres⟩)
      | write b e hwrites hrows hevents hbefore howes =>
          by_cases hid : e.id = run.id
          · -- only the run itself writes the row
            rw [hid] at hwrites
            obtain ⟨r', run', answer, -, hr', hid', hunended', state, detail, hstate, howed⟩ :=
              Proc.starting_next h hwrites hstarting
            have heq : r' = r := hs.unique hr' hr hid' hunended' (hunended run hr)
            subst heq
            refine .owed (fun m => hnew (hclosed hopen) (hsame hevents)) _ (howed ▸ List.mem_singleton_self _) ?_
            simp [resolves, hstate]
          · have hrow : w'.rows run.id = some .starting := by
              rw [hrows, Proc.apply_of_ne (Ne.symm hid)]
              exact hstarting
            refine .fresh hrow (unended_step hs h hr (hunended run hr) hrow) ?_
            rintro (⟨m, hm, htold⟩ | ⟨c, e', he', hres⟩)
            · exact hnew (hclosed hopen) (hsame hevents) hm htold
            · have he'' : e' ∈ w'.owes c := he'
              rw [howes c] at he''
              split at he''
              · rw [List.mem_singleton.mp he''] at hres
                exact hid (id_of_resolves hres)
              · exact hopen (.inr ⟨c, e', he'', hres⟩)
      | emit b e later hrows hevents hbefore howes =>
          have hrow : w'.rows run.id = some .starting := by rw [hrows]; exact hstarting
          have howed : e ∈ l.world.owes b := by rw [hbefore]; exact List.mem_cons_self
          refine .fresh hrow (unended_step hs h hr (hunended run hr) hrow) ?_
          rintro (⟨m, hm, htold⟩ | ⟨c, e', he', hres⟩)
          · refine hnew (hclosed hopen) (fun e' heq => ?_) hm htold
            have he' : e' = e := by simpa [hevents] using heq.symm
            subst he'
            by_contra hres
            exact hopen (.inr ⟨b, e', howed, by simpa using hres⟩)
          · have he'' : e' ∈ w'.owes c := he'
            rw [howes c] at he''
            split at he''
            next hc =>
              refine hopen (.inr ⟨b, e', ?_, hres⟩)
              rw [hbefore]
              exact List.mem_cons_of_mem _ he''
            next => exact hopen (.inr ⟨c, e', he'', hres⟩)
  | owed hnone e he hres =>
      cases Proc.next_told hs hcalls h with
      | silent _ _ howes =>
          obtain ⟨more, hevents, hlogs⟩ := Proc.silent_events h howes
          have hmem : e ∈ w'.owes (.task r) := by rw [howes]; exact he
          refine .owed (fun m => hnew hnone fun e' heq => ?_) e hmem hres
          have he' : e' ∈ more := by
            rw [hevents] at heq
            rw [List.append_cancel_left heq]
            exact List.mem_singleton_self e'
          by_contra hres'
          have hstate := isState_of_resolves (by simpa using hres')
          rw [hlogs e' he'] at hstate
          cases hstate
      | write b e' _ _ hevents hbefore howes =>
          have hmem : e ∈ w'.owes (.task r) := by
            rw [howes, if_neg]
            · exact he
            · intro hb
              rw [hb, hbefore] at he
              cases he
          exact .owed (fun m => hnew hnone (hsame hevents)) e hmem hres
      | emit b e' later _ hevents hbefore howes =>
          have howed : e' ∈ l.world.owes b := by rw [hbefore]; exact List.mem_cons_self
          have hlog : ∀ e₂, w'.events = l.world.events ++ [e₂] → e₂ = e' := by
            intro e₂ heq
            simpa [hevents] using heq.symm
          by_cases hb : .task r = b
          · -- the run broadcasts what it owes
            subst hb
            obtain ⟨run', hr', -, hmove⟩ := Proc.runMove_next hs hr h
            have howes' : l.world.owes (.task r) = run.task.owes := Proc.owes_task hr
            have hafter : run'.task.owes = later := by
              have hrun' := howes (.task r)
              rwa [if_pos rfl, Proc.owes_task hr'] at hrun'
            have hsource : a.source = some r := by
              cases hmove with
              | same _ hkept =>
                  rw [hafter, ← howes', hbefore] at hkept
                  have hlen := congrArg List.length hkept
                  simp at hlen
              | write _ _ _ _ _ _ hempty =>
                  rw [← howes', hbefore] at hempty
                  cases hempty
              | emit answer _ ha => rw [ha]; rfl
            have heq : e' = e := by
              rcases hl.signed.owes r run hr with hempty | ⟨state, detail, hone, -⟩
              · rw [← howes', hbefore] at hempty
                cases hempty
              · rw [howes', hone] at he hbefore
                rw [List.mem_singleton.mp he]
                exact (List.cons.inj hbefore).1.symm
            subst heq
            refine .next l.world.events.length hl.handled ((Proc.signedBy_new hl.signed hevents).mpr hsource)
              ⟨e', ?_, hres⟩ ?_
            · show w'.events[l.world.events.length]? = some e'
              rw [hevents]
              simp
            · exact fun m hm hmn htold => hnone m hm ((says_step h hmn).mp htold)
          · -- somebody else broadcasts, about another service
            have hmem : e ∈ w'.owes (.task r) := by
              rw [howes, if_neg hb]
              exact he
            refine .owed (fun m => hnew hnone fun e₂ heq => ?_) e hmem hres
            rw [hlog e₂ heq]
            by_contra hres'
            have hres'' : resolves run.id e' = true := by simpa using hres'
            have hid' := id_of_resolves hres''
            cases hsync run.id with
            | settled hno => exact hno ⟨_, e, he, id_of_resolves hres⟩
            | behind b₀ e₀ _ _ hothers =>
                have htask : .task r = b₀ := by
                  by_contra hne
                  exact hothers _ hne e he (id_of_resolves hres)
                have hemits : b = b₀ := by
                  by_contra hne
                  exact hothers _ hne e' howed hid'
                exact hb (htask.trans hemits.symm)

theorem held_step (hs : Proc.Sound l.world) (hcalls : Proc.CallsFresh l.world)
    (hsync : ∀ id, Proc.InSync l.world id) (hl : l.Sound) (h : l.world.next a = some w')
    {run : Proc.Run} (hr : l.world.runs r = some run) (hh : l.Held r run.id) :
    (l.step a w' own).Held r run.id where
  tracked := hh.tracked
  unseen := by
    intro m hm hsigned htold
    have hlt : m < l.world.events.length := Nat.lt_of_lt_of_le hm hl.handled
    exact hh.unseen m hm ((Proc.signedBy_old hl.signed hlt).mp hsigned) ((says_step h hlt).mp htold)
  owner := owner_step hs hcalls hsync hl h hr hh.owner

/-- **A start that takes effect** makes a run, which gets the mark of its service. -/
theorem held_made (own : List RunId) {k : CallId} (hs : Proc.Sound l.world) (hl : l.Sound)
    (h : l.world.next (.caller k) = some w') (hc : l.world.calls k = some (.start id))
    (hidle : l.world.idleAt id = true) (htracked : id ∈ l.tracked) (hclosed : ¬ l.Open id) :
    ∃ run, w'.runs l.world.nextRun = some run ∧ run.id = id ∧ w'.nextRun = l.world.nextRun + 1 ∧
      (l.step (.caller k) w' own).Held l.world.nextRun id := by
  obtain ⟨e, he, hdead⟩ : ∃ e, l.world.entries id = some e ∧ e.state.live = false := by
    cases he : l.world.entries id with
    | none => simp [World.idleAt, he] at hidle
    | some e => exact ⟨e, rfl, by simpa [World.idleAt, he] using hidle⟩
  have hw' : w' = (l.world.start id).1.setCall k (l.world.start id).2 := by
    simpa [World.next, hc, World.stepCall] using h.symm
  have hstart := hw'
  simp only [World.start, he, hdead, Bool.false_eq_true, if_false] at hstart
  obtain ⟨run, hrun, hid, hqueued⟩ : ∃ run, w'.runs l.world.nextRun = some run ∧ run.id = id ∧
      run.task = .queued := by
    rw [hstart]
    exact ⟨_, Function.update_self .., rfl, rfl⟩
  have hrow : w'.rows id = some .starting := by
    rw [hstart]
    simp [World.rows, World.setCall, World.setRun, World.insert]
  have hevents : w'.events = l.world.events := by
    rw [hstart]
    rfl
  refine ⟨run, hrun, hid, by rw [hstart]; rfl, htracked, ?_, ?_⟩
  · -- the run is new, and has signed nothing
    intro m hm hsigned _
    have hlt : m < l.world.events.length := Nat.lt_of_lt_of_le hm hl.handled
    have hold := (Proc.signedBy_old hl.signed hlt).mp hsigned
    obtain ⟨run', hr', -⟩ := hl.signed.run m _ _ hold (List.getElem?_eq_getElem hlt)
    rw [hs.fresh _ (Nat.le_refl _)] at hr'
    cases hr'
  · refine .fresh hrow (fun run' hr' => ?_) ?_
    · have hr'' : w'.runs l.world.nextRun = some run' := hr'
      rw [hrun] at hr''
      cases hr''
      rw [hqueued]
      rfl
    · rintro (⟨m, hm, e', he', hres⟩ | ⟨b, e', he', hres⟩)
      · exact hclosed (.inl ⟨m, hm, e', hevents ▸ he', hres⟩)
      · have howes : e' ∈ w'.owes b := he'
        rw [hw', World.owes_setCall] at howes
        split at howes
        · simp only [World.start, he, hdead, Bool.false_eq_true, if_false, Proc.Call.owes, Proc.owed,
            Event.isState, if_true, List.mem_singleton] at howes
          rw [howes] at hres
          simp [resolves] at hres
        · have hother : ((l.world.stepCall (.start id)).map Prod.fst) = some (l.world.start id).1 := rfl
          obtain ⟨p, hp, hp'⟩ := Option.map_eq_some_iff.mp hother
          rw [← hp', Desktop.stepCall_owes (hs.fresh _ (Nat.le_refl _)) hp] at howes
          exact hclosed (.inr ⟨b, e', howes, hres⟩)

/-- The ledger is kept over a step of the supervisor, with the runs that it makes for the
tray. -/
theorem ledgerSound_step (hs : Proc.Sound l.world) (hcalls : Proc.CallsFresh l.world)
    (hsync : ∀ id, Proc.InSync l.world id) (hl : l.Sound) (h : l.world.next a = some w')
    (hown : ∀ r ∈ own, r ∈ l.own ∨ ∃ run, w'.runs r = some run ∧ (l.step a w' own).Held r run.id) :
    (l.step a w' own).Sound where
  signed := Proc.signed_next hs hl.signed h
  handled := by
    obtain ⟨more, hevents, -⟩ := Proc.events_next h
    have hle := hl.handled
    show l.handled ≤ w'.events.length
    rw [hevents, List.length_append]
    omega
  own := by
    intro r hr
    rcases hown r hr with hold | ⟨run, hrun, hheld⟩
    · obtain ⟨run, hrun, hcase⟩ := hl.own r hold
      obtain ⟨run', hrun', hid, -⟩ := Proc.runMove_next hs hrun h
      refine ⟨run', hrun', ?_⟩
      rw [hid]
      rcases hcase with hheld | hdone
      · exact .inl (held_step hs hcalls hsync hl h hrun hheld)
      · exact .inr (done_step hl h hdone)
    · exact ⟨run, hrun, .inl hheld⟩

end Step

/-! ### Handling an event -/

namespace Ledger

/-- One more event is handled, and some marks may be gone. -/
def handle (l : Ledger) (tracked : List ServiceId) : Ledger :=
  { l with tracked := tracked, handled := l.handled + 1 }

end Ledger

section Handle

variable {l : Ledger} {r : RunId} {id : ServiceId} {tracked : List ServiceId} {n : Nat}

theorem open_handle (h : (l.handle tracked).Open id) : l.Open id := by
  rcases h with ⟨n, hn, htold⟩ | howed
  · exact .inl ⟨n, Nat.le_of_succ_le hn, htold⟩
  · exact .inr howed

theorem done_handle (h : l.Done r id) : (l.handle tracked).Done r id := by
  obtain ⟨m, hm, hsigned⟩ := h
  exact ⟨m, Nat.lt_succ_of_lt hm, hsigned⟩

/-- **An event that is about something else** leaves a run its mark. -/
theorem held_skip (hnot : ¬ l.Says l.handled id) (htracked : id ∈ tracked) (h : l.Held r id) :
    (l.handle tracked).Held r id where
  tracked := htracked
  unseen := by
    intro m hm hsigned htold
    rcases Nat.lt_succ_iff_lt_or_eq.mp hm with hlt | rfl
    · exact h.unseen m hlt hsigned htold
    · exact hnot htold
  owner := by
    cases h.owner with
    | fresh hstarting hunended hclosed => exact .fresh hstarting hunended fun hopen => hclosed (open_handle hopen)
    | next n hn hsigned htold hfirst =>
        have hne : l.handled ≠ n := by
          rintro rfl
          exact hnot htold
        exact .next n (Nat.lt_of_le_of_ne hn hne) hsigned htold
          fun m hm hmn => hfirst m (Nat.le_of_succ_le hm) hmn
    | owed hnone e he hres => exact .owed (fun m hm => hnone m (Nat.le_of_succ_le hm)) e he hres

/-- **The event that resolves a mark** is of the run that has the mark. -/
theorem signed_of_held (htold : l.Says l.handled id) (h : l.Held r id) :
    SignedBy l.sources l.handled r := by
  cases h.owner with
  | fresh _ _ hclosed => exact absurd (.inl ⟨l.handled, Nat.le_refl _, htold⟩) hclosed
  | next n hn hsigned _ hfirst =>
      rcases Nat.eq_or_lt_of_le hn with heq | hlt
      · rw [heq]
        exact hsigned
      · exact absurd htold (hfirst l.handled (Nat.le_refl _) hlt)
  | owed hnone => exact absurd htold (hnone l.handled (Nat.le_refl _))

/-- Handling an event that resolves nothing. -/
theorem ledgerSound_skip (hl : l.Sound) (hlt : l.handled < l.world.events.length)
    (hnot : ∀ id, ¬ l.Says l.handled id) : (l.handle l.tracked).Sound where
  signed := hl.signed
  handled := hlt
  own := by
    intro r hr
    obtain ⟨run, hrun, hheld | hdone⟩ := hl.own r hr
    · exact ⟨run, hrun, .inl (held_skip (hnot _) hheld.tracked hheld)⟩
    · exact ⟨run, hrun, .inr (done_handle hdone)⟩

/-- Handling an event that resolves the mark of a service, if it has one. -/
theorem ledgerSound_resolve (hl : l.Sound) (htold : l.Says l.handled id) :
    (l.handle (l.tracked.erase id)).Sound where
  signed := hl.signed
  handled := says_lt htold
  own := by
    intro r hr
    obtain ⟨run, hrun, hheld | hdone⟩ := hl.own r hr
    · refine ⟨run, hrun, ?_⟩
      by_cases hid : run.id = id
      · subst hid
        exact .inr ⟨l.handled, Nat.lt_succ_self _, signed_of_held htold hheld, htold⟩
      · refine .inl (held_skip ?_ ((List.mem_erase_of_ne hid).mpr hheld.tracked) hheld)
        rintro ⟨e, he, hres⟩
        obtain ⟨e', he', hres'⟩ := htold
        rw [he] at he'
        cases he'
        exact hid ((id_of_resolves hres).symm.trans (id_of_resolves hres'))
    · exact ⟨run, hrun, .inr (done_handle hdone)⟩

/-- Who resolves a mark does not depend on the others. -/
theorem owner_tracked (h : l.Owner r id) : ({ l with tracked := tracked } : Ledger).Owner r id := by
  cases h with
  | fresh hstarting hunended hclosed => exact .fresh hstarting hunended hclosed
  | next n hn hsigned htold hfirst => exact .next n hn hsigned htold hfirst
  | owed hnone e he hres => exact .owed hnone e he hres

/-- A service is marked. -/
theorem ledgerSound_mark (hl : l.Sound) (htracked : ∀ id ∈ l.tracked, id ∈ tracked) :
    ({ l with tracked := tracked } : Ledger).Sound where
  signed := hl.signed
  handled := hl.handled
  own := by
    intro r hr
    obtain ⟨run, hrun, hheld | hdone⟩ := hl.own r hr
    · exact ⟨run, hrun, .inl ⟨htracked _ hheld.tracked, hheld.unseen, owner_tracked hheld.owner⟩⟩
    · exact ⟨run, hrun, .inr hdone⟩

end Handle

end OpenVHost.Tray
