/-
# The subscription of the log page

A registration takes time, and starts and stops may come before it is there. Each of them
has an epoch of its own; a registration that is there in another epoch than its own is taken
back.

* `ListenersSound` — the invariant; `listenersSound_next` — every step keeps it.
* `listeners_settle` — when no registration is under way, there is one listener if the last of
  the calls was a start, and none if it was a stop.
-/

import OpenVHost.Window.LogsStore
import Mathlib.Data.List.Perm.Basic

namespace OpenVHost.Window

open Proc (ServiceId LogLine)

namespace LogsPage

variable (p : LogsPage)

/-- Who has the listener: the store, or else a registration that is under way, and of the epoch
of now if the last of the calls was a start. -/
inductive Subscribed : Prop where
  | committed (l : ListenerId) (hunlisten : p.store.ringUnlisten = some l) (hl : l ∈ p.listeners)
      (hother : ∀ r ∈ p.registrations, r.listener ≠ l) (hstarted : p.started = true)
      (hold : ∀ r ∈ p.registrations, r.epoch < p.store.ringSubscriptionEpoch)
  | waiting (hunlisten : p.store.ringUnlisten = none) (hstarted : p.started = true) (r : Registration)
      (hr : r ∈ p.registrations) (hepoch : r.epoch = p.store.ringSubscriptionEpoch)
  | stopped (hunlisten : p.store.ringUnlisten = none) (hstarted : p.started = false)
      (hold : ∀ r ∈ p.registrations, r.epoch < p.store.ringSubscriptionEpoch)

structure ListenersSound : Prop where
  epochs : ∀ r ∈ p.registrations, r.epoch ≤ p.store.ringSubscriptionEpoch
  distinct : (p.registrations.map Registration.epoch).Nodup
  fresh : ∀ r ∈ p.registrations, r.listener < p.nextListener
  names : (p.registrations.map Registration.listener).Nodup
  known : ∀ l ∈ p.listeners, l < p.nextListener
  nodup : p.listeners.Nodup
  owned : ∀ l ∈ p.listeners, p.store.ringUnlisten = some l ∨ ∃ r ∈ p.registrations, r.listener = l
  subscribed : p.Subscribed

end LogsPage

section Listeners

variable {p p' : LogsPage} {store : LogsStore}

/-- What does not touch the subscription. -/
theorem listenersSound_frame (hp : p.ListenersSound) (hregistrations : p'.registrations = p.registrations)
    (hlisteners : p'.listeners = p.listeners) (hnext : p'.nextListener = p.nextListener)
    (hstarted : p'.started = p.started) (hunlisten : p'.store.ringUnlisten = p.store.ringUnlisten)
    (hepoch : p'.store.ringSubscriptionEpoch = p.store.ringSubscriptionEpoch) : p'.ListenersSound := by
  constructor
  case epochs => rw [hregistrations, hepoch]; exact hp.epochs
  case distinct => rw [hregistrations]; exact hp.distinct
  case fresh => rw [hregistrations, hnext]; exact hp.fresh
  case names => rw [hregistrations]; exact hp.names
  case known => rw [hlisteners, hnext]; exact hp.known
  case nodup => rw [hlisteners]; exact hp.nodup
  case owned => rw [hlisteners, hregistrations, hunlisten]; exact hp.owned
  case subscribed =>
    cases hp.subscribed with
    | committed l h₁ h₂ h₃ h₄ h₅ =>
        refine .committed l (hunlisten.trans h₁) (hlisteners ▸ h₂) ?_ (hstarted.trans h₄) ?_
        · rw [hregistrations]
          exact h₃
        · rw [hregistrations, hepoch]
          exact h₅
    | waiting h₁ h₂ r hr h₃ =>
        exact .waiting (hunlisten.trans h₁) (hstarted.trans h₂) r (hregistrations ▸ hr) (h₃.trans hepoch.symm)
    | stopped h₁ h₂ h₃ =>
        refine .stopped (hunlisten.trans h₁) (hstarted.trans h₂) ?_
        rw [hregistrations, hepoch]
        exact h₃

/-! ### Calls -/

theorem listenersSound_start (hp : p.ListenersSound) (h : p.next .startRingSubscription = some p') :
    p'.ListenersSound := by
  simp only [LogsPage.next] at h
  split at h
  next l hunlisten =>
    cases h
    cases hp.subscribed with
    | committed l₁ h₁ h₂ h₃ h₄ h₅ => exact { hp with subscribed := .committed l₁ h₁ h₂ h₃ rfl h₅ }
    | waiting h₁ =>
        rw [hunlisten] at h₁
        cases h₁
    | stopped h₁ =>
        rw [hunlisten] at h₁
        cases h₁
  next hunlisten =>
    cases h
    have hmem : ∀ {r}, r ∈ p.registrations ++ [⟨p.store.ringSubscriptionEpoch + 1, p.nextListener⟩] →
        r ∈ p.registrations ∨ r = ⟨p.store.ringSubscriptionEpoch + 1, p.nextListener⟩ := by
      intro r hr
      rcases List.mem_append.mp hr with hr | hr
      · exact .inl hr
      · exact .inr (List.mem_singleton.mp hr)
    constructor
    case epochs =>
      intro r hr
      rcases hmem hr with hr | rfl
      · exact Nat.le_succ_of_le (hp.epochs r hr)
      · exact Nat.le_refl _
    case distinct =>
      rw [List.map_append, List.nodup_append]
      refine ⟨hp.distinct, List.nodup_singleton _, ?_⟩
      intro e he e' he' heq
      obtain ⟨r, hr, rfl⟩ := List.mem_map.mp he
      have hle := hp.epochs r hr
      have he'' : e' = p.store.ringSubscriptionEpoch + 1 := List.mem_singleton.mp he'
      omega
    case fresh =>
      intro r hr
      rcases hmem hr with hr | rfl
      · exact Nat.lt_succ_of_lt (hp.fresh r hr)
      · exact Nat.lt_succ_self _
    case names =>
      rw [List.map_append, List.nodup_append]
      refine ⟨hp.names, List.nodup_singleton _, ?_⟩
      intro e he e' he' heq
      obtain ⟨r, hr, rfl⟩ := List.mem_map.mp he
      have hlt := hp.fresh r hr
      have he'' : e' = p.nextListener := List.mem_singleton.mp he'
      rw [heq, he''] at hlt
      exact absurd hlt (Nat.lt_irrefl _)
    case known => exact fun l hl => Nat.lt_succ_of_lt (hp.known l hl)
    case nodup => exact hp.nodup
    case owned =>
      intro l hl
      rcases hp.owned l hl with hsome | ⟨r, hr, hrl⟩
      · exact .inl hsome
      · exact .inr ⟨r, List.mem_append_left _ hr, hrl⟩
    case subscribed =>
      exact .waiting hunlisten rfl _ (List.mem_append_right _ (List.mem_singleton_self _)) rfl

theorem listenersSound_stop (hp : p.ListenersSound) (h : p.next .stopRingSubscription = some p') :
    p'.ListenersSound := by
  have hold : ∀ r ∈ p.registrations, r.epoch < p.store.ringSubscriptionEpoch + 1 := fun r hr =>
    Nat.lt_succ_of_le (hp.epochs r hr)
  simp only [LogsPage.next] at h
  split at h
  next hunlisten =>
    cases h
    refine { hp with epochs := fun r hr => (hold r hr).le, owned := ?_, subscribed := .stopped rfl rfl hold }
    intro l hl
    rcases hp.owned l hl with hsome | hregistered
    · rw [hunlisten] at hsome
      cases hsome
    · exact .inr hregistered
  next listener hunlisten =>
    cases h
    have hmem : ∀ {l}, l ∈ p.listeners.erase listener ↔ l ≠ listener ∧ l ∈ p.listeners :=
      hp.nodup.mem_erase_iff
    refine { hp with
      epochs := fun r hr => (hold r hr).le
      known := fun l hl => hp.known l (List.mem_of_mem_erase hl)
      nodup := hp.nodup.erase _
      owned := ?_
      subscribed := .stopped rfl rfl hold }
    intro l hl
    obtain ⟨hne, hl⟩ := hmem.mp hl
    rcases hp.owned l hl with hsome | hregistered
    · rw [hunlisten] at hsome
      exact absurd (Option.some.inj hsome).symm hne
    · exact .inr hregistered

/-! ### Registrations -/

theorem listenersSound_activate {i : Nat} (hp : p.ListenersSound) (h : p.next (.activate i) = some p') :
    p'.ListenersSound := by
  obtain ⟨r, hr, h⟩ := Option.bind_eq_some_iff.mp h
  simp only [Option.ite_none_left_eq_some, Option.some.injEq] at h
  obtain ⟨hidle, rfl⟩ := h
  have hmem : r ∈ p.registrations := List.mem_of_getElem? hr
  refine { hp with known := ?_, nodup := ?_, owned := ?_, subscribed := ?_ }
  · intro l hl
    rcases List.mem_append.mp hl with hl | hl
    · exact hp.known l hl
    · rw [List.mem_singleton.mp hl]
      exact hp.fresh r hmem
  · rw [List.nodup_append]
    refine ⟨hp.nodup, List.nodup_singleton _, ?_⟩
    intro l hl l' hl' heq
    rw [heq, List.mem_singleton.mp hl'] at hl
    exact hidle hl
  · intro l hl
    rcases List.mem_append.mp hl with hl | hl
    · exact hp.owned l hl
    · exact .inr ⟨r, hmem, (List.mem_singleton.mp hl).symm⟩
  · cases hp.subscribed with
    | committed l h₁ h₂ h₃ h₄ h₅ => exact .committed l h₁ (List.mem_append_left _ h₂) h₃ h₄ h₅
    | waiting h₁ h₂ r hr h₃ => exact .waiting h₁ h₂ r hr h₃
    | stopped h₁ h₂ h₃ => exact .stopped h₁ h₂ h₃

/-- **A registration is there**: it is taken back, or the store has it from now on. -/
theorem listenersSound_registered {i : Nat} (hp : p.ListenersSound) (h : p.next (.registered i) = some p') :
    p'.ListenersSound := by
  obtain ⟨r, hr, h⟩ := Option.bind_eq_some_iff.mp h
  obtain ⟨hlt, heq⟩ := List.getElem?_eq_some_iff.mp hr
  have hmem : r ∈ p.registrations := List.mem_of_getElem? hr
  have hperm := List.getElem_cons_eraseIdx_perm hlt
  rw [heq] at hperm
  -- the other registrations have other epochs and other listeners
  have hepochs := (hperm.map Registration.epoch).nodup_iff.mpr hp.distinct
  have hnames := (hperm.map Registration.listener).nodup_iff.mpr hp.names
  rw [List.map_cons, List.nodup_cons] at hepochs hnames
  have hrest : ∀ {r₁}, r₁ ∈ p.registrations.eraseIdx i →
      r₁ ∈ p.registrations ∧ r₁.epoch ≠ r.epoch ∧ r₁.listener ≠ r.listener := by
    intro r₁ hr₁
    refine ⟨List.mem_of_mem_eraseIdx hr₁, ?_, ?_⟩
    · exact fun hsame => hepochs.1 (hsame ▸ List.mem_map_of_mem hr₁)
    · exact fun hsame => hnames.1 (hsame ▸ List.mem_map_of_mem hr₁)
  have hback : ∀ {r₁}, r₁ ∈ p.registrations → r₁ = r ∨ r₁ ∈ p.registrations.eraseIdx i := fun hr₁ =>
    List.mem_cons.mp (hperm.mem_iff.mpr hr₁)
  simp only [Option.ite_none_left_eq_some, not_not] at h
  obtain ⟨hactive, h⟩ := h
  split at h
  next hstale =>
    cases h
    have herase : ∀ {l}, l ∈ p.listeners.erase r.listener ↔ l ≠ r.listener ∧ l ∈ p.listeners :=
      hp.nodup.mem_erase_iff
    constructor
    case epochs => exact fun r₁ hr₁ => hp.epochs r₁ (hrest hr₁).1
    case distinct => exact hepochs.2
    case fresh => exact fun r₁ hr₁ => hp.fresh r₁ (hrest hr₁).1
    case names => exact hnames.2
    case known => exact fun l hl => hp.known l (List.mem_of_mem_erase hl)
    case nodup => exact hp.nodup.erase _
    case owned =>
      intro l hl
      obtain ⟨hne, hl⟩ := herase.mp hl
      rcases hp.owned l hl with hsome | ⟨r₁, hr₁, rfl⟩
      · exact .inl hsome
      · rcases hback hr₁ with rfl | hr₁
        · exact absurd rfl hne
        · exact .inr ⟨r₁, hr₁, rfl⟩
    case subscribed =>
      cases hp.subscribed with
      | committed l h₁ h₂ h₃ h₄ h₅ =>
          refine .committed l h₁ (herase.mpr ⟨(h₃ r hmem).symm, h₂⟩) ?_ h₄ ?_
          · exact fun r₁ hr₁ => h₃ r₁ (hrest hr₁).1
          · exact fun r₁ hr₁ => h₅ r₁ (hrest hr₁).1
      | waiting h₁ h₂ r₁ hr₁ h₃ =>
          rcases hback hr₁ with rfl | hr₁
          · exact absurd h₃ hstale
          · exact .waiting h₁ h₂ r₁ hr₁ h₃
      | stopped h₁ h₂ h₃ => exact .stopped h₁ h₂ fun r₁ hr₁ => h₃ r₁ (hrest hr₁).1
  next hcurrent =>
    cases h
    rw [not_not] at hcurrent
    have hnone : p.store.ringUnlisten = none ∧ p.started = true := by
      cases hp.subscribed with
      | committed l h₁ h₂ h₃ h₄ h₅ => exact absurd hcurrent (Nat.ne_of_lt (h₅ r hmem))
      | waiting h₁ h₂ => exact ⟨h₁, h₂⟩
      | stopped h₁ h₂ h₃ => exact absurd hcurrent (Nat.ne_of_lt (h₃ r hmem))
    constructor
    case epochs => exact fun r₁ hr₁ => hp.epochs r₁ (hrest hr₁).1
    case distinct => exact hepochs.2
    case fresh => exact fun r₁ hr₁ => hp.fresh r₁ (hrest hr₁).1
    case names => exact hnames.2
    case known => exact hp.known
    case nodup => exact hp.nodup
    case owned =>
      intro l hl
      rcases hp.owned l hl with hsome | ⟨r₁, hr₁, rfl⟩
      · rw [hnone.1] at hsome
        cases hsome
      · rcases hback hr₁ with rfl | hr₁
        · exact .inl rfl
        · exact .inr ⟨r₁, hr₁, rfl⟩
    case subscribed =>
      refine .committed r.listener rfl hactive (fun r₁ hr₁ => (hrest hr₁).2.2) hnone.2 ?_
      intro r₁ hr₁
      obtain ⟨hold, hne, -⟩ := hrest hr₁
      have hle := hp.epochs r₁ hold
      have hne' : r₁.epoch ≠ p.store.ringSubscriptionEpoch := hcurrent ▸ hne
      exact Nat.lt_of_le_of_ne hle hne'

/-! ### The other steps -/

theorem listenersSound_store (hp : p.ListenersSound) (hunlisten : store.ringUnlisten = p.store.ringUnlisten)
    (hepoch : store.ringSubscriptionEpoch = p.store.ringSubscriptionEpoch) :
    ({ p with store := store } : LogsPage).ListenersSound :=
  listenersSound_frame hp rfl rfl rfl rfl hunlisten hepoch

theorem listenersSound_refresh (hp : p.ListenersSound) : p.refresh.ListenersSound := by
  obtain ⟨flight, calls, heq⟩ := p.refresh_eq
  rw [heq]
  exact listenersSound_frame hp rfl rfl rfl rfl rfl rfl

theorem listenersSound_selectSource (hp : p.ListenersSound) (source : LogSourceDto) :
    (p.selectSource source).ListenersSound := by
  have hselect : ({ p with store := p.store.select source, target := p.target + 1 } : LogsPage).ListenersSound :=
    listenersSound_frame hp rfl rfl rfl rfl rfl rfl
  cases source with
  | serviceRing id => exact listenersSound_frame hselect rfl rfl rfl rfl rfl rfl
  | nginxError | nginxAccess | phpFpm | siteAccess | siteError => exact listenersSound_refresh hselect

theorem restart_ring (store : LogsStore) :
    store.restart.ringUnlisten = store.ringUnlisten ∧
      store.restart.ringSubscriptionEpoch = store.ringSubscriptionEpoch := by
  unfold LogsStore.restart
  split <;> exact ⟨rfl, rfl⟩

theorem listenersSound_restart (hp : p.ListenersSound) (hunlisten : store.ringUnlisten = p.store.ringUnlisten)
    (hepoch : store.ringSubscriptionEpoch = p.store.ringSubscriptionEpoch) :
    (p.restart store).ListenersSound := by
  obtain ⟨hr, he⟩ := restart_ring store
  have hstore : ({ p with store := store.restart, target := p.target + 1 } : LogsPage).ListenersSound :=
    listenersSound_frame hp rfl rfl rfl rfl (hr.trans hunlisten) (he.trans hepoch)
  exact listenersSound_refresh hstore

theorem applyRingLog_ring (store : LogsStore) (ev : ServiceLogEvent) :
    (store.applyRingLog ev).ringUnlisten = store.ringUnlisten ∧
      (store.applyRingLog ev).ringSubscriptionEpoch = store.ringSubscriptionEpoch ∧
      (store.applyRingLog ev).selected = store.selected ∧ (store.applyRingLog ev).generation = store.generation := by
  unfold LogsStore.applyRingLog
  split
  · split <;> exact ⟨rfl, rfl, rfl, rfl⟩
  · exact ⟨rfl, rfl, rfl, rfl⟩

/-- An event that is delivered to some listeners. -/
theorem deliver_ring (listeners : List ListenerId) (ev : ServiceLogEvent) (store : LogsStore) :
    (listeners.foldl (fun store _ => store.applyRingLog ev) store).ringUnlisten = store.ringUnlisten ∧
      (listeners.foldl (fun store _ => store.applyRingLog ev) store).ringSubscriptionEpoch =
        store.ringSubscriptionEpoch ∧
      (listeners.foldl (fun store _ => store.applyRingLog ev) store).selected = store.selected ∧
      (listeners.foldl (fun store _ => store.applyRingLog ev) store).generation = store.generation := by
  induction listeners generalizing store with
  | nil => exact ⟨rfl, rfl, rfl, rfl⟩
  | cons l rest ih =>
      rw [List.foldl_cons]
      obtain ⟨h₁, h₂, h₃, h₄⟩ := ih (store.applyRingLog ev)
      obtain ⟨h₁', h₂', h₃', h₄'⟩ := applyRingLog_ring store ev
      exact ⟨h₁.trans h₁', h₂.trans h₂', h₃.trans h₃', h₄.trans h₄'⟩

theorem tailAnswered_ring (store : LogsStore) (generation : Nat) (id : ServiceId)
    (answer : Except IpcError (List LogLine)) :
    (store.tailAnswered generation id answer).ringUnlisten = store.ringUnlisten ∧
      (store.tailAnswered generation id answer).ringSubscriptionEpoch = store.ringSubscriptionEpoch ∧
      (store.tailAnswered generation id answer).selected = store.selected ∧
      (store.tailAnswered generation id answer).generation = store.generation := by
  unfold LogsStore.tailAnswered
  split
  · cases answer <;> exact ⟨rfl, rfl, rfl, rfl⟩
  · exact ⟨rfl, rfl, rfl, rfl⟩

/-- **Every step keeps the invariant.** -/
theorem listenersSound_next {turn : LogsTurn} (hp : p.ListenersSound) (h : p.next turn = some p') :
    p'.ListenersSound := by
  cases turn with
  | loadSources | setFollow | start | stop | push | register | unregister =>
      cases h
      exact listenersSound_frame hp rfl rfl rfl rfl rfl rfl
  | sourcesArrive answer =>
      simp only [LogsPage.next, Option.ite_none_left_eq_some, Option.some.injEq] at h
      obtain ⟨-, rfl⟩ := h
      cases answer <;> exact listenersSound_frame hp rfl rfl rfl rfl rfl rfl
  | selectSource source =>
      cases h
      exact listenersSound_selectSource hp source
  | selectFromDeepLink requested =>
      cases h
      cases requested with
      | none =>
          have hlink : ({ p with store := { p.store with requestedUnavailable := none } } :
              LogsPage).ListenersSound := listenersSound_store hp rfl rfl
          simp only [LogsPage.selectFromDeepLink]
          split
          · exact listenersSound_selectSource hlink _
          · exact hlink
      | some requested =>
          simp only [LogsPage.selectFromDeepLink]
          split
          · exact listenersSound_selectSource hp _
          · exact listenersSound_store hp rfl rfl
  | setNeedle | setCaseSensitive | setMinLevel =>
      cases h
      exact listenersSound_restart hp rfl rfl
  | jumpToLatest =>
      cases h
      exact listenersSound_refresh (listenersSound_store hp rfl rfl)
  | tick =>
      simp only [LogsPage.next, Option.ite_none_right_eq_some, Option.some.injEq] at h
      obtain ⟨-, rfl⟩ := h
      exact listenersSound_refresh hp
  | windowArrives i answer =>
      obtain ⟨call, -, h⟩ := Option.bind_eq_some_iff.mp h
      cases h
      have hring := p.store.windowAnswered_ring call.generation answer
      exact listenersSound_frame hp rfl rfl rfl rfl hring.ringUnlisten hring.epoch
  | readTail i =>
      obtain ⟨call, -, h⟩ := Option.bind_eq_some_iff.mp h
      simp only [Option.ite_none_left_eq_some, Option.some.injEq] at h
      obtain ⟨-, rfl⟩ := h
      exact listenersSound_frame hp rfl rfl rfl rfl rfl rfl
  | tailArrives i =>
      obtain ⟨call, -, h⟩ := Option.bind_eq_some_iff.mp h
      obtain ⟨answer, -, h⟩ := Option.bind_eq_some_iff.mp h
      cases h
      obtain ⟨hunlisten, hepoch, -⟩ := tailAnswered_ring p.store call.generation call.id answer
      exact listenersSound_frame hp rfl rfl rfl rfl hunlisten hepoch
  | tailFails i e =>
      obtain ⟨call, -, h⟩ := Option.bind_eq_some_iff.mp h
      cases h
      obtain ⟨hunlisten, hepoch, -⟩ := tailAnswered_ring p.store call.generation call.id (.error e)
      exact listenersSound_frame hp rfl rfl rfl rfl hunlisten hepoch
  | startRingSubscription => exact listenersSound_start hp h
  | stopRingSubscription => exact listenersSound_stop hp h
  | activate i => exact listenersSound_activate hp h
  | registered i => exact listenersSound_registered hp h
  | emit i =>
      obtain ⟨ev, -, h⟩ := Option.bind_eq_some_iff.mp h
      cases h
      exact listenersSound_frame hp rfl rfl rfl rfl rfl rfl
  | deliver =>
      obtain ⟨ev, -, h⟩ := Option.bind_eq_some_iff.mp h
      cases h
      obtain ⟨hunlisten, hepoch, -⟩ := deliver_ring p.listeners ev p.store
      exact listenersSound_frame hp rfl rfl rfl rfl hunlisten hepoch

theorem listenersSound_of_initial (h : p.Initial) : p.ListenersSound := by
  have hnone : ∀ r, r ∉ p.registrations := fun r hr => by
    rw [h.registrations] at hr
    cases hr
  constructor
  case epochs => exact fun r hr => absurd hr (hnone r)
  case distinct => rw [h.registrations]; exact List.nodup_nil
  case fresh => exact fun r hr => absurd hr (hnone r)
  case names => rw [h.registrations]; exact List.nodup_nil
  case known => rw [h.listeners]; exact fun l hl => by cases hl
  case nodup => rw [h.listeners]; exact List.nodup_nil
  case owned => rw [h.listeners]; exact fun l hl => by cases hl
  case subscribed => exact .stopped (by rw [h.store]; rfl) h.started fun r hr => absurd hr (hnone r)

/-- **The subscription settles**: with no registration under way there is one listener, which the
store has, if the last of the calls was a start, and none if it was a stop. -/
theorem listeners_settle (h : logsPage.Reachable p) (hsettled : p.registrations = []) :
    if p.started then ∃ l, p.listeners = [l] ∧ p.store.ringUnlisten = some l
    else p.listeners = [] ∧ p.store.ringUnlisten = none := by
  have hp : p.ListenersSound :=
    h.invariant (fun _ => listenersSound_of_initial) fun _ _ _ hp _ hn => listenersSound_next hp hn
  have howned : ∀ l ∈ p.listeners, p.store.ringUnlisten = some l := by
    intro l hl
    rcases hp.owned l hl with hsome | ⟨r, hr, -⟩
    · exact hsome
    · rw [hsettled] at hr
      cases hr
  cases hp.subscribed with
  | committed l hunlisten hl hother hstarted hold =>
      rw [if_pos hstarted]
      refine ⟨l, ?_, hunlisten⟩
      have hall : ∀ l' ∈ p.listeners, l' = l := by
        intro l' hl'
        have hsome := howned l' hl'
        rw [hunlisten] at hsome
        exact (Option.some.inj hsome).symm
      cases hlisteners : p.listeners with
      | nil =>
          rw [hlisteners] at hl
          cases hl
      | cons a rest =>
          have hnodup := hp.nodup
          rw [hlisteners] at hall hnodup
          rw [hall a List.mem_cons_self]
          cases rest with
          | nil => rfl
          | cons b rest =>
              have hsame : a = b :=
                (hall a List.mem_cons_self).trans (hall b (List.mem_cons_of_mem _ List.mem_cons_self)).symm
              rw [List.nodup_cons] at hnodup
              exact absurd (hsame ▸ List.mem_cons_self) hnodup.1
  | waiting hunlisten hstarted r hr hepoch =>
      rw [hsettled] at hr
      cases hr
  | stopped hunlisten hstarted hold =>
      rw [if_neg (by rw [hstarted]; exact Bool.false_ne_true)]
      refine ⟨?_, hunlisten⟩
      cases hlisteners : p.listeners with
      | nil => rfl
      | cons a rest =>
          have hsome := howned a (by rw [hlisteners]; exact List.mem_cons_self)
          rw [hunlisten] at hsome
          cases hsome

end Listeners

end OpenVHost.Window
