/-
# The file view

A call's answer is taken if no selection or filter change has come since the call, and no
second call is made meanwhile. So the windows that are taken are a chain, each read from where
the one before ended.

* `sinceFresh` — the windows from the last one on that is no continuation.
* `FileSound` — the invariant; `fileSound_next` — every step keeps it.
* `file_view` — the rows on screen are the end of one chain of windows.
-/

import Mathlib.Data.List.Chain
import Mathlib.Data.List.Perm.Basic
import OpenVHost.Window.LogsStore

namespace OpenVHost.Window

open Proc (ServiceId LogLine)

/-! ### Windows and chains -/

/-- The windows from the last one on that is no continuation of the one before. -/
def sinceFresh (windows : List Answered) : List Answered :=
  windows.foldl (fun chain a => if a.window.fresh then [a] else chain ++ [a]) []

/-- The next window is read from where the one before ended. -/
def Answered.Follows (a b : Answered) : Prop := b.query.cursor = a.window.cursor

/-- The cursor after some windows. -/
def cursorAfter (windows : List Answered) : Option String :=
  match windows.getLast? with
  | none => none
  | some a => a.window.cursor

section Chains

variable {windows : List Answered} {a : Answered}

theorem sinceFresh_append :
    sinceFresh (windows ++ [a]) = if a.window.fresh then [a] else sinceFresh windows ++ [a] := by
  rw [sinceFresh, List.foldl_append]
  rfl

/-- What `sinceFresh` leaves out ends where a window is no continuation. -/
theorem sinceFresh_spec (windows : List Answered) :
    ∃ earlier, windows = earlier ++ sinceFresh windows ∧
      (earlier = [] ∨ ∃ b rest, sinceFresh windows = b :: rest ∧ b.window.fresh = true) ∧
      ∀ b ∈ (sinceFresh windows).tail, b.window.fresh = false := by
  induction windows using List.reverseRecOn with
  | nil => exact ⟨[], rfl, .inl rfl, fun b hb => by cases hb⟩
  | append_singleton windows a ih =>
      obtain ⟨earlier, heq, hstart, hrest⟩ := ih
      rw [sinceFresh_append]
      cases hfresh : a.window.fresh with
      | true => exact ⟨windows, rfl, .inr ⟨a, [], rfl, hfresh⟩, fun b hb => by cases hb⟩
      | false =>
          refine ⟨earlier, ?_, ?_, ?_⟩
          · rw [if_neg Bool.false_ne_true, ← List.append_assoc, ← heq]
          · rcases hstart with hnil | ⟨b, rest, hb, hbfresh⟩
            · exact .inl hnil
            · refine .inr ⟨b, rest ++ [a], ?_, hbfresh⟩
              rw [if_neg Bool.false_ne_true, hb]
              rfl
          · intro b hb
            rw [if_neg Bool.false_ne_true] at hb
            cases hchain : sinceFresh windows with
            | nil =>
                rw [hchain] at hb
                cases hb
            | cons c rest =>
                rw [hchain] at hb hrest
                rcases List.mem_append.mp hb with hb | hb
                · exact hrest b hb
                · rw [List.mem_singleton.mp hb]
                  exact hfresh

theorem cursorAfter_append : cursorAfter (windows ++ [a]) = a.window.cursor := by
  rw [cursorAfter, List.getLast?_concat]

theorem follows_append (hchain : windows.IsChain Answered.Follows)
    (hcursor : a.query.cursor = cursorAfter windows) : (windows ++ [a]).IsChain Answered.Follows := by
  refine List.isChain_append.mpr ⟨hchain, List.isChain_singleton a, ?_⟩
  intro b hb c hc
  cases hc
  rw [Answered.Follows, hcursor, cursorAfter, hb]

end Chains

/-! ### The invariant -/

namespace LogsPage

variable (p : LogsPage)

/-- The windows that were returned to calls for the selection and the filters of now. -/
def windows : List Answered := p.answered.filter fun a => a.target = p.target

structure FileSound : Prop where
  unread : p.store.selected = none → p.windowCalls = [] ∧ p.answered = []
  le : ∀ c ∈ p.windowCalls, c.generation ≤ p.store.generation ∧ c.target ≤ p.target
  current : ∀ c ∈ p.windowCalls, c.generation = p.store.generation ↔ c.target = p.target
  inFlight : ∀ c ∈ p.windowCalls, c.generation = p.store.generation →
    p.store.inFlightGeneration = some p.store.generation
  single : (p.windowCalls.map WindowCall.generation).Nodup
  asked : ∀ c ∈ p.windowCalls, c.generation = p.store.generation → ∃ source,
    p.store.selected = some source ∧ source.isRing = false ∧ c.query = p.store.query source p.store.cursor
  returned : ∀ a ∈ p.answered, a.target ≤ p.target
  chain : p.windows.IsChain Answered.Follows
  first : ∀ a, p.windows.head? = some a → a.query.cursor = none
  cursor : p.store.cursor = cursorAfter p.windows
  queries : ∀ a ∈ p.windows, ∃ source, p.store.selected = some source ∧ source.isRing = false ∧
    a.query = p.store.query source a.query.cursor
  rows : p.store.rows = cut maxRenderedRows ((sinceFresh p.windows).flatMap fun a => a.window.rows)

/-- What is claimed of the rows of a file: they are the end of what a chain of calls has returned
for the source and the filters of now, each call from the cursor that the one before
returned. The chain begins with the selection or the filter change, or with the last window
that was no continuation. -/
structure FileView (source : LogSourceDto) : Prop where
  rows : ∃ earlier chain : List Answered, p.windows = earlier ++ chain ∧
    (∀ a ∈ chain, a.query = p.store.query source a.query.cursor) ∧
    chain.IsChain Answered.Follows ∧ (∀ a ∈ chain.tail, a.window.fresh = false) ∧
    (earlier = [] ∧ (∀ a, chain.head? = some a → a.query.cursor = none) ∨
      ∃ a rest, chain = a :: rest ∧ a.window.fresh = true) ∧
    p.store.rows <:+ (chain.flatMap fun a => a.window.rows) ∧
    p.store.rows.length = min maxRenderedRows (chain.flatMap fun a => a.window.rows).length
  single : (p.windowCalls.filter fun c => c.target = p.target).length ≤ 1

end LogsPage

section FileSound

variable {p p' : LogsPage} {store : LogsStore}

/-! ### Selections and filters -/

theorem windows_later (hp : p.FileSound) (store : LogsStore) :
    ({ p with store := store, target := p.target + 1 } : LogsPage).windows = [] := by
  refine List.filter_eq_nil_iff.mpr fun a ha => ?_
  have hle := hp.returned a ha
  simp only [decide_eq_true_eq]
  omega

/-- **A new generation** begins without windows. -/
theorem fileSound_reset (hp : p.FileSound) (hgeneration : store.generation = p.store.generation + 1)
    (hrows : store.rows = []) (hcursor : store.cursor = none) (hselected : store.selected ≠ none) :
    ({ p with store := store, target := p.target + 1 } : LogsPage).FileSound := by
  have hnone := windows_later hp store
  have hnew : ∀ c ∈ p.windowCalls, c.generation ≠ store.generation ∧ c.target ≠ p.target + 1 := by
    intro c hc
    have hle := hp.le c hc
    omega
  constructor
  case unread => exact fun hsel => absurd hsel hselected
  case le =>
    intro c hc
    have hle := hp.le c hc
    refine ⟨?_, Nat.le_succ_of_le hle.2⟩
    rw [hgeneration]
    exact Nat.le_succ_of_le hle.1
  case current =>
    intro c hc
    obtain ⟨hgen, htarget⟩ := hnew c hc
    exact ⟨fun heq => absurd heq hgen, fun heq => absurd heq htarget⟩
  case inFlight => exact fun c hc heq => absurd heq (hnew c hc).1
  case single => exact hp.single
  case asked => exact fun c hc heq => absurd heq (hnew c hc).1
  case returned => exact fun a ha => Nat.le_succ_of_le (hp.returned a ha)
  case chain =>
    rw [hnone]
    exact .nil
  case first =>
    intro a ha
    rw [hnone] at ha
    cases ha
  case cursor =>
    rw [hnone]
    exact hcursor
  case queries =>
    intro a ha
    rw [hnone] at ha
    cases ha
  case rows =>
    rw [hnone]
    exact hrows

/-- **The call of `refresh`.** -/
theorem fileSound_refresh (hp : p.FileSound) : p.refresh.FileSound := by
  unfold LogsPage.refresh LogsStore.refresh
  split
  next store heq =>
    split at heq
    · cases heq
      exact hp
    · cases heq
      exact hp
    · split at heq
      · cases heq
        exact hp
      · cases heq
  next store query heq =>
    split at heq
    · cases heq
    · cases heq
    next source hring hsel =>
      split at heq
      · cases heq
      next hfree =>
        cases heq
        have hother : ∀ c ∈ p.windowCalls, c.generation ≠ p.store.generation := by
          intro c hc heq
          exact hfree (hp.inFlight c hc heq)
        have hfile : source.isRing = false := by
          cases source with
          | serviceRing id => exact absurd rfl (hring id)
          | nginxError | nginxAccess | phpFpm | siteAccess | siteError => rfl
        refine { hp with unread := ?_, le := ?_, current := ?_, inFlight := ?_, single := ?_, asked := ?_ }
        · intro hnone
          have hnone' : p.store.selected = none := hnone
          rw [hsel] at hnone'
          cases hnone'
        · intro c hc
          rcases List.mem_append.mp hc with hc | hc
          · exact hp.le c hc
          · rw [List.mem_singleton.mp hc]
            exact ⟨Nat.le_refl _, Nat.le_refl _⟩
        · intro c hc
          rcases List.mem_append.mp hc with hc | hc
          · exact hp.current c hc
          · rw [List.mem_singleton.mp hc]
            exact ⟨fun _ => rfl, fun _ => rfl⟩
        · intro c hc _
          rfl
        · rw [List.map_append, List.nodup_append]
          refine ⟨hp.single, List.nodup_singleton _, ?_⟩
          intro g hg g' hg' heq
          obtain ⟨c, hc, rfl⟩ := List.mem_map.mp hg
          rw [List.map_singleton, List.mem_singleton] at hg'
          exact hother c hc (heq.trans hg')
        · intro c hc heq
          rcases List.mem_append.mp hc with hc | hc
          · exact absurd heq (hother c hc)
          · rw [List.mem_singleton.mp hc]
            exact ⟨source, hsel, hfile, rfl⟩

theorem fileSound_selectSource (hp : p.FileSound) (source : LogSourceDto) :
    (p.selectSource source).FileSound := by
  have hreset : ({ p with store := p.store.select source, target := p.target + 1 } : LogsPage).FileSound :=
    fileSound_reset hp rfl rfl rfl nofun
  cases source with
  | serviceRing id => exact { hreset with }
  | nginxError | nginxAccess | phpFpm | siteAccess | siteError => exact fileSound_refresh hreset

/-- A filter changes, and nothing else does before the restart. -/
theorem fileSound_restart (hp : p.FileSound) (hgeneration : store.generation = p.store.generation)
    (hrows : store.rows = p.store.rows) (hcursor : store.cursor = p.store.cursor)
    (hselected : store.selected = p.store.selected) : (p.restart store).FileSound := by
  refine fileSound_refresh ?_
  cases hsel : p.store.selected with
  | some source =>
      have hrestart : store.restart =
          { store with
            generation := store.generation + 1
            rows := []
            cursor := none
            reset := none
            loaded := false } := by
        rw [LogsStore.restart, hselected, hsel]
      rw [hrestart]
      refine fileSound_reset hp ?_ rfl rfl ?_
      · rw [hgeneration]
      · rw [hselected, hsel]
        exact nofun
  | none =>
      -- nothing was read yet
      have hrestart : store.restart = store := by
        rw [LogsStore.restart, hselected, hsel]
      obtain ⟨hcalls, hanswered⟩ := hp.unread hsel
      have hempty : p.windows = [] := by
        rw [LogsPage.windows, hanswered]
        rfl
      have hlater := windows_later hp store
      rw [hrestart]
      constructor
      case unread => exact fun _ => ⟨hcalls, hanswered⟩
      case chain =>
        rw [hlater]
        exact .nil
      case first =>
        intro a ha
        rw [hlater] at ha
        cases ha
      case cursor =>
        rw [hlater]
        show store.cursor = _
        rw [hcursor, hp.cursor, hempty]
      case queries =>
        intro a ha
        rw [hlater] at ha
        cases ha
      case rows =>
        rw [hlater]
        show store.rows = _
        rw [hrows, hp.rows, hempty]
      case returned =>
        intro a ha
        have ha' : a ∈ p.answered := ha
        rw [hanswered] at ha'
        cases ha'
      case single => exact hp.single
      all_goals
        intro c hc
        have hc' : c ∈ p.windowCalls := hc
        rw [hcalls] at hc'
        cases hc'

/-! ### Answers -/

theorem windowCalls_erase {i : Nat} {call : WindowCall} (hp : p.FileSound) (hcall : p.windowCalls[i]? = some call) :
    ∀ c ∈ p.windowCalls.eraseIdx i, c ∈ p.windowCalls ∧ c.generation ≠ call.generation := by
  obtain ⟨hlt, rfl⟩ := List.getElem?_eq_some_iff.mp hcall
  have hperm := (List.getElem_cons_eraseIdx_perm hlt).map WindowCall.generation
  have hnodup := hperm.nodup_iff.mpr hp.single
  rw [List.map_cons, List.nodup_cons] at hnodup
  intro c hc
  refine ⟨List.mem_of_mem_eraseIdx hc, fun heq => hnodup.1 ?_⟩
  exact heq ▸ List.mem_map_of_mem hc

/-- A window that is taken continues the chain. -/
theorem windows_answered {call : WindowCall} (htarget : call.target = p.target) (w : LogWindowDto)
    (store : LogsStore) (calls : List WindowCall) :
    ({ p with store := store, windowCalls := calls, answered := p.answeredWith call (.ok w) } :
      LogsPage).windows = p.windows ++ [⟨call.query, w, call.target⟩] := by
  simp [LogsPage.windows, LogsPage.answeredWith, List.filter_append, htarget]

/-- **A call's answer.** -/
theorem fileSound_answer {i : Nat} {call : WindowCall} {answer : Except IpcError LogWindowDto} (hp : p.FileSound)
    (hcall : p.windowCalls[i]? = some call) :
    ({ p with
        store := p.store.windowAnswered call.generation answer
        windowCalls := p.windowCalls.eraseIdx i
        answered := p.answeredWith call answer } : LogsPage).FileSound := by
  have hmem := List.mem_of_getElem? hcall
  have hrest := windowCalls_erase hp hcall
  have hsel : p.store.selected ≠ none := by
    intro hnone
    rw [(hp.unread hnone).1] at hmem
    cases hmem
  have hreturned : ∀ a ∈ p.answeredWith call answer, a.target ≤ p.target := by
    intro a ha
    cases answer with
    | error e => exact hp.returned a ha
    | ok w =>
        rcases List.mem_append.mp ha with ha | ha
        · exact hp.returned a ha
        · rw [List.mem_singleton.mp ha]
          exact (hp.le call hmem).2
  by_cases hgen : call.generation = p.store.generation
  · -- the answer is taken, and no other call of its generation is in flight
    have hfree : ∀ c ∈ p.windowCalls.eraseIdx i, c.generation ≠ p.store.generation := fun c hc =>
      hgen ▸ (hrest c hc).2
    have hflight : p.store.inFlightGeneration = some call.generation :=
      hgen ▸ hp.inFlight call hmem hgen
    obtain ⟨source, hselected, hfile, hquery⟩ := hp.asked call hmem hgen
    have htarget := (hp.current call hmem).mp hgen
    cases answer with
    | error e =>
        have hstore : p.store.windowAnswered call.generation (.error e) =
            { p.store with readError := some e, loaded := true, inFlightGeneration := none } := by
          simp [LogsStore.windowAnswered, hgen, hp.inFlight call hmem hgen]
        rw [hstore]
        exact
          { hp with
            unread := fun hnone => absurd hnone hsel
            le := fun c hc => hp.le c (hrest c hc).1
            current := fun c hc => hp.current c (hrest c hc).1
            inFlight := fun c hc heq => absurd heq (hfree c hc)
            single := hp.single.sublist ((List.eraseIdx_sublist ..).map _)
            asked := fun c hc heq => absurd heq (hfree c hc) }
    | ok w =>
        have hstore : p.store.windowAnswered call.generation (.ok w) =
            { p.store.applyWindow w with readError := none, loaded := true, inFlightGeneration := none } := by
          simp [LogsStore.windowAnswered, hgen, LogsStore.applyWindow, hp.inFlight call hmem hgen]
        rw [hstore]
        have hwindows := fun store => windows_answered htarget w store (p.windowCalls.eraseIdx i)
        have hcursor : call.query.cursor = cursorAfter p.windows := by
          rw [hquery]
          exact hp.cursor
        constructor
        case unread => exact fun hnone => absurd hnone hsel
        case le => exact fun c hc => hp.le c (hrest c hc).1
        case current => exact fun c hc => hp.current c (hrest c hc).1
        case inFlight => exact fun c hc heq => absurd heq (hfree c hc)
        case single => exact hp.single.sublist ((List.eraseIdx_sublist ..).map _)
        case asked => exact fun c hc heq => absurd heq (hfree c hc)
        case returned => exact hreturned
        case chain =>
          rw [hwindows]
          exact follows_append hp.chain hcursor
        case first =>
          intro a ha
          rw [hwindows] at ha
          cases hnone : p.windows with
          | nil =>
              rw [hnone] at ha hcursor
              cases ha
              exact hcursor
          | cons b rest =>
              rw [hnone] at ha
              cases ha
              exact hp.first _ (by rw [hnone]; rfl)
        case cursor =>
          rw [hwindows, cursorAfter_append]
          rfl
        case queries =>
          intro a ha
          rw [hwindows] at ha
          rcases List.mem_append.mp ha with ha | ha
          · exact hp.queries a ha
          · rw [List.mem_singleton.mp ha]
            refine ⟨source, hselected, hfile, ?_⟩
            rw [hquery]
            rfl
        case rows =>
          rw [hwindows, sinceFresh_append]
          show cut maxRenderedRows (if w.fresh then w.rows else p.store.rows ++ w.rows) = _
          cases hfresh : w.fresh with
          | true => simp
          | false => simp [hp.rows, cut_append]
  · -- the answer is dropped
    have hlater : call.target ≠ p.target := fun heq => hgen ((hp.current call hmem).mpr heq)
    have hwindows : ∀ store : LogsStore, ({ p with
        store := store
        windowCalls := p.windowCalls.eraseIdx i
        answered := p.answeredWith call answer } : LogsPage).windows = p.windows := by
      intro store
      cases answer with
      | error e => rfl
      | ok w => simp [LogsPage.windows, LogsPage.answeredWith, List.filter_append, hlater]
    have hstore : p.store.windowAnswered call.generation answer =
        { p.store with
          inFlightGeneration :=
            if p.store.inFlightGeneration = some call.generation then none else p.store.inFlightGeneration } := by
      simp only [LogsStore.windowAnswered, if_neg hgen]
      split <;> rfl
    rw [hstore]
    constructor
    case unread => exact fun hnone => absurd hnone hsel
    case le => exact fun c hc => hp.le c (hrest c hc).1
    case current => exact fun c hc => hp.current c (hrest c hc).1
    case inFlight =>
      intro c hc heq
      have hflight := hp.inFlight c (hrest c hc).1 heq
      have hne : p.store.inFlightGeneration ≠ some call.generation := by
        rw [hflight]
        exact fun hsome => hgen (Option.some.inj hsome).symm
      show (if p.store.inFlightGeneration = some call.generation then none
        else p.store.inFlightGeneration) = _
      rw [if_neg hne]
      exact hflight
    case single => exact hp.single.sublist ((List.eraseIdx_sublist ..).map _)
    case asked => exact fun c hc heq => hp.asked c (hrest c hc).1 heq
    case returned => exact hreturned
    case chain =>
      rw [hwindows]
      exact hp.chain
    case first =>
      rw [hwindows]
      exact hp.first
    case cursor =>
      rw [hwindows]
      exact hp.cursor
    case queries =>
      rw [hwindows]
      exact hp.queries
    case rows =>
      rw [hwindows]
      exact hp.rows

/-! ### The other steps -/

/-- An event changes the lines of a service at most. -/
theorem foldl_applyRingLog (listeners : List ListenerId) (ev : ServiceLogEvent) (store : LogsStore) :
    ∃ logs, listeners.foldl (fun store _ => store.applyRingLog ev) store = { store with ringLogs := logs } := by
  induction listeners generalizing store with
  | nil => exact ⟨store.ringLogs, rfl⟩
  | cons l rest ih =>
      rw [List.foldl_cons]
      have hone : ∃ logs, store.applyRingLog ev = { store with ringLogs := logs } := by
        unfold LogsStore.applyRingLog
        split
        · split
          · exact ⟨_, rfl⟩
          · exact ⟨store.ringLogs, rfl⟩
        · exact ⟨store.ringLogs, rfl⟩
      obtain ⟨logs, hlogs⟩ := hone
      obtain ⟨logs', hlogs'⟩ := ih (store.applyRingLog ev)
      refine ⟨logs', ?_⟩
      rw [hlogs', hlogs]

theorem tailAnswered_frame (generation : Nat) (id : ServiceId)
    (answer : Except IpcError (List LogLine)) (store : LogsStore) :
    ∃ logs error loaded, store.tailAnswered generation id answer =
      { store with ringLogs := logs, readError := error, loaded := loaded } := by
  unfold LogsStore.tailAnswered
  split
  · cases answer with
    | ok tail => exact ⟨_, _, _, rfl⟩
    | error e => exact ⟨store.ringLogs, _, _, rfl⟩
  · exact ⟨store.ringLogs, store.readError, store.loaded, rfl⟩

theorem fileSound_selectFromDeepLink (hp : p.FileSound) (requested : Option LogSourceDto) :
    (p.selectFromDeepLink requested).FileSound := by
  cases requested with
  | none =>
      have hlink : ({ p with store := { p.store with requestedUnavailable := none } } : LogsPage).FileSound :=
        { hp with }
      simp only [LogsPage.selectFromDeepLink]
      split
      · exact fileSound_selectSource hlink _
      · exact hlink
  | some requested =>
      simp only [LogsPage.selectFromDeepLink]
      split
      · exact fileSound_selectSource hp _
      · exact { hp with }

/-- **Every step keeps the invariant.** -/
theorem fileSound_next {turn : LogsTurn} (hp : p.FileSound) (h : p.next turn = some p') : p'.FileSound := by
  cases turn with
  | loadSources | setFollow | start | stop | push | register | unregister =>
      cases h
      exact { hp with }
  | sourcesArrive answer =>
      simp only [LogsPage.next, Option.ite_none_left_eq_some, Option.some.injEq] at h
      obtain ⟨-, rfl⟩ := h
      cases answer <;> exact { hp with }
  | selectSource source =>
      cases h
      exact fileSound_selectSource hp source
  | selectFromDeepLink requested =>
      cases h
      exact fileSound_selectFromDeepLink hp requested
  | setNeedle | setCaseSensitive | setMinLevel =>
      cases h
      exact fileSound_restart hp rfl rfl rfl rfl
  | jumpToLatest =>
      cases h
      have hfollow : ({ p with store := p.store.setFollow true } : LogsPage).FileSound := { hp with }
      exact fileSound_refresh hfollow
  | tick =>
      simp only [LogsPage.next, Option.ite_none_right_eq_some, Option.some.injEq] at h
      obtain ⟨-, rfl⟩ := h
      exact fileSound_refresh hp
  | windowArrives i answer =>
      obtain ⟨call, hcall, h⟩ := Option.bind_eq_some_iff.mp h
      cases h
      exact fileSound_answer hp hcall
  | readTail i =>
      obtain ⟨call, -, h⟩ := Option.bind_eq_some_iff.mp h
      simp only [Option.ite_none_left_eq_some, Option.some.injEq] at h
      obtain ⟨-, rfl⟩ := h
      exact { hp with }
  | tailArrives i =>
      obtain ⟨call, -, h⟩ := Option.bind_eq_some_iff.mp h
      obtain ⟨answer, -, h⟩ := Option.bind_eq_some_iff.mp h
      cases h
      obtain ⟨logs, error, loaded, hstore⟩ := tailAnswered_frame call.generation call.id answer p.store
      rw [hstore]
      exact { hp with }
  | tailFails i e =>
      obtain ⟨call, -, h⟩ := Option.bind_eq_some_iff.mp h
      cases h
      obtain ⟨logs, error, loaded, hstore⟩ := tailAnswered_frame call.generation call.id (.error e) p.store
      rw [hstore]
      exact { hp with }
  | startRingSubscription | stopRingSubscription =>
      simp only [LogsPage.next] at h
      split at h <;>
        · cases h
          exact { hp with }
  | activate i =>
      obtain ⟨r, -, h⟩ := Option.bind_eq_some_iff.mp h
      simp only [Option.ite_none_left_eq_some, Option.some.injEq] at h
      obtain ⟨-, rfl⟩ := h
      exact { hp with }
  | registered i =>
      obtain ⟨r, -, h⟩ := Option.bind_eq_some_iff.mp h
      simp only at h
      split at h
      · cases h
      · split at h <;>
          · cases h
            exact { hp with }
  | emit i =>
      obtain ⟨ev, -, h⟩ := Option.bind_eq_some_iff.mp h
      cases h
      exact { hp with }
  | deliver =>
      obtain ⟨ev, -, h⟩ := Option.bind_eq_some_iff.mp h
      cases h
      obtain ⟨logs, hstore⟩ := foldl_applyRingLog p.listeners ev p.store
      rw [LogsPage.deliverTo, hstore]
      exact { hp with }

theorem fileSound_of_initial (h : p.Initial) : p.FileSound := by
  have hempty : p.windows = [] := by
    rw [LogsPage.windows, h.answered]
    rfl
  constructor
  case unread => exact fun _ => ⟨h.windowCalls, h.answered⟩
  case single =>
    rw [h.windowCalls]
    exact List.nodup_nil
  case returned =>
    intro a ha
    rw [h.answered] at ha
    cases ha
  case chain =>
    rw [hempty]
    exact .nil
  case first =>
    intro a ha
    rw [hempty] at ha
    cases ha
  case cursor =>
    rw [hempty, h.store]
    rfl
  case queries =>
    intro a ha
    rw [hempty] at ha
    cases ha
  case rows =>
    rw [hempty, h.store]
    rfl
  all_goals
    intro c hc
    rw [h.windowCalls] at hc
    cases hc

/-! ### The claim -/

/-- **The file view shows one source once**: in every reachable state the rows of a file are the
end of one chain of windows of the source and the filters of now, and at most one call for
them is in flight. -/
theorem file_view {source : LogSourceDto} (h : logsPage.Reachable p) (hselected : p.store.selected = some source) :
    p.FileView source := by
  have hp : p.FileSound :=
    h.invariant (fun _ => fileSound_of_initial) fun _ _ _ hp _ hn => fileSound_next hp hn
  obtain ⟨earlier, heq, hstart, hrest⟩ := sinceFresh_spec p.windows
  have hchain : (sinceFresh p.windows).IsChain Answered.Follows := by
    have hall := hp.chain
    rw [heq] at hall
    exact hall.right_of_append
  have hmem : ∀ a ∈ sinceFresh p.windows, a ∈ p.windows := by
    intro a ha
    rw [heq]
    exact List.mem_append_right _ ha
  refine ⟨⟨earlier, sinceFresh p.windows, heq, ?_, hchain, hrest, ?_, ?_, ?_⟩, ?_⟩
  · intro a ha
    obtain ⟨source', hselected', -, hquery⟩ := hp.queries a (hmem a ha)
    rw [hselected] at hselected'
    cases hselected'
    exact hquery
  · rcases hstart with hnil | hfresh
    · refine .inl ⟨hnil, fun a ha => hp.first a ?_⟩
      rw [heq, hnil]
      exact ha
    · exact .inr hfresh
  · rw [hp.rows]
    exact cut_suffix _
  · rw [hp.rows, cut_eq_rtake]
    simp only [List.rtake, List.length_drop]
    omega
  · -- two calls for the selection of now would be of the same generation
    have hnodup : ((p.windowCalls.filter fun c => c.target = p.target).map WindowCall.generation).Nodup :=
      hp.single.sublist (List.filter_sublist.map _)
    cases hcalls : p.windowCalls.filter fun c => c.target = p.target with
    | nil => exact Nat.zero_le 1
    | cons c rest =>
        cases rest with
        | nil => exact Nat.le_refl 1
        | cons d rest =>
            exfalso
            have hgen : ∀ c' ∈ c :: d :: rest, c'.generation = p.store.generation := by
              intro c' hc'
              rw [← hcalls, List.mem_filter] at hc'
              exact (hp.current c' hc'.1).mpr (of_decide_eq_true hc'.2)
            rw [hcalls, List.map_cons, List.map_cons, List.nodup_cons] at hnodup
            refine hnodup.1 ?_
            rw [hgen c List.mem_cons_self, ← hgen d (List.mem_cons_of_mem _ List.mem_cons_self)]
            exact List.mem_cons_self

def sampleWindow (text : String) (cursor : String) : LogWindowDto where
  rows := [⟨.info, text⟩]
  cursor := some cursor
  «exists» := true
  reset := none
  hasMore := false
  sizeBytes := 10
  scannedBytes := 5
  truncatedLines := 0
  scanBoundReached := false

/-- A file is selected, a filter set while the first call is in flight, and the poll goes on. -/
def twoWindows : List LogsTurn :=
  [.selectSource .nginxError, .setCaseSensitive true, .windowArrives 0 (.ok (sampleWindow "old" "1")),
    .windowArrives 0 (.ok (sampleWindow "a" "2")), .start, .tick, .tick,
    .windowArrives 0 (.ok (sampleWindow "b" "3"))]

theorem file_view_two : ∃ p : LogsPage, p.store.rows.map LogRowDto.text = ["a", "b"] ∧ p.FileView .nginxError := by
  obtain ⟨p, hreach, hp⟩ := Lts.System.exists_of_exec (S := logsPage) twoWindows
    (fun p => decide (p.store.rows.map LogRowDto.text = ["a", "b"]) &&
      decide (p.store.selected = some .nginxError))
    (.init LogsPage.initial_mounted) (by decide +kernel)
  simp only [Bool.and_eq_true, decide_eq_true_eq] at hp
  exact ⟨p, hp.1, file_view hreach hp.2⟩

end FileSound

end OpenVHost.Window
