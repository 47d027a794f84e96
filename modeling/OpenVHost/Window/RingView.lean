/-
# The service output view

A service's lines come on two ways that nothing joins: its buffer's tail, which takes the
place of what is on screen, and the events, which are appended. The lines are right as long as
the tail ends, when it arrives, where the events that are still to come begin, and as long as
from then on one listener is there for each of them.

* `RingView` — the lines and the listeners, once all has settled.
* `Joined` — the condition.
* `RingSound` — the invariant; `ringSound_next` — every step that is joined keeps it.
* `ringView_of_reaches` — the view is right in every run whose steps are all joined.
* `line_lost` — a run in which a line is lost.
-/

import OpenVHost.Window.Listeners

namespace OpenVHost.Window

open Proc (ServiceId LogLine)

/-! ### What is claimed -/

namespace LogsPage

variable (p : LogsPage)

/-- The events of a service that are still to come: they are not delivered, or not broadcast. -/
def coming (id : ServiceId) : List ServiceLogEvent :=
  (p.events.drop p.rx ++ p.pushed).filter fun ev => ev.id = id

/-- The lines of a service as the view has them. -/
def lines (id : ServiceId) : List ServiceLogEvent := (p.produced id).map (.ofLine id)

/-- All that was issued has settled. -/
structure Settled : Prop where
  tails : p.tails = []
  registrations : p.registrations = []
  pushed : p.pushed = []
  delivered : p.rx = p.events.length

/-- What is claimed: once all has settled, the view has the last lines of the service that is
selected, and there is one listener if the last of the start and stop calls was a start, and
none otherwise. -/
structure RingView : Prop where
  lines : p.Settled → ∀ id, p.store.selected = some (.serviceRing id) →
    p.store.ringLogs = cut ringLogCap (p.lines id)
  listeners : p.registrations = [] → p.listeners.length = if p.started then 1 else 0

/-- The tail of the selection of now is in flight. -/
def Waiting : Prop := p.store.generation ∈ p.tails.map TailCall.generation

end LogsPage

/-- The subscription is there when a service is selected, and stays. -/
def Subscribed (p : LogsPage) : LogsTurn → Prop
  | .selectSource _ | .selectFromDeepLink _ => p.store.ringUnlisten.isSome = true
  | .stopRingSubscription => False
  | _ => True

/-- **The condition.** When the tail of the selection of now arrives, the events that are still to
come are those of the lines that were produced after the buffer was read. From then on, one
listener is there for each event of the service, and its events are broadcast in the order in
which the lines were pushed. No tail of the selection of now fails or is overtaken by a filter
change, and the service that is selected is not registered anew or unregistered. -/
def Joined (p : LogsPage) : LogsTurn → Prop
  | .tailArrives i => ∀ call, p.tails[i]? = some call → call.generation = p.store.generation →
      (∃ tail, call.read = some (.ok tail)) ∧ p.coming call.id = (p.lines call.id).drop call.moment
  | .tailFails i _ => ∀ call, p.tails[i]? = some call → call.generation ≠ p.store.generation
  | .setNeedle _ | .setCaseSensitive _ | .setMinLevel _ => ¬ p.Waiting
  | .deliver => ∀ ev, p.events[p.rx]? = some ev → p.store.selected = some (.serviceRing ev.id) →
      p.Waiting ∨ p.listeners.length = 1
  | .emit i => ∀ ev, p.pushed[i]? = some ev → p.store.selected = some (.serviceRing ev.id) →
      p.Waiting ∨ ∀ earlier ∈ p.pushed.take i, earlier.id ≠ ev.id
  | .register id | .unregister id => p.store.selected ≠ some (.serviceRing id)
  | _ => True

/-! ### The invariant -/

namespace LogsPage

variable (p : LogsPage)

/-- The view has the last of the lines but for those that are still to come. -/
def Seen (id : ServiceId) : Prop :=
  ∃ seen, p.lines id = seen ++ p.coming id ∧ p.store.ringLogs = cut ringLogCap seen

structure RingSound : Prop where
  buffers : ∀ id buffer, p.buffers id = some buffer → buffer = cut Proc.ringCapacity (p.produced id)
  delivered : p.rx ≤ p.events.length
  generations : ∀ c ∈ p.tails, c.generation ≤ p.store.generation
  tails : ∀ c ∈ p.tails, c.generation = p.store.generation →
    p.store.selected = some (.serviceRing c.id) ∧ c.moment ≤ (p.produced c.id).length ∧
      ∀ tail, c.read = some (.ok tail) → tail = cut ringLogCap ((p.produced c.id).take c.moment)
  seen : ∀ id, p.store.selected = some (.serviceRing id) → p.Waiting ∨ p.Seen id

end LogsPage

section Ring

variable {p p' : LogsPage} {store : LogsStore} {id : ServiceId}

/-! ### Lists -/

theorem pushBounded_cut {α : Type} (cap : Nat) (hcap : 0 < cap) (xs : List α) (x : α) :
    Proc.pushBounded cap (cut cap xs) x = cut cap (xs ++ [x]) := by
  rw [Proc.pushBounded, cut_eq_rtake, cut_eq_rtake]
  have hlength : (xs.rtake cap).length = min cap xs.length := by
    simp only [List.rtake, List.length_drop]
    omega
  split
  next hfull =>
    rw [hlength] at hfull
    simp only [List.rtake, ← List.drop_one, List.drop_drop, List.length_append, List.length_singleton]
    rw [List.drop_append_of_le_length (by omega)]
    congr 2
    omega
  next hroom =>
    rw [hlength] at hroom
    have hshort : xs.length < cap := by omega
    simp only [List.rtake, List.length_append, List.length_singleton]
    have hzero : xs.length - cap = 0 := by omega
    have hone : xs.length + 1 - cap = 0 := by omega
    rw [hzero, hone, List.drop_zero, List.drop_zero]

theorem cut_cut {α : Type} {small large : Nat} (hle : small ≤ large) (xs : List α) :
    cut small (cut large xs) = cut small xs := by
  simp only [cut_eq_rtake, List.rtake, List.drop_drop, List.length_drop]
  congr 1
  omega

theorem cut_map {α β : Type} (cap : Nat) (f : α → β) (xs : List α) : cut cap (xs.map f) = (cut cap xs).map f := by
  simp only [cut_eq_rtake, List.rtake, List.length_map, List.map_drop]

/-! ### Steps beside the view -/

/-- What does not touch the view. -/
theorem ringSound_frame (hp : p.RingSound) (hbuffers : p'.buffers = p.buffers) (hproduced : p'.produced = p.produced)
    (hpushed : p'.pushed = p.pushed) (hevents : p'.events = p.events) (hrx : p'.rx = p.rx)
    (htails : p'.tails = p.tails) (hselected : p'.store.selected = p.store.selected)
    (hgeneration : p'.store.generation = p.store.generation) (hlogs : p'.store.ringLogs = p.store.ringLogs) :
    p'.RingSound := by
  have hcoming : ∀ id, p'.coming id = p.coming id := fun id => by
    rw [LogsPage.coming, LogsPage.coming, hevents, hrx, hpushed]
  have hlines : ∀ id, p'.lines id = p.lines id := fun id => by
    rw [LogsPage.lines, LogsPage.lines, hproduced]
  constructor
  case buffers =>
    rw [hbuffers, hproduced]
    exact hp.buffers
  case delivered =>
    rw [hrx, hevents]
    exact hp.delivered
  case generations =>
    rw [htails, hgeneration]
    exact hp.generations
  case tails =>
    rw [htails, hgeneration, hselected, hproduced]
    exact hp.tails
  case seen =>
    intro id hsel
    rw [hselected] at hsel
    rcases hp.seen id hsel with hwaiting | ⟨seen, heq, hseen⟩
    · left
      rw [LogsPage.Waiting, htails, hgeneration]
      exact hwaiting
    · right
      exact ⟨seen, by rw [hlines, hcoming, heq], hlogs.trans hseen⟩

theorem ringSound_refresh (hp : p.RingSound) : p.refresh.RingSound := by
  obtain ⟨flight, calls, heq⟩ := p.refresh_eq
  rw [heq]
  exact ringSound_frame hp rfl rfl rfl rfl rfl rfl rfl rfl rfl

/-- **A selection**: a service's tail is in flight. -/
theorem ringSound_selectSource (hp : p.RingSound) (source : LogSourceDto) : (p.selectSource source).RingSound := by
  have hold : ∀ c ∈ p.tails, c.generation ≠ p.store.generation + 1 := fun c hc =>
    Nat.ne_of_lt (Nat.lt_succ_of_le (hp.generations c hc))
  have hfile : ∀ source : LogSourceDto, source.isRing = false →
      ({ p with store := p.store.select source, target := p.target + 1 } : LogsPage).RingSound := by
    intro source hsource
    refine { hp with
      generations := fun c hc => Nat.le_succ_of_le (hp.generations c hc)
      tails := fun c hc heq => absurd heq (hold c hc)
      seen := fun id hsel => ?_ }
    cases hsel
    cases hsource
  cases source with
  | serviceRing id =>
      refine { hp with generations := ?_, tails := ?_, seen := ?_ }
      · intro c hc
        rcases List.mem_append.mp hc with hc | hc
        · exact Nat.le_succ_of_le (hp.generations c hc)
        · rw [List.mem_singleton.mp hc]
          exact Nat.le_refl _
      · intro c hc heq
        rcases List.mem_append.mp hc with hc | hc
        · exact absurd heq (hold c hc)
        · rw [List.mem_singleton.mp hc]
          exact ⟨rfl, Nat.zero_le _, fun tail hread => by cases hread⟩
      · intro id' hsel
        left
        have hmem : p.store.generation + 1 ∈
            (p.tails ++ [(⟨p.store.generation + 1, id, none, 0⟩ : TailCall)]).map TailCall.generation := by
          simp
        exact hmem
  | nginxError | nginxAccess | phpFpm | siteAccess | siteError => exact ringSound_refresh (hfile _ rfl)

/-- A filter changes while no tail is in flight. -/
theorem ringSound_restart (hp : p.RingSound) (hwaiting : ¬ p.Waiting)
    (hgeneration : store.generation = p.store.generation) (hselected : store.selected = p.store.selected)
    (hlogs : store.ringLogs = p.store.ringLogs) : (p.restart store).RingSound := by
  refine ringSound_refresh ?_
  cases hsel : p.store.selected with
  | none =>
      have hrestart : store.restart = store := by
        rw [LogsStore.restart, hselected, hsel]
      rw [hrestart]
      exact ringSound_frame hp rfl rfl rfl rfl rfl rfl hselected hgeneration hlogs
  | some source =>
      have hrestart : store.restart =
          { store with
            generation := store.generation + 1
            rows := []
            cursor := none
            reset := none
            loaded := false } := by
        rw [LogsStore.restart, hselected, hsel]
      rw [hrestart]
      have hold : ∀ c ∈ p.tails, c.generation ≠ store.generation + 1 := fun c hc =>
        Nat.ne_of_lt (Nat.lt_succ_of_le (hgeneration ▸ hp.generations c hc))
      refine { hp with
        generations := fun c hc => ?_
        tails := fun c hc heq => absurd heq (hold c hc)
        seen := fun id hsel' => ?_ }
      · have hle := hp.generations c hc
        show c.generation ≤ store.generation + 1
        omega
      · have hsel'' : store.selected = some (.serviceRing id) := hsel'
        rcases hp.seen id (hselected ▸ hsel'') with hwait | ⟨seen, heq, hseen⟩
        · exact absurd hwait hwaiting
        · exact .inr ⟨seen, heq, hlogs.trans hseen⟩

/-! ### Tails -/

theorem ringSound_readTail {i : Nat} {call : TailCall} (hp : p.RingSound) (hcall : p.tails[i]? = some call) :
    ({ p with
        tails := p.tails.set i
          { call with
            read := some (p.logTail call.id ringLogCap)
            moment := (p.produced call.id).length } } : LogsPage).RingSound := by
  have hmem := List.mem_of_getElem? hcall
  have hset : ∀ {c}, c ∈ p.tails.set i
        { call with read := some (p.logTail call.id ringLogCap), moment := (p.produced call.id).length } →
      c ∈ p.tails ∨
        c = { call with read := some (p.logTail call.id ringLogCap), moment := (p.produced call.id).length } :=
    List.mem_or_eq_of_mem_set
  have hsame : (p.tails.set i { call with
        read := some (p.logTail call.id ringLogCap)
        moment := (p.produced call.id).length }).map TailCall.generation = p.tails.map TailCall.generation := by
    obtain ⟨hlt, rfl⟩ := List.getElem?_eq_some_iff.mp hcall
    rw [List.map_set]
    have hlt' : i < (p.tails.map TailCall.generation).length := by rwa [List.length_map]
    have hself := List.set_getElem_self hlt'
    rwa [List.getElem_map] at hself
  refine { hp with generations := ?_, tails := ?_, seen := ?_ }
  · intro c hc
    rcases hset hc with hc | rfl
    · exact hp.generations c hc
    · exact hp.generations call hmem
  · intro c hc heq
    rcases hset hc with hc | rfl
    · exact hp.tails c hc heq
    · refine ⟨(hp.tails call hmem heq).1, Nat.le_refl _, fun tail hread => ?_⟩
      have hread' : p.logTail call.id ringLogCap = .ok tail := Option.some.inj hread
      unfold LogsPage.logTail at hread'
      split at hread'
      · cases hread'
      next buffer hbuffer =>
        cases hread'
        rw [hp.buffers call.id buffer hbuffer, List.take_length]
        exact cut_cut (by decide) _
  · intro id hsel
    rcases hp.seen id hsel with hwaiting | hseen
    · left
      show p.store.generation ∈ _
      rw [hsame]
      exact hwaiting
    · exact .inr hseen

/-- A call that is over leaves the others. -/
theorem waiting_erase {i : Nat} {call : TailCall} (hcall : p.tails[i]? = some call)
    (hstale : call.generation ≠ p.store.generation) (h : p.Waiting) :
    p.store.generation ∈ (p.tails.eraseIdx i).map TailCall.generation := by
  obtain ⟨hlt, rfl⟩ := List.getElem?_eq_some_iff.mp hcall
  have hperm := (List.getElem_cons_eraseIdx_perm hlt).map TailCall.generation
  have hmem := hperm.mem_iff.mpr h
  rw [List.map_cons] at hmem
  rcases List.mem_cons.mp hmem with heq | hmem
  · exact absurd heq.symm hstale
  · exact hmem

/-- An answer that is not for the selection of now. -/
theorem ringSound_stale {i : Nat} {call : TailCall} {answer : Except IpcError (List LogLine)} (hp : p.RingSound)
    (hcall : p.tails[i]? = some call) (hstale : call.generation ≠ p.store.generation) :
    ({ p with
        store := p.store.tailAnswered call.generation call.id answer
        tails := p.tails.eraseIdx i } : LogsPage).RingSound := by
  have hstore : p.store.tailAnswered call.generation call.id answer = p.store := by
    simp only [LogsStore.tailAnswered, if_neg hstale]
  rw [hstore]
  refine { hp with
    generations := fun c hc => hp.generations c (List.mem_of_mem_eraseIdx hc)
    tails := fun c hc heq => hp.tails c (List.mem_of_mem_eraseIdx hc) heq
    seen := fun id hsel => ?_ }
  rcases hp.seen id hsel with hwaiting | hseen
  · exact .inl (waiting_erase hcall hstale hwaiting)
  · exact .inr hseen

/-- **The tail arrives**, and the events go on where it ends. -/
theorem ringSound_tail {i : Nat} {call : TailCall} {tail : List LogLine} (hp : p.RingSound)
    (hcall : p.tails[i]? = some call) (hgeneration : call.generation = p.store.generation)
    (hread : call.read = some (.ok tail)) (hcoming : p.coming call.id = (p.lines call.id).drop call.moment) :
    ({ p with
        store := p.store.tailAnswered call.generation call.id (.ok tail)
        tails := p.tails.eraseIdx i } : LogsPage).RingSound := by
  obtain ⟨hselected, hmoment, htail⟩ := hp.tails call (List.mem_of_getElem? hcall) hgeneration
  have hstore : p.store.tailAnswered call.generation call.id (.ok tail) =
      { p.store with ringLogs := tail.map (.ofLine call.id), readError := none, loaded := true } := by
    rw [LogsStore.tailAnswered, if_pos hgeneration]
  rw [hstore]
  refine { hp with
    generations := fun c hc => hp.generations c (List.mem_of_mem_eraseIdx hc)
    tails := fun c hc heq => hp.tails c (List.mem_of_mem_eraseIdx hc) heq
    seen := fun id hsel => .inr ?_ }
  have hid : some (LogSourceDto.serviceRing id) = some (.serviceRing call.id) := hsel.symm.trans hselected
  cases hid
  refine ⟨(p.lines call.id).take call.moment, ?_, ?_⟩
  · have hsplit := List.take_append_drop call.moment (p.lines call.id)
    rw [← hcoming] at hsplit
    exact hsplit.symm
  · show tail.map (ServiceLogEvent.ofLine call.id) = _
    rw [htail tail hread, LogsPage.lines, ← List.map_take, cut_map]

/-! ### Lines and events -/

/-- **A line is pushed.** -/
theorem ringSound_push {l : LogLine} (hp : p.RingSound) (h : p.next (.push id l) = some p') : p'.RingSound := by
  cases h
  have hproduced : ∀ {i : ServiceId}, i ≠ id →
      Function.update p.produced id (p.produced id ++ [l]) i = p.produced i :=
    fun hne => Function.update_of_ne hne _ _
  constructor
  case buffers =>
    intro i buffer hbuffer
    by_cases hi : i = id
    · subst hi
      have hbuffer' : (p.buffers i).map (fun b => Proc.pushBounded Proc.ringCapacity b l) = some buffer := by
        rw [← hbuffer]
        exact (Function.update_self i _ p.buffers).symm
      obtain ⟨old, hold, rfl⟩ := Option.map_eq_some_iff.mp hbuffer'
      show _ = cut Proc.ringCapacity (Function.update p.produced i (p.produced i ++ [l]) i)
      rw [Function.update_self, hp.buffers i old hold, pushBounded_cut _ (by decide)]
    · have hbuffer' : p.buffers i = some buffer := by
        rw [← hbuffer]
        exact (Function.update_of_ne hi ..).symm
      show _ = cut Proc.ringCapacity (Function.update p.produced id (p.produced id ++ [l]) i)
      rw [hproduced hi]
      exact hp.buffers i buffer hbuffer'
  case delivered => exact hp.delivered
  case generations => exact hp.generations
  case tails =>
    intro c hc heq
    obtain ⟨hselected, hmoment, htail⟩ := hp.tails c hc heq
    refine ⟨hselected, ?_⟩
    show c.moment ≤ (Function.update p.produced id (p.produced id ++ [l]) c.id).length ∧
      ∀ tail, c.read = some (.ok tail) →
        tail = cut ringLogCap ((Function.update p.produced id (p.produced id ++ [l]) c.id).take c.moment)
    by_cases hi : c.id = id
    · rw [← hi, Function.update_self, List.length_append, List.take_append_of_le_length hmoment]
      exact ⟨Nat.le_add_right_of_le hmoment, htail⟩
    · rw [hproduced hi]
      exact ⟨hmoment, htail⟩
  case seen =>
    intro i hsel
    rcases hp.seen i hsel with hwaiting | ⟨seen, heq, hseen⟩
    · exact .inl hwaiting
    · refine .inr ⟨seen, ?_, hseen⟩
      show (Function.update p.produced id (p.produced id ++ [l]) i).map (ServiceLogEvent.ofLine i) =
        seen ++ (p.events.drop p.rx ++ (p.pushed ++ [ServiceLogEvent.ofLine id l])).filter fun ev => ev.id = i
      rw [← List.append_assoc, List.filter_append]
      by_cases hi : i = id
      · subst hi
        rw [Function.update_self, List.map_append]
        have heq' : (p.produced i).map (ServiceLogEvent.ofLine i) = seen ++ p.coming i := heq
        rw [heq', LogsPage.coming]
        simp [ServiceLogEvent.ofLine]
      · rw [hproduced hi]
        have heq' : (p.produced i).map (ServiceLogEvent.ofLine i) = seen ++ p.coming i := heq
        rw [heq', LogsPage.coming]
        simp [ServiceLogEvent.ofLine, Ne.symm hi]

theorem coming_emit {i : Nat} {ev : ServiceLogEvent} (hle : p.rx ≤ p.events.length) (hev : p.pushed[i]? = some ev)
    (hfirst : ev.id = id → ∀ earlier ∈ p.pushed.take i, earlier.id ≠ id) :
    ({ p with pushed := p.pushed.eraseIdx i, events := p.events ++ [ev] } : LogsPage).coming id = p.coming id := by
  obtain ⟨hlt, rfl⟩ := List.getElem?_eq_some_iff.mp hev
  have hsplit : p.pushed = p.pushed.take i ++ p.pushed[i] :: p.pushed.drop (i + 1) := by
    rw [List.getElem_cons_drop, List.take_append_drop]
  have herase : p.pushed.eraseIdx i = p.pushed.take i ++ p.pushed.drop (i + 1) := List.eraseIdx_eq_take_drop_succ ..
  simp only [LogsPage.coming]
  rw [List.drop_append_of_le_length hle, herase]
  conv_rhs => rw [hsplit]
  simp only [List.filter_append, List.filter_cons, List.filter_nil, List.append_assoc]
  by_cases hid : p.pushed[i].id = id
  · -- nothing of the service is overtaken
    have hnone : (p.pushed.take i).filter (fun ev => ev.id = id) = [] :=
      List.filter_eq_nil_iff.mpr fun earlier hmem => by simpa using hfirst hid earlier hmem
    simp [hid, hnone]
  · simp [hid]

/-- **An event is delivered**, to one listener. -/
theorem ringSound_deliver {ev : ServiceLogEvent} (hp : p.RingSound) (hev : p.events[p.rx]? = some ev)
    (hone : p.store.selected = some (.serviceRing ev.id) → p.Waiting ∨ p.listeners.length = 1) :
    (p.deliverTo ev).RingSound := by
  obtain ⟨hlt, heq⟩ := List.getElem?_eq_some_iff.mp hev
  obtain ⟨-, -, hselected, hgeneration⟩ := deliver_ring p.listeners ev p.store
  constructor
  case buffers => exact hp.buffers
  case delivered => exact hlt
  case generations =>
    intro c hc
    show c.generation ≤ (p.listeners.foldl (fun store _ => store.applyRingLog ev) p.store).generation
    rw [hgeneration]
    exact hp.generations c hc
  case tails =>
    intro c hc hcurrent
    have hcurrent' := hcurrent.trans hgeneration
    obtain ⟨hsel, hrest⟩ := hp.tails c hc hcurrent'
    exact ⟨hselected.trans hsel, hrest⟩
  case seen =>
    intro id hsel
    have hsel' : p.store.selected = some (.serviceRing id) := hselected.symm.trans hsel
    have hwait : p.Waiting → (p.deliverTo ev).Waiting := by
      intro hwaiting
      have hmem : (p.listeners.foldl (fun store _ => store.applyRingLog ev) p.store).generation ∈
          p.tails.map TailCall.generation := by
        rw [hgeneration]
        exact hwaiting
      exact hmem
    rcases hp.seen id hsel' with hwaiting | ⟨seen, hlines, hseen⟩
    · exact .inl (hwait hwaiting)
    · have hcoming : p.coming id = (if ev.id = id then [ev] else []) ++ (p.deliverTo ev).coming id := by
        simp only [LogsPage.coming, LogsPage.deliverTo]
        rw [List.drop_eq_getElem_cons hlt, heq, List.cons_append, List.filter_cons]
        by_cases hid : ev.id = id
        · simp [hid]
        · simp [hid]
      by_cases hid : ev.id = id
      · rw [if_pos hid] at hcoming
        rcases hone (hid ▸ hsel') with hwaiting | hlength
        · exact .inl (hwait hwaiting)
        · obtain ⟨l, hl⟩ := List.length_eq_one_iff.mp hlength
          refine .inr ⟨seen ++ [ev], ?_, ?_⟩
          · show p.lines id = _
            rw [hlines, hcoming, List.append_assoc]
          · have hlogs : (p.deliverTo ev).store.ringLogs = cut ringLogCap (p.store.ringLogs ++ [ev]) := by
              simp [LogsPage.deliverTo, hl, LogsStore.applyRingLog, hsel', hid]
            rw [hlogs, hseen, cut_append]
      · -- an event of another service is not for this view
        rw [if_neg hid, List.nil_append] at hcoming
        refine .inr ⟨seen, ?_, ?_⟩
        · show p.lines id = _
          rw [hlines, hcoming]
        · have hsame : ∀ (listeners : List ListenerId),
              listeners.foldl (fun store _ => store.applyRingLog ev) p.store = p.store := by
            intro listeners
            induction listeners with
            | nil => rfl
            | cons l rest ih =>
                rw [List.foldl_cons]
                have hnone : p.store.applyRingLog ev = p.store := by
                  simp [LogsStore.applyRingLog, hsel', Ne.symm hid]
                rw [hnone]
                exact ih
          show (p.listeners.foldl (fun store _ => store.applyRingLog ev) p.store).ringLogs = _
          rw [hsame, hseen]

/-- The service is registered anew, or unregistered, while it is not selected. -/
theorem ringSound_forget {buffer : Option (List LogLine)} (hp : p.RingSound)
    (hother : p.store.selected ≠ some (.serviceRing id)) (hbuffer : ∀ b, buffer = some b → b = []) :
    ({ p with
        buffers := Function.update p.buffers id buffer
        produced := Function.update p.produced id [] } : LogsPage).RingSound := by
  have hkept : ∀ {i : ServiceId}, p.store.selected = some (.serviceRing i) →
      Function.update p.produced id [] i = p.produced i := by
    intro i hsel
    refine Function.update_of_ne ?_ _ _
    rintro rfl
    exact hother hsel
  refine { hp with buffers := ?_, tails := ?_, seen := ?_ }
  · intro i b hb
    by_cases hi : i = id
    · subst hi
      have hb' : buffer = some b := by
        rw [← hb]
        exact (Function.update_self i _ p.buffers).symm
      rw [hbuffer b hb']
      show [] = cut Proc.ringCapacity (Function.update p.produced i [] i)
      rw [Function.update_self]
      rfl
    · have hb' : p.buffers i = some b := by
        rw [← hb]
        exact (Function.update_of_ne hi ..).symm
      show b = cut Proc.ringCapacity (Function.update p.produced id [] i)
      rw [Function.update_of_ne hi]
      exact hp.buffers i b hb'
  · intro c hc heq
    obtain ⟨hsel, hrest⟩ := hp.tails c hc heq
    refine ⟨hsel, ?_⟩
    show c.moment ≤ (Function.update p.produced id [] c.id).length ∧ ∀ tail, c.read = some (.ok tail) →
      tail = cut ringLogCap ((Function.update p.produced id [] c.id).take c.moment)
    rw [hkept hsel]
    exact hrest
  · intro i hsel
    rcases hp.seen i hsel with hwaiting | ⟨seen, heq, hseen⟩
    · exact .inl hwaiting
    · refine .inr ⟨seen, ?_, hseen⟩
      show (Function.update p.produced id [] i).map (ServiceLogEvent.ofLine i) = _
      rw [hkept hsel]
      exact heq

/-- **Every step that is joined keeps the invariant.** -/
theorem ringSound_next {turn : LogsTurn} (hp : p.RingSound) (hjoined : Joined p turn) (h : p.next turn = some p') :
    p'.RingSound := by
  cases turn with
  | loadSources | setFollow | start | stop =>
      cases h
      exact ringSound_frame hp rfl rfl rfl rfl rfl rfl rfl rfl rfl
  | sourcesArrive answer =>
      simp only [LogsPage.next, Option.ite_none_left_eq_some, Option.some.injEq] at h
      obtain ⟨-, rfl⟩ := h
      cases answer <;> exact ringSound_frame hp rfl rfl rfl rfl rfl rfl rfl rfl rfl
  | selectSource source =>
      cases h
      exact ringSound_selectSource hp source
  | selectFromDeepLink requested =>
      cases h
      have hlink : ∀ link, ({ p with store := { p.store with requestedUnavailable := link } } :
          LogsPage).RingSound := fun link => ringSound_frame hp rfl rfl rfl rfl rfl rfl rfl rfl rfl
      cases requested with
      | none =>
          simp only [LogsPage.selectFromDeepLink]
          split
          · exact ringSound_selectSource (hlink none) _
          · exact hlink none
      | some requested =>
          simp only [LogsPage.selectFromDeepLink]
          split
          · exact ringSound_selectSource hp _
          · exact hlink _
  | setNeedle | setCaseSensitive | setMinLevel =>
      cases h
      exact ringSound_restart hp hjoined rfl rfl rfl
  | jumpToLatest =>
      cases h
      have hfollow : ({ p with store := p.store.setFollow true } : LogsPage).RingSound :=
        ringSound_frame hp rfl rfl rfl rfl rfl rfl rfl rfl rfl
      exact ringSound_refresh hfollow
  | tick =>
      simp only [LogsPage.next, Option.ite_none_right_eq_some, Option.some.injEq] at h
      obtain ⟨-, rfl⟩ := h
      exact ringSound_refresh hp
  | windowArrives i answer =>
      obtain ⟨call, -, h⟩ := Option.bind_eq_some_iff.mp h
      cases h
      have hring := p.store.windowAnswered_ring call.generation answer
      exact ringSound_frame hp rfl rfl rfl rfl rfl rfl hring.selected hring.generation hring.ringLogs
  | readTail i =>
      obtain ⟨call, hcall, h⟩ := Option.bind_eq_some_iff.mp h
      simp only [Option.ite_none_left_eq_some, Option.some.injEq] at h
      obtain ⟨-, rfl⟩ := h
      exact ringSound_readTail hp hcall
  | tailArrives i =>
      obtain ⟨call, hcall, h⟩ := Option.bind_eq_some_iff.mp h
      obtain ⟨answer, hread, h⟩ := Option.bind_eq_some_iff.mp h
      cases h
      by_cases hgeneration : call.generation = p.store.generation
      · obtain ⟨⟨tail, htail⟩, hcoming⟩ := hjoined call hcall hgeneration
        rw [hread] at htail
        cases htail
        exact ringSound_tail hp hcall hgeneration hread hcoming
      · exact ringSound_stale hp hcall hgeneration
  | tailFails i e =>
      obtain ⟨call, hcall, h⟩ := Option.bind_eq_some_iff.mp h
      cases h
      exact ringSound_stale hp hcall (hjoined call hcall)
  | startRingSubscription | stopRingSubscription =>
      simp only [LogsPage.next] at h
      split at h <;>
        · cases h
          exact ringSound_frame hp rfl rfl rfl rfl rfl rfl rfl rfl rfl
  | activate i =>
      obtain ⟨r, -, h⟩ := Option.bind_eq_some_iff.mp h
      simp only [Option.ite_none_left_eq_some, Option.some.injEq] at h
      obtain ⟨-, rfl⟩ := h
      exact ringSound_frame hp rfl rfl rfl rfl rfl rfl rfl rfl rfl
  | registered i =>
      obtain ⟨r, -, h⟩ := Option.bind_eq_some_iff.mp h
      simp only [Option.ite_none_left_eq_some] at h
      obtain ⟨-, h⟩ := h
      split at h <;>
        · cases h
          exact ringSound_frame hp rfl rfl rfl rfl rfl rfl rfl rfl rfl
  | push id l => exact ringSound_push hp h
  | emit i =>
      obtain ⟨ev, hev, h⟩ := Option.bind_eq_some_iff.mp h
      cases h
      refine { hp with delivered := ?_, seen := ?_ }
      · show p.rx ≤ (p.events ++ [ev]).length
        rw [List.length_append]
        exact Nat.le_add_right_of_le hp.delivered
      · intro id hsel
        rcases hp.seen id hsel with hwaiting | ⟨seen, heq, hseen⟩
        · exact .inl hwaiting
        · by_cases hid : ev.id = id
          · subst hid
            rcases hjoined ev hev hsel with hwaiting | hfirst
            · exact .inl hwaiting
            · refine .inr ⟨seen, ?_, hseen⟩
              rw [coming_emit hp.delivered hev fun _ => hfirst]
              exact heq
          · refine .inr ⟨seen, ?_, hseen⟩
            rw [coming_emit hp.delivered hev fun hsame => absurd hsame hid]
            exact heq
  | deliver =>
      obtain ⟨ev, hev, h⟩ := Option.bind_eq_some_iff.mp h
      cases h
      exact ringSound_deliver hp hev (hjoined ev hev)
  | register id =>
      cases h
      exact ringSound_forget hp hjoined fun b hb => (Option.some.inj hb).symm
  | unregister id =>
      cases h
      exact ringSound_forget hp hjoined fun b hb => by cases hb

theorem ringSound_of_initial (h : p.Initial) : p.RingSound := by
  have hnone : ∀ c, c ∉ p.tails := fun c hc => by
    rw [h.tails] at hc
    cases hc
  constructor
  case buffers => exact h.buffers
  case delivered => exact h.rx.le
  case generations => exact fun c hc => absurd hc (hnone c)
  case tails => exact fun c hc => absurd hc (hnone c)
  case seen =>
    intro id hsel
    rw [h.store] at hsel
    cases hsel

theorem ringSound_of_reaches (h : logsPage.Reaches Joined p) : p.RingSound :=
  h.invariant (fun _ => ringSound_of_initial) fun _ _ _ hp hj hn => ringSound_next hp hj hn

/-- The view, when nothing is still to come. -/
theorem LogsPage.RingSound.ringLogs_eq (hp : p.RingSound) (hsettled : p.Settled) {id : ServiceId}
    (hsel : p.store.selected = some (.serviceRing id)) :
    p.store.ringLogs = cut ringLogCap (p.lines id) := by
  rcases hp.seen id hsel with hwaiting | ⟨seen, heq, hseen⟩
  · rw [LogsPage.Waiting, hsettled.tails] at hwaiting
    cases hwaiting
  · have hnothing : p.coming id = [] := by
      rw [LogsPage.coming, hsettled.delivered, hsettled.pushed, List.drop_length]
      rfl
    rw [hseen, heq, hnothing, List.append_nil]

/-- The number of listeners, when no registration is under way. -/
theorem length_listeners (h : logsPage.Reachable p) (hregistrations : p.registrations = []) :
    p.listeners.length = if p.started then 1 else 0 := by
  have hsettle := listeners_settle h hregistrations
  cases hstarted : p.started with
  | true =>
      rw [if_pos hstarted] at hsettle
      obtain ⟨l, hl, -⟩ := hsettle
      rw [hl]
      rfl
  | false =>
      rw [hstarted, if_neg Bool.false_ne_true] at hsettle
      rw [hsettle.1]
      rfl

/-- The view is right in every run whose steps are all joined. -/
theorem ringView_of_reaches (h : logsPage.Reaches Joined p) : p.RingView :=
  ⟨fun hsettled _ hsel => (ringSound_of_reaches h).ringLogs_eq hsettled hsel,
    length_listeners (h.mono fun _ _ _ => trivial)⟩

/-! ### Runs -/

/-- A check for `Joined`. -/
def joinedNow (p : LogsPage) : LogsTurn → Bool
  | .tailArrives i => (p.tails[i]?).all fun call => decide (call.generation ≠ p.store.generation) ||
      match call.read with
      | some (.ok _) => decide (p.coming call.id = (p.lines call.id).drop call.moment)
      | _ => false
  | .tailFails _ _ | .setNeedle _ | .setCaseSensitive _ | .setMinLevel _ => false
  | .deliver => decide (p.listeners.length = 1)
  | .emit i => decide (i = 0)
  | .register id | .unregister id => decide (p.store.selected ≠ some (.serviceRing id))
  | _ => true

theorem joined_of_joinedNow {turn : LogsTurn} (h : joinedNow p turn = true) : Joined p turn := by
  cases turn with
  | tailArrives i =>
      intro call hcall hgeneration
      rw [joinedNow, hcall] at h
      simp only [Option.all_some, hgeneration, ne_eq, not_true_eq_false, decide_false, Bool.false_or] at h
      split at h
      next tail hread => exact ⟨⟨tail, hread⟩, of_decide_eq_true h⟩
      next => cases h
  | tailFails | setNeedle | setCaseSensitive | setMinLevel => cases h
  | deliver => exact fun ev _ _ => .inr (of_decide_eq_true h)
  | emit i =>
      intro ev _ _
      rw [of_decide_eq_true h]
      exact .inr fun earlier hmem => by cases hmem
  | register id | unregister id =>
      have hother : p.store.selected ≠ some (.serviceRing id) := of_decide_eq_true h
      exact hother
  | loadSources | sourcesArrive | selectSource | selectFromDeepLink | setFollow | jumpToLatest | start | stop
  | tick | windowArrives | readTail | startRingSubscription | stopRingSubscription | activate | registered
  | push => trivial

def sampleLine : LogLine := ⟨1758, .info, "listening"⟩

/-- A service is registered, the page subscribes, and the service is selected. -/
def selectedRing : List LogsTurn :=
  [.register "web", .startRingSubscription, .activate 0, .registered 0, .selectSource (.serviceRing "web")]

/-- A check for `Subscribed`. -/
def subscribedNow (p : LogsPage) : LogsTurn → Bool
  | .selectSource _ | .selectFromDeepLink _ => p.store.ringUnlisten.isSome
  | .stopRingSubscription => false
  | _ => true

theorem subscribed_of_subscribedNow {turn : LogsTurn} (h : subscribedNow p turn = true) : Subscribed p turn := by
  cases turn with
  | selectSource | selectFromDeepLink => exact h
  | stopRingSubscription => cases h
  | loadSources | sourcesArrive | setNeedle | setCaseSensitive | setMinLevel | setFollow | jumpToLatest | start
  | stop | tick | windowArrives | readTail | tailArrives | tailFails | startRingSubscription | activate
  | registered | push | emit | deliver | register | unregister => trivial

/-- **A line that is lost**: the buffer is read, then the service writes a line, and the line is
delivered before the tail takes its place. -/
theorem line_lost : ¬ ∀ p, logsPage.Reaches Subscribed p → p.RingView := by
  intro hall
  obtain ⟨p, hreach, -, hp⟩ := Lts.System.exists_of_execWhile (S := logsPage) (I := fun _ => True) subscribedNow
    (selectedRing ++ [.readTail 0, .push "web" sampleLine, .emit 0, .deliver, .tailArrives 0])
    (fun p => decide (p.store.ringLogs = []) && decide (p.store.selected = some (.serviceRing "web")) &&
      decide (p.produced "web" = [sampleLine]) && p.tails.isEmpty &&
      decide (p.registrations = []) && decide (p.pushed = []) && decide (p.rx = p.events.length))
    (fun _ _ _ _ _ => trivial) (fun _ _ _ => subscribed_of_subscribedNow) (.init LogsPage.initial_mounted)
    trivial (by decide +kernel)
  simp only [Bool.and_eq_true, decide_eq_true_eq, List.isEmpty_iff] at hp
  obtain ⟨⟨⟨⟨⟨⟨hlogs, hselected⟩, hproduced⟩, htails⟩, hregistrations⟩, hpushed⟩, hdelivered⟩ := hp
  have hlines := (hall p hreach).lines ⟨htails, hregistrations, hpushed, hdelivered⟩ "web" hselected
  rw [hlogs, LogsPage.lines, hproduced] at hlines
  cases hlines

end Ring

end OpenVHost.Window
