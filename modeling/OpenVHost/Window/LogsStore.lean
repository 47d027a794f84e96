/-
# The log page

The page shows one source at a time. A file is read window after window, each call from the
cursor that the one before returned; what a service writes is its buffer's tail once, and then
the lines that are pushed.

* `LogsStore` — the page's state, and its methods up to each await and after it.
* `LogsPage` — the store beside its calls in flight, the supervisor's buffers and events, and
  the listeners. That the buffers and events are the supervisor's own is `Window/Shown.lean`.
* `rtake_append_rtake` — a list that is cut at each append is the cut of the whole.
-/

import Mathlib.Data.List.DropRight
import OpenVHost.Text.Utf8
import OpenVHost.Window.Services

namespace OpenVHost.Window

open Proc (ServiceId LogLevel LogLine)

/-! ### Lists that are cut -/

/-- The last so many elements. -/
def cut {α : Type} (cap : Nat) (xs : List α) : List α :=
  if xs.length > cap then xs.drop (xs.length - cap) else xs

section Cut

variable {α : Type} {cap : Nat}

theorem cut_eq_rtake (xs : List α) : cut cap xs = xs.rtake cap := by
  rw [cut, List.rtake]
  split
  next => rfl
  next hle =>
    have hzero : xs.length - cap = 0 := by omega
    rw [hzero, List.drop_zero]

theorem rtake_append_rtake (xs ys : List α) : (xs.rtake cap ++ ys).rtake cap = (xs ++ ys).rtake cap := by
  simp only [List.rtake, List.length_append, List.length_drop, List.drop_append, List.drop_drop]
  congr 1
  · congr 1
    omega
  · congr 1
    omega

/-- Cutting at each append. -/
theorem cut_append (xs ys : List α) : cut cap (cut cap xs ++ ys) = cut cap (xs ++ ys) := by
  simp only [cut_eq_rtake, rtake_append_rtake]

theorem cut_suffix (xs : List α) : cut cap xs <:+ xs := by
  rw [cut_eq_rtake]
  exact List.drop_suffix _ _

end Cut

/-! ### What is asked and answered -/

inductive LogSourceDto where
  | nginxError
  | nginxAccess
  | phpFpm (major : String)
  | siteAccess (domain : String)
  | siteError (domain : String)
  | serviceRing (id : ServiceId)
  deriving DecidableEq, Repr

def LogSourceDto.isRing : LogSourceDto → Bool
  | .serviceRing _ => true
  | _ => false

/-- `sameSource` -/
def sameSource (a b : LogSourceDto) : Bool := decide (a = b)

inductive LogSourceKindDto where
  | file
  | ring
  deriving DecidableEq, Repr

structure LogSourceRowDto where
  source : LogSourceDto
  label : String
  kind : LogSourceKindDto
  «exists» : Bool
  sizeBytes : Option Nat
  id : Option ServiceId
  deriving DecidableEq, Repr

structure LogWindowQuery where
  source : LogSourceDto
  cursor : Option String
  needle : Option String
  caseSensitive : Bool
  minLevel : Option LogLevel
  deriving DecidableEq, Repr

inductive LogResetDto where
  | rotated
  | truncated
  deriving DecidableEq, Repr

structure LogRowDto where
  level : LogLevel
  text : String
  deriving DecidableEq, Repr

structure LogWindowDto where
  rows : List LogRowDto
  cursor : Option String
  «exists» : Bool
  reset : Option LogResetDto
  hasMore : Bool
  sizeBytes : Nat
  scannedBytes : Nat
  truncatedLines : Nat
  scanBoundReached : Bool
  deriving DecidableEq, Repr

structure ServiceLogEvent where
  id : ServiceId
  tsMs : Nat
  level : LogLevel
  line : String
  deriving DecidableEq, Repr

/-- `{ ...l, id }` -/
def ServiceLogEvent.ofLine (id : ServiceId) (l : LogLine) : ServiceLogEvent := ⟨id, l.tsMs, l.level, l.line⟩

abbrev ListenerId := Nat

def maxRenderedRows : Nat := 500

def ringLogCap : Nat := 50

def logNeedleMaxBytes : Nat := 256

/-- Back to where no character is cut in two. -/
def charBoundary (bytes : List UInt8) : Nat → Nat
  | 0 => 0
  | n + 1 => if Text.isCont (bytes.getD (n + 1) 0) then charBoundary bytes n else n + 1

/-- `TextDecoder` drops a byte order mark at the start. -/
def textDecode (bytes : List UInt8) : List Char :=
  match Text.fromUtf8Lossy bytes with
  | '\uFEFF' :: rest => rest
  | text => text

def truncateToUtf8Bytes (s : String) (maxBytes : Nat) : String :=
  let bytes := Text.utf8 s.toList
  if bytes.length ≤ maxBytes then s
  else String.ofList (textDecode (bytes.take (charBoundary bytes maxBytes)))

/-! ### The store -/

structure LogsStore where
  sources : List LogSourceRowDto
  sourcesError : Option IpcError
  selected : Option LogSourceDto
  requestedUnavailable : Option LogSourceDto
  rows : List LogRowDto
  ringLogs : List ServiceLogEvent
  «exists» : Bool
  reset : Option LogResetDto
  hasMore : Bool
  sizeBytes : Nat
  scannedBytes : Nat
  truncatedLines : Nat
  scanBoundReached : Bool
  readError : Option IpcError
  loaded : Bool
  follow : Bool
  newRowsWhilePaused : Bool
  needle : String
  caseSensitive : Bool
  minLevel : Option LogLevel
  cursor : Option String
  /-- The poll is armed. -/
  timer : Bool
  /-- A call's answer is for the selection and the filters of now if this is still what it was. -/
  generation : Nat
  /-- The generation of the call that is in flight. -/
  inFlightGeneration : Option Nat
  ringUnlisten : Option ListenerId
  ringSubscriptionEpoch : Nat
  deriving DecidableEq, Repr

namespace LogsStore

variable (s : LogsStore)

def sourcesAnswered : Except IpcError (List LogSourceRowDto) → LogsStore
  | .ok sources => { s with sources := sources, sourcesError := none }
  | .error e => { s with sourcesError := some e, sources := [] }

/-- What `selectSource` sets before it reads. -/
def select (source : LogSourceDto) : LogsStore :=
  { s with
    generation := s.generation + 1
    selected := some source
    requestedUnavailable := none
    rows := []
    ringLogs := []
    cursor := none
    «exists» := true
    reset := none
    hasMore := false
    readError := none
    loaded := false
    follow := true
    newRowsWhilePaused := false }

/-- The filters as they are sent. -/
def query (source : LogSourceDto) (cursor : Option String) : LogWindowQuery where
  source := source
  cursor := cursor
  needle := if s.needle = "" then none else some s.needle
  caseSensitive := s.caseSensitive
  minLevel := s.minLevel

/-- `refresh` up to its await, with the call that it makes. -/
def refresh : LogsStore × Option LogWindowQuery :=
  match s.selected with
  | none | some (.serviceRing _) => (s, none)
  | some source =>
      if s.inFlightGeneration = some s.generation then (s, none)
      else ({ s with inFlightGeneration := some s.generation }, some (s.query source s.cursor))

/-- What `restart` sets before it reads. -/
def restart : LogsStore :=
  match s.selected with
  | none => s
  | some _ =>
      { s with
        generation := s.generation + 1
        rows := []
        cursor := none
        reset := none
        loaded := false }

def setNeedle (raw : String) : LogsStore := { s with needle := truncateToUtf8Bytes raw logNeedleMaxBytes }

def setCaseSensitive (on : Bool) : LogsStore := { s with caseSensitive := on }

def setMinLevel (level : Option LogLevel) : LogsStore := { s with minLevel := level }

def setFollow (on : Bool) : LogsStore :=
  { s with follow := on, newRowsWhilePaused := if on then false else s.newRowsWhilePaused }

end LogsStore

/-- The window's rows are no continuation of those on screen. -/
def LogWindowDto.fresh (w : LogWindowDto) : Bool := w.reset.isSome || !w.exists

namespace LogsStore

variable (s : LogsStore)

def applyWindow (w : LogWindowDto) : LogsStore :=
  { s with
    cursor := w.cursor
    «exists» := w.exists
    reset := w.reset
    hasMore := w.hasMore
    sizeBytes := w.sizeBytes
    scannedBytes := w.scannedBytes
    truncatedLines := w.truncatedLines
    scanBoundReached := w.scanBoundReached
    rows := cut maxRenderedRows (if w.fresh then w.rows else s.rows ++ w.rows)
    newRowsWhilePaused := if !s.follow && !w.rows.isEmpty then true else s.newRowsWhilePaused }

/-- `refresh` after its await. -/
def windowAnswered (generation : Nat) (answer : Except IpcError LogWindowDto) : LogsStore :=
  let s' :=
    if generation = s.generation then
      match answer with
      | .ok w => { s.applyWindow w with readError := none, loaded := true }
      | .error e => { s with readError := some e, loaded := true }
    else s
  if s'.inFlightGeneration = some generation then { s' with inFlightGeneration := none } else s'

/-- `selectRingSource` after its await. -/
def tailAnswered (generation : Nat) (id : ServiceId) (answer : Except IpcError (List LogLine)) : LogsStore :=
  if generation = s.generation then
    match answer with
    | .ok tail => { s with ringLogs := tail.map (.ofLine id), readError := none, loaded := true }
    | .error e => { s with readError := some e, loaded := true }
  else s

def applyRingLog (ev : ServiceLogEvent) : LogsStore :=
  match s.selected with
  | some (.serviceRing id) =>
      if id = ev.id then { s with ringLogs := cut ringLogCap (s.ringLogs ++ [ev]) } else s
  | _ => s

end LogsStore

/-! What the reading of files leaves as it is. -/

theorem LogsStore.refresh_eq (s : LogsStore) :
    ∃ flight, s.refresh.1 = { s with inFlightGeneration := flight } := by
  unfold LogsStore.refresh
  split
  · exact ⟨s.inFlightGeneration, rfl⟩
  · exact ⟨s.inFlightGeneration, rfl⟩
  · split
    · exact ⟨s.inFlightGeneration, rfl⟩
    · exact ⟨_, rfl⟩

/-- The selection, the lines of a service and the subscription. -/
structure LogsStore.SameRing (s s' : LogsStore) : Prop where
  selected : s'.selected = s.selected
  generation : s'.generation = s.generation
  ringLogs : s'.ringLogs = s.ringLogs
  ringUnlisten : s'.ringUnlisten = s.ringUnlisten
  epoch : s'.ringSubscriptionEpoch = s.ringSubscriptionEpoch

theorem LogsStore.windowAnswered_ring (s : LogsStore) (generation : Nat) (answer : Except IpcError LogWindowDto) :
    s.SameRing (s.windowAnswered generation answer) := by
  unfold LogsStore.windowAnswered
  cases answer with
  | ok w =>
      constructor <;> dsimp only <;> split <;> split <;> rfl
  | error e =>
      constructor <;> dsimp only <;> split <;> split <;> rfl

/-! ### The page -/

/-- A `readLogWindow` call, with the generation that it captured. Beside it stands how many
selections and filter changes there had been by then. -/
structure WindowCall where
  generation : Nat
  query : LogWindowQuery
  target : Nat
  deriving DecidableEq, Repr

/-- A window that was returned. -/
structure Answered where
  query : LogWindowQuery
  window : LogWindowDto
  target : Nat
  deriving DecidableEq, Repr

/-- A `serviceLogTail` call, and the answer once the buffer was read; the service had produced
so many lines by then. -/
structure TailCall where
  generation : Nat
  id : ServiceId
  read : Option (Except IpcError (List LogLine))
  moment : Nat

/-- An `onServiceLog` call. Its listener may be there before its promise resolves. -/
structure Registration where
  epoch : Nat
  listener : ListenerId
  deriving DecidableEq, Repr

structure LogsPage where
  store : LogsStore
  /-- How many selections and filter changes there have been. -/
  target : Nat
  windowCalls : List WindowCall
  /-- The windows that were returned, in the order of their arrival. -/
  answered : List Answered
  /-- So many `listLogSources` calls are in flight. -/
  loads : Nat
  tails : List TailCall
  /-- The ring buffers of the services that are registered. -/
  buffers : ServiceId → Option (List LogLine)
  /-- What a service has produced since it was registered. -/
  produced : ServiceId → List LogLine
  /-- The lines that are in the buffers, and still to be broadcast. -/
  pushed : List ServiceLogEvent
  /-- The `service-log` events, in the order in which they were emitted. -/
  events : List ServiceLogEvent
  /-- So many of them were delivered. -/
  rx : Nat
  registrations : List Registration
  /-- The listeners that events reach. -/
  listeners : List ListenerId
  nextListener : ListenerId
  /-- The last of the start and stop calls was a start. -/
  started : Bool

inductive LogsTurn where
  | loadSources
  | sourcesArrive (answer : Except IpcError (List LogSourceRowDto))
  | selectSource (source : LogSourceDto)
  | selectFromDeepLink (requested : Option LogSourceDto)
  | setNeedle (raw : String)
  | setCaseSensitive (on : Bool)
  | setMinLevel (level : Option LogLevel)
  | setFollow (on : Bool)
  | jumpToLatest
  | start
  | stop
  /-- The timer calls `refresh`. -/
  | tick
  | windowArrives (i : Nat) (answer : Except IpcError LogWindowDto)
  /-- The supervisor's half of a tail call. -/
  | readTail (i : Nat)
  | tailArrives (i : Nat)
  | tailFails (i : Nat) (e : IpcError)
  | startRingSubscription
  | stopRingSubscription
  | activate (i : Nat)
  /-- The promise of a registration resolves. -/
  | registered (i : Nat)
  /-- `push_log`: the line goes to the buffer, and is broadcast afterwards. -/
  | push (id : ServiceId) (l : LogLine)
  | emit (i : Nat)
  | deliver
  | register (id : ServiceId)
  | unregister (id : ServiceId)

namespace LogsPage

variable (p : LogsPage)

/-- The call that `refresh` makes. -/
def refresh : LogsPage :=
  match p.store.refresh with
  | (store, none) => { p with store := store }
  | (store, some query) =>
      { p with
        store := store
        windowCalls := p.windowCalls ++ [⟨store.generation, query, p.target⟩] }

def selectSource (source : LogSourceDto) : LogsPage :=
  let p' := { p with store := p.store.select source, target := p.target + 1 }
  match source with
  | .serviceRing id => { p' with tails := p'.tails ++ [⟨p'.store.generation, id, none, 0⟩] }
  | _ => p'.refresh

/-- A filter has changed. -/
def restart (store : LogsStore) : LogsPage :=
  { p with store := store.restart, target := p.target + 1 }.refresh

def selectFromDeepLink : Option LogSourceDto → LogsPage
  | none =>
      let p' := { p with store := { p.store with requestedUnavailable := none } }
      match p.store.sources.find? fun row => row.source = .nginxError with
      | some fallback => p'.selectSource fallback.source
      | none => p'
  | some requested =>
      if p.store.sources.any fun row => sameSource row.source requested then p.selectSource requested
      else { p with store := { p.store with requestedUnavailable := some requested } }

/-- The windows that were returned, with an answer. -/
def answeredWith (call : WindowCall) : Except IpcError LogWindowDto → List Answered
  | .ok w => p.answered ++ [⟨call.query, w, call.target⟩]
  | .error _ => p.answered

/-- `log_tail`, with the last lines of the buffer. -/
def logTail (id : ServiceId) (n : Nat) : Except IpcError (List LogLine) :=
  match p.buffers id with
  | none => .error ("unknown service '" ++ id ++ "'")
  | some buffer => .ok (cut n buffer)

/-- An event is delivered to each listener. -/
def deliverTo (ev : ServiceLogEvent) : LogsPage :=
  { p with
    rx := p.rx + 1
    store := p.listeners.foldl (fun store _ => store.applyRingLog ev) p.store }

def unlisten (listener : ListenerId) : LogsPage := { p with listeners := p.listeners.erase listener }

def next : LogsTurn → Option LogsPage
  | .loadSources => some { p with loads := p.loads + 1 }
  | .sourcesArrive answer =>
      if p.loads = 0 then none
      else some { p with loads := p.loads - 1, store := p.store.sourcesAnswered answer }
  | .selectSource source => some (p.selectSource source)
  | .selectFromDeepLink requested => some (p.selectFromDeepLink requested)
  | .setNeedle raw => some (p.restart (p.store.setNeedle raw))
  | .setCaseSensitive on => some (p.restart (p.store.setCaseSensitive on))
  | .setMinLevel level => some (p.restart (p.store.setMinLevel level))
  | .setFollow on => some { p with store := p.store.setFollow on }
  | .jumpToLatest => some { p with store := p.store.setFollow true }.refresh
  | .start => some { p with store := { p.store with timer := true } }
  | .stop => some { p with store := { p.store with timer := false } }
  | .tick => if p.store.timer then some p.refresh else none
  | .windowArrives i answer => do
      let call ← p.windowCalls[i]?
      some
        { p with
          store := p.store.windowAnswered call.generation answer
          windowCalls := p.windowCalls.eraseIdx i
          answered := p.answeredWith call answer }
  | .readTail i => do
      let call ← p.tails[i]?
      if call.read.isSome then none
      else
        some
          { p with
            tails := p.tails.set i
              { call with
                read := some (p.logTail call.id ringLogCap)
                moment := (p.produced call.id).length } }
  | .tailArrives i => do
      let call ← p.tails[i]?
      let answer ← call.read
      some
        { p with
          store := p.store.tailAnswered call.generation call.id answer
          tails := p.tails.eraseIdx i }
  | .tailFails i e => do
      let call ← p.tails[i]?
      some
        { p with
          store := p.store.tailAnswered call.generation call.id (.error e)
          tails := p.tails.eraseIdx i }
  | .startRingSubscription =>
      match p.store.ringUnlisten with
      | some _ => some { p with started := true }
      | none =>
          let epoch := p.store.ringSubscriptionEpoch + 1
          some
            { p with
              store := { p.store with ringSubscriptionEpoch := epoch }
              registrations := p.registrations ++ [⟨epoch, p.nextListener⟩]
              nextListener := p.nextListener + 1
              started := true }
  | .stopRingSubscription =>
      let store :=
        { p.store with ringSubscriptionEpoch := p.store.ringSubscriptionEpoch + 1, ringUnlisten := none }
      match p.store.ringUnlisten with
      | none => some { p with store := store, started := false }
      | some listener => some ({ p with store := store, started := false }.unlisten listener)
  | .activate i => do
      let r ← p.registrations[i]?
      if r.listener ∈ p.listeners then none
      else some { p with listeners := p.listeners ++ [r.listener] }
  | .registered i => do
      let r ← p.registrations[i]?
      let p' := { p with registrations := p.registrations.eraseIdx i }
      if r.listener ∉ p.listeners then none
      else if r.epoch ≠ p.store.ringSubscriptionEpoch then some (p'.unlisten r.listener)
      else some { p' with store := { p.store with ringUnlisten := some r.listener } }
  | .push id l =>
      some
        { p with
          buffers := Function.update p.buffers id
            ((p.buffers id).map fun buffer => Proc.pushBounded Proc.ringCapacity buffer l)
          produced := Function.update p.produced id (p.produced id ++ [l])
          pushed := p.pushed ++ [.ofLine id l] }
  | .emit i => do
      let ev ← p.pushed[i]?
      some { p with pushed := p.pushed.eraseIdx i, events := p.events ++ [ev] }
  | .deliver => do
      let ev ← p.events[p.rx]?
      some (p.deliverTo ev)
  | .register id =>
      some
        { p with
          buffers := Function.update p.buffers id (some [])
          produced := Function.update p.produced id [] }
  | .unregister id =>
      some
        { p with
          buffers := Function.update p.buffers id none
          produced := Function.update p.produced id [] }

end LogsPage

/-- `refresh` makes a call at most. -/
theorem LogsPage.refresh_eq (p : LogsPage) :
    ∃ flight calls, p.refresh =
      { p with store := { p.store with inFlightGeneration := flight }, windowCalls := calls } := by
  obtain ⟨flight, hstore⟩ := p.store.refresh_eq
  unfold LogsPage.refresh
  split
  next store heq =>
    rw [heq] at hstore
    have hstore' : store = { p.store with inFlightGeneration := flight } := hstore
    exact ⟨flight, p.windowCalls, by rw [hstore']⟩
  next store query heq =>
    rw [heq] at hstore
    have hstore' : store = { p.store with inFlightGeneration := flight } := hstore
    exact ⟨flight, _, by rw [hstore']⟩

def LogsStore.new : LogsStore where
  sources := []
  sourcesError := none
  selected := none
  requestedUnavailable := none
  rows := []
  ringLogs := []
  «exists» := true
  reset := none
  hasMore := false
  sizeBytes := 0
  scannedBytes := 0
  truncatedLines := 0
  scanBoundReached := false
  readError := none
  loaded := false
  follow := true
  newRowsWhilePaused := false
  needle := ""
  caseSensitive := false
  minLevel := none
  cursor := none
  timer := false
  generation := 0
  inFlightGeneration := none
  ringUnlisten := none
  ringSubscriptionEpoch := 0

/-- A page that is mounted, beside services that may have produced lines before. -/
structure LogsPage.Initial (p : LogsPage) : Prop where
  store : p.store = .new
  target : p.target = 0
  windowCalls : p.windowCalls = []
  answered : p.answered = []
  loads : p.loads = 0
  tails : p.tails = []
  buffers : ∀ id buffer, p.buffers id = some buffer → buffer = cut Proc.ringCapacity (p.produced id)
  rx : p.rx = p.events.length
  registrations : p.registrations = []
  listeners : p.listeners = []
  started : p.started = false

/-- A page that is mounted before any service is registered. -/
def LogsPage.mounted : LogsPage where
  store := .new
  target := 0
  windowCalls := []
  answered := []
  loads := 0
  tails := []
  buffers := fun _ => none
  produced := fun _ => []
  pushed := []
  events := []
  rx := 0
  registrations := []
  listeners := []
  nextListener := 0
  started := false

theorem LogsPage.initial_mounted : LogsPage.mounted.Initial :=
  ⟨rfl, rfl, rfl, rfl, rfl, rfl, nofun, rfl, rfl, rfl, rfl⟩

def logsPage : Lts.System LogsPage LogsTurn where
  init := LogsPage.Initial
  next := LogsPage.next

end OpenVHost.Window
