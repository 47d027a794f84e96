/-
# The log window reader

One call reads forward from a cursor, or from the tail of the file if there is no
cursor it can go on from, and returns the lines that match a query together with
the cursor for the next call.

A scan is a loop over the chunks that `read_until` returns. What it consumes are
whole lines of what it may read:

* `scanForward_consumes` — a scan without a leading fragment to discard consumes
  whole lines, at least one if there is one.
* `discard_consumes` — so does one that discards, once it has found a separator.
-/

import OpenVHost.Proc.Supervisor
import OpenVHost.Text.Records
import OpenVHost.Text.Utf8

namespace OpenVHost.Logs

open Text
open Proc (LogLevel)

/-! ### Queries, limits and windows -/

structure FileIdentity where
  dev : Nat
  ino : Nat
  deriving DecidableEq, Repr

structure LogCursor where
  identity : FileIdentity
  offset : Nat
  deriving DecidableEq, Repr

structure LogQuery where
  needle : Option (List Char)
  caseSensitive : Bool
  minLevel : Option LogLevel
  deriving DecidableEq, Repr

def LogQuery.isActive (q : LogQuery) : Bool := q.needle.isSome || q.minLevel.isSome

def noQuery : LogQuery := ⟨none, false, none⟩

structure LogLimits where
  rows : Nat
  payload : Nat
  line : Nat
  scan : Nat
  deriving DecidableEq, Repr

inductive LogReset where
  | rotated
  | truncated
  deriving DecidableEq, Repr

structure LogRow where
  level : LogLevel
  text : List Char
  deriving DecidableEq, Repr

structure LogWindow where
  rows : List LogRow
  cursor : Option LogCursor
  «exists» : Bool
  reset : Option LogReset
  hasMore : Bool
  sizeBytes : Nat
  scannedBytes : Nat
  truncatedLines : Nat
  scanBoundReached : Bool
  deriving DecidableEq, Repr

def missingWindow : LogWindow where
  rows := []
  cursor := none
  «exists» := false
  reset := none
  hasMore := false
  sizeBytes := 0
  scannedBytes := 0
  truncatedLines := 0
  scanBoundReached := false

/-! ### What the file system answers -/

inductive IoError where
  | notFound
  | other (errno : Nat)
  deriving DecidableEq, Repr

inductive FileType where
  | file
  | symlink
  | dir
  | special
  deriving DecidableEq, Repr

inductive CoreError where
  | io (op : String) (path : String) (source : IoError)
  | notAPlainFile (path : String) (found : String)
  deriving DecidableEq, Repr

/-- The answers to the system calls of one call of the reader. -/
structure Answers where
  symlinkMetadata : Except IoError (FileType × FileIdentity)
  «open» : Except IoError Unit
  /-- The length and the identity of the file that was opened. -/
  metadata : Except IoError (Nat × FileIdentity)
  seek : Except IoError Unit
  content : List UInt8
  /-- What a read fails with when this many bytes have been read. -/
  fault : Nat → Option IoError

/-- A plain file that stays in its place during the call. -/
def Answers.plain (identity : FileIdentity) (content : List UInt8) : Answers where
  symlinkMetadata := .ok (.file, identity)
  «open» := .ok ()
  metadata := .ok (content.length, identity)
  seek := .ok ()
  content := content
  fault _ := none

/-! ### A line and its row -/

def newline : UInt8 := 10

/-- The text of a line, and whether it was cut at the cap. -/
def decodeAndCap (line : List UInt8) (cap : Nat) : List Char × Bool :=
  if line.length > cap then (fromUtf8Lossy (line.take cap), true)
  else (fromUtf8Lossy line, false)

def levelRank : LogLevel → Nat
  | .info => 0
  | .warn => 1
  | .error => 2

/-- `str::contains` -/
def contains (text needle : List Char) : Bool := decide (needle <:+: text)

def errorMarkers : List String := ["error", "crit", "alert", "emerg", "fatal"]

def warnMarkers : List String := ["warn"]

def classifyLevel (line : List Char) : LogLevel :=
  let lower := line.map Char.toLower
  if errorMarkers.any fun m => contains lower m.toList then .error
  else if warnMarkers.any fun m => contains lower m.toList then .warn
  else .info

/-- Where a fresh tail starts, and whether a leading fragment is discarded. -/
def freshTailStart (len : Nat) (queryActive : Bool) (limits : LogLimits) : Nat × Bool :=
  let span := if queryActive then limits.scan else limits.payload
  let start := len - span
  (start, decide (start > 0))

section Lowercase

/-! `str::to_lowercase` is the standard library's, by the tables of Unicode. -/

variable (toLowercase : List Char → List Char)

def lineMatches (text : List Char) (level : LogLevel) (query : LogQuery)
    (needleLower : Option (List Char)) : Bool :=
  if query.minLevel.any fun min => levelRank level < levelRank min then false
  else match query.needle with
    | none => true
    | some needle =>
        if query.caseSensitive then contains text needle
        else contains (toLowercase text) (needleLower.getD needle)

/-- The needle, folded once for a whole scan. -/
def LogQuery.needleLower (query : LogQuery) : Option (List Char) :=
  if query.caseSensitive then none else query.needle.map toLowercase

/-! ### The scan -/

/-- The variables of the scan's loop. -/
structure ScanState where
  rows : List LogRow
  pos : Nat
  scannedBytes : Nat
  payloadBytes : Nat
  truncatedLines : Nat
  scanBoundReached : Bool
  discardExhaustedBudget : Bool
  deriving DecidableEq, Repr

def ScanState.begin (start : Nat) : ScanState where
  rows := []
  pos := start
  scannedBytes := 0
  payloadBytes := 0
  truncatedLines := 0
  scanBoundReached := false
  discardExhaustedBudget := false

/-- A complete line, with its newline, is taken in. -/
def ScanState.consume (query : LogQuery) (limits : LogLimits) (s : ScanState)
    (buf : List UInt8) : ScanState :=
  let (text, wasTruncated) := decodeAndCap buf.dropLast limits.line
  let level := classifyLevel text
  let s := { s with
    pos := s.pos + buf.length
    truncatedLines := if wasTruncated then s.truncatedLines + 1 else s.truncatedLines }
  if lineMatches toLowercase text level query (query.needleLower toLowercase) then
    { s with payloadBytes := s.payloadBytes + utf8Len text, rows := s.rows ++ [⟨level, text⟩] }
  else s

/-- The leading fragment of a fresh tail is discarded. -/
def ScanState.discard (limits : LogLimits) (s : ScanState) (buf : List UInt8) : ScanState :=
  let s := if buf.getLast? = some newline then { s with pos := s.pos + buf.length } else s
  if s.scannedBytes ≥ limits.scan then
    { s with scanBoundReached := true, discardExhaustedBudget := true }
  else s

/-- The loop, over what `read_until` returns. `discard` is for the first chunk only. -/
def scanLoop (path : String) (query : LogQuery) (limits : LogLimits)
    (fault : Nat → Option IoError) :
    Bool → ScanState → List (List UInt8) → Except CoreError ScanState
  | _, s, [] =>
      match fault s.scannedBytes with
      | some source => .error (.io "read" path source)
      | none => .ok s
  | discard, s, buf :: rest =>
      match fault s.scannedBytes with
      | some source => .error (.io "read" path source)
      | none =>
          let s := { s with scannedBytes := s.scannedBytes + buf.length }
          if discard then scanLoop path query limits fault false (s.discard limits buf) rest
          else if buf.getLast? ≠ some newline then
            .ok (if s.scannedBytes ≥ limits.scan then { s with scanBoundReached := true } else s)
          else
            let s := s.consume toLowercase query limits buf
            if s.scannedBytes ≥ limits.scan then .ok { s with scanBoundReached := true }
            else if s.rows.length ≥ limits.rows then .ok s
            else if s.payloadBytes ≥ limits.payload then .ok s
            else scanLoop path query limits fault false s rest

def scanForward (path : String) (content : List UInt8) (fault : Nat → Option IoError)
    (start : Nat) (discardLeadingPartial : Bool) (query : LogQuery) (limits : LogLimits) :
    Except CoreError ScanState :=
  scanLoop toLowercase path query limits fault discardLeadingPartial (.begin start)
    (chunks newline ((content.drop start).take limits.scan))

/-- Where a call starts, whether it discards a leading fragment, and why it could not
go on from its cursor. -/
def startOf (cursor : Option LogCursor) (len : Nat) (identity : FileIdentity)
    (query : LogQuery) (limits : LogLimits) : (Nat × Bool) × Option LogReset :=
  match cursor with
  | none => (freshTailStart len query.isActive limits, none)
  | some c =>
      if c.identity ≠ identity then (freshTailStart len query.isActive limits, some .rotated)
      else if len < c.offset then (freshTailStart len query.isActive limits, some .truncated)
      else ((c.offset, false), none)

def FileType.found : FileType → String
  | .symlink => "a symlink"
  | .dir => "a directory"
  | _ => "a special file"

/-- The window of the file that was opened. -/
def readOpened (path : String) (a : Answers) (preOpenIdentity : FileIdentity)
    (cursor : Option LogCursor) (query : LogQuery) (limits : LogLimits) :
    Except CoreError LogWindow :=
  match a.metadata with
  | .error source => .error (.io "metadata" path source)
  | .ok (len, identity) =>
      if preOpenIdentity ≠ identity then .ok missingWindow
      else
        let ((start, discardLeadingPartial), reset) := startOf cursor len identity query limits
        match a.seek with
        | .error source => .error (.io "seek" path source)
        | .ok () =>
            match scanForward toLowercase path a.content a.fault start discardLeadingPartial query
              limits with
            | .error e => .error e
            | .ok scan => .ok {
                rows := scan.rows
                cursor := some ⟨identity, scan.pos⟩
                «exists» := true
                reset := reset
                hasMore := decide (scan.pos < len) && !scan.discardExhaustedBudget
                sizeBytes := len
                scannedBytes := scan.scannedBytes
                truncatedLines := scan.truncatedLines
                scanBoundReached := scan.scanBoundReached }

def readWindow (path : String) (a : Answers) (cursor : Option LogCursor) (query : LogQuery)
    (limits : LogLimits) : Except CoreError LogWindow :=
  match a.symlinkMetadata with
  | .error .notFound => .ok missingWindow
  | .error source => .error (.io "symlink_metadata" path source)
  | .ok (.file, preOpenIdentity) =>
      match a.open with
      | .error .notFound => .ok missingWindow
      | .error source => .error (.io "open" path source)
      | .ok () => readOpened toLowercase path a preOpenIdentity cursor query limits
  | .ok (fileType, _) => .error (.notAPlainFile path fileType.found)

/-! ### What a scan consumes -/

/-- The row of a line, if it matches. -/
def rowOf (query : LogQuery) (limits : LogLimits) (line : List UInt8) : Option LogRow :=
  let text := (decodeAndCap line limits.line).1
  let level := classifyLevel text
  if lineMatches toLowercase text level query (query.needleLower toLowercase) then
    some ⟨level, text⟩
  else none

/-- From `s` to `s'` a scan has taken in the lines `taken`. -/
structure Consumed (query : LogQuery) (limits : LogLimits) (taken : List (List UInt8))
    (s s' : ScanState) : Prop where
  rows : s'.rows = s.rows ++ taken.filterMap (rowOf toLowercase query limits)
  pos : s'.pos = s.pos + (join newline taken).length

variable {toLowercase} {path : String} {query : LogQuery} {limits : LogLimits}
  {fault : Nat → Option IoError} {s s' : ScanState}

theorem Consumed.none (hrows : s'.rows = s.rows) (hpos : s'.pos = s.pos) :
    Consumed toLowercase query limits [] s s' :=
  ⟨by simp [hrows], by simp [hpos]⟩

theorem consume_consumes (line : List UInt8) :
    Consumed toLowercase query limits [line] s
      (s.consume toLowercase query limits (line ++ [newline])) := by
  constructor
  · simp only [ScanState.consume, rowOf, List.dropLast_concat, List.filterMap_cons,
      List.filterMap_nil]
    split <;> simp_all
  · simp only [ScanState.consume]
    split <;> simp

theorem Consumed.cons {line : List UInt8} {taken : List (List UInt8)} {m : ScanState}
    (h : Consumed toLowercase query limits [line] s m)
    (ht : Consumed toLowercase query limits taken m s') :
    Consumed toLowercase query limits (line :: taken) s s' := by
  constructor
  · rw [ht.rows, h.rows, List.append_assoc, ← List.filterMap_append]
    rfl
  · rw [ht.pos, h.pos, join_cons, join_cons]
    simp
    omega

/-- The chunks of what has no separator. -/
theorem chunks_of_fragment {a : List UInt8} (ha : newline ∉ a) :
    chunks newline a = [] ∨ chunks newline a = [a] ∧ a.getLast? ≠ some newline := by
  by_cases hne : a = []
  · left
    rw [hne]
    rfl
  · right
    refine ⟨chunks_fragment ha hne, fun hlast => ha (List.mem_of_getLast? hlast)⟩

/-- **A scan consumes whole lines of what it may read, at least one if there is one.** -/
theorem scanLoop_consumes {w : List UInt8}
    (h : scanLoop toLowercase path query limits fault false s (chunks newline w) = .ok s') :
    ∃ taken rest, lines newline w = taken ++ rest ∧ (lines newline w ≠ [] → taken ≠ []) ∧
      Consumed toLowercase query limits taken s s' := by
  induction w using cut_induction newline generalizing s with
  | fragment a ha =>
      refine ⟨[], [], by rw [lines_fragment ha]; rfl, by simp [lines_fragment ha], ?_⟩
      obtain hc | ⟨hc, hlast⟩ := chunks_of_fragment ha
      · rw [hc, scanLoop] at h
        split at h
        · cases h
        · cases h
          exact .none rfl rfl
      · rw [hc, scanLoop] at h
        split at h
        · cases h
        · simp only [Bool.false_eq_true, ↓reduceIte, ne_eq, hlast, not_false_eq_true,
            Except.ok.injEq] at h
          subst h
          split <;> exact .none rfl rfl
  | line a after ha ih =>
      rw [chunks_cut ha, scanLoop] at h
      split at h
      · cases h
      simp only [Bool.false_eq_true, ↓reduceIte, List.getLast?_concat, ne_eq, not_true_eq_false]
        at h
      have hone : Consumed toLowercase query limits [a]
          { s with scannedBytes := s.scannedBytes + (a ++ [newline]).length } _ :=
        consume_consumes a
      rw [lines_cut ha]
      -- the loop stops after this line, or goes on with the next
      split at h
      · cases h
        exact ⟨[a], lines newline after, rfl, by simp, hone.rows, hone.pos⟩
      split at h
      · cases h
        exact ⟨[a], lines newline after, rfl, by simp, hone.rows, hone.pos⟩
      split at h
      · cases h
        exact ⟨[a], lines newline after, rfl, by simp, hone.rows, hone.pos⟩
      obtain ⟨taken, rest, hlines, -, htaken⟩ := ih h
      refine ⟨a :: taken, rest, by rw [hlines]; rfl, by simp, ?_⟩
      have := hone.cons htaken
      exact ⟨this.rows, this.pos⟩

/-- **A scan that discards consumes whole lines past the first separator.** Without one it
stays where it is. -/
theorem discard_consumes {w : List UInt8}
    (h : scanLoop toLowercase path query limits fault true s (chunks newline w) = .ok s') :
    newline ∉ w ∧ Consumed toLowercase query limits [] s s' ∨
      ∃ fragment taken rest, lines newline w = fragment :: taken ++ rest ∧
        s'.rows = s.rows ++ taken.filterMap (rowOf toLowercase query limits) ∧
        s'.pos = s.pos + (join newline (fragment :: taken)).length := by
  induction w using cut_induction newline with
  | fragment a ha =>
      refine .inl ⟨ha, ?_⟩
      obtain hc | ⟨hc, hlast⟩ := chunks_of_fragment ha
      · rw [hc, scanLoop] at h
        split at h
        · cases h
        · cases h
          exact .none rfl rfl
      · rw [hc, scanLoop] at h
        split at h
        · cases h
        simp only [↓reduceIte, scanLoop] at h
        split at h
        · cases h
        cases h
        rw [ScanState.discard, if_neg hlast]
        split <;> exact .none rfl rfl
  | line a after ha _ =>
      rw [chunks_cut ha, scanLoop] at h
      split at h
      · cases h
      obtain ⟨taken, rest, hlines, -, htaken⟩ := scanLoop_consumes h
      refine .inr ⟨a, taken, rest, by rw [lines_cut ha, hlines]; rfl, ?_, ?_⟩
      · rw [htaken.rows, ScanState.discard]
        split <;> split <;> rfl
      · rw [htaken.pos, ScanState.discard, if_pos List.getLast?_concat, join_cons]
        split <;> simp <;> omega

/-- Without a fault a scan ends. -/
theorem scanLoop_ok (reads : List (List UInt8)) (discard : Bool) (s : ScanState) :
    ∃ s', scanLoop toLowercase path query limits (fun _ => none) discard s reads = .ok s' := by
  induction reads generalizing discard s with
  | nil => exact ⟨s, rfl⟩
  | cons buf rest ih =>
      rw [scanLoop]
      dsimp only
      split
      · exact ih _ _
      · split
        · exact ⟨_, rfl⟩
        · split
          · exact ⟨_, rfl⟩
          · split
            · exact ⟨_, rfl⟩
            · split
              · exact ⟨_, rfl⟩
              · exact ih _ _

end Lowercase

end OpenVHost.Logs
