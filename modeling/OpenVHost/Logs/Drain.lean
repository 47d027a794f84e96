/-
# Reading a log that grows

A log is read call after call, each with the cursor of the call before, while its
writer appends.

* `Reader`, `reading` — a chain of calls, with the rows that it has returned.
* `rows_are_lines` — every row is the text of a whole line, if the first call finds
  a newline in what it may read or starts where a line does.
* `row_of_a_suffix` — a chain whose first call does not: the second one takes the end
  of a line for a line.
* `drain_is_lines` — from a boundary on, a chain without a query returns the complete
  lines in order, and all of them if it is long enough.
-/

import OpenVHost.Logs.Read
import OpenVHost.Lts.System

namespace OpenVHost.Logs

open Text

variable (toLowercase : List Char → List Char) (path : String) (identity : FileIdentity)

/-! ### One call -/

section Call

variable {toLowercase path identity} {query : LogQuery} {limits : LogLimits}
  {file : List UInt8} {n : Nat} {cursor : Option LogCursor} {w : LogWindow} {s : ScanState}

/-- A call on a plain file is a scan from where it starts. -/
theorem readWindow_plain
    (h : readWindow toLowercase path (.plain identity file) cursor query limits = .ok w) :
    ∃ s, scanForward toLowercase path file (fun _ => none)
        (startOf cursor file.length identity query limits).1.1
        (startOf cursor file.length identity query limits).1.2 query limits = .ok s ∧
      w.rows = s.rows ∧ w.cursor = some ⟨identity, s.pos⟩ := by
  simp only [readWindow, Answers.plain, readOpened, ne_eq, not_true_eq_false, ↓reduceIte] at h
  split at h
  · cases h
  next s hs =>
    cases h
    exact ⟨s, hs, rfl, rfl⟩

variable (toLowercase path) in
/-- A call on a plain file succeeds. -/
theorem readWindow_plain_ok (cursor : Option LogCursor) (query : LogQuery) (limits : LogLimits) :
    ∃ w, readWindow toLowercase path (.plain identity file) cursor query limits = .ok w := by
  obtain ⟨s, hs⟩ : ∃ s, scanForward toLowercase path file (fun _ => none)
      (startOf cursor file.length identity query limits).1.1
      (startOf cursor file.length identity query limits).1.2 query limits = .ok s :=
    scanLoop_ok _ _ _
  simp only [readWindow, Answers.plain, readOpened, ne_eq, not_true_eq_false, ↓reduceIte, hs]
  exact ⟨_, rfl⟩

theorem startOf_some (hn : n ≤ file.length) :
    startOf (some ⟨identity, n⟩) file.length identity query limits = ((n, false), none) := by
  rw [startOf]
  simp [Nat.not_lt.mpr hn]

/-- **A scan that discards nothing passes whole lines**, and returns those that match. -/
theorem scan_passes (hn : n ≤ file.length)
    (h : scanForward toLowercase path file (fun _ => none) n false query limits = .ok s) :
    ∃ taken, Passed newline file n s.pos taken ∧
      s.rows = taken.filterMap (rowOf toLowercase query limits) ∧
      (lines newline ((file.drop n).take limits.scan) ≠ [] → taken ≠ []) := by
  obtain ⟨taken, rest, hlines, hsome, hrows, hpos⟩ := scanLoop_consumes h
  refine ⟨taken, ?_, by simpa [ScanState.begin] using hrows, hsome⟩
  rw [hpos]
  exact passed_of_window hn hlines

/-- A call with a cursor into the file passes whole lines. -/
theorem call_passes (hn : n ≤ file.length)
    (h : readWindow toLowercase path (.plain identity file) (some ⟨identity, n⟩) query limits
      = .ok w) :
    ∃ n' taken, w.cursor = some ⟨identity, n'⟩ ∧ Passed newline file n n' taken ∧
      w.rows = taken.filterMap (rowOf toLowercase query limits) ∧
      (lines newline ((file.drop n).take limits.scan) ≠ [] → taken ≠ []) := by
  obtain ⟨s, hs, hrows, hcursor⟩ := readWindow_plain h
  rw [startOf_some hn] at hs
  obtain ⟨taken, hpassed, htaken, hsome⟩ := scan_passes hn hs
  exact ⟨s.pos, taken, hcursor, hpassed, hrows.trans htaken, hsome⟩

end Call

/-! ### Draining -/

/-- The row of a line that no query filters. -/
def plainRow (limits : LogLimits) (line : List UInt8) : LogRow :=
  let text := (decodeAndCap line limits.line).1
  ⟨classifyLevel text, text⟩

/-- The file, the cursor and the rows returned when some calls have been made. -/
structure Drained where
  file : List UInt8
  cursor : Option LogCursor
  rows : List LogRow
  deriving DecidableEq, Repr

/-- Calls with the cursor of the call before, each after something was appended. -/
def drain (query : LogQuery) (limits : LogLimits) (file : List UInt8)
    (cursor : Option LogCursor) : List (List UInt8) → Except CoreError Drained
  | [] => .ok ⟨file, cursor, []⟩
  | bytes :: rest =>
      match readWindow toLowercase path (.plain identity (file ++ bytes)) cursor query limits with
      | .error e => .error e
      | .ok w =>
          (drain query limits (file ++ bytes) w.cursor rest).map fun d =>
            { d with rows := w.rows ++ d.rows }

section Drain

variable {toLowercase path identity} {query : LogQuery} {limits : LogLimits}
  {file : List UInt8} {n : Nat} {appends : List (List UInt8)} {d : Drained}

variable (toLowercase path identity query limits) in
/-- **Draining passes whole lines** and returns those that match. -/
theorem drain_passes (hn : n ≤ file.length) (appends : List (List UInt8)) :
    ∃ n' taken, Passed newline (file ++ appends.flatten) n n' taken ∧
      drain toLowercase path identity query limits file (some ⟨identity, n⟩) appends
        = .ok ⟨file ++ appends.flatten, some ⟨identity, n'⟩,
            taken.filterMap (rowOf toLowercase query limits)⟩ := by
  induction appends generalizing file n with
  | nil => exact ⟨n, [], by simpa using Passed.refl hn, by simp [drain]⟩
  | cons bytes rest ih =>
      have hn' : n ≤ (file ++ bytes).length := by
        rw [List.length_append]
        omega
      obtain ⟨w, hw⟩ := readWindow_plain_ok toLowercase path (some ⟨identity, n⟩) query limits
      obtain ⟨m, taken, hcursor, hpassed, hrows, -⟩ := call_passes hn' hw
      obtain ⟨n', taken', hpassed', hdrain⟩ := ih hpassed.inside
      rw [List.flatten_cons, ← List.append_assoc]
      refine ⟨n', taken ++ taken', hpassed.append.trans hpassed', ?_⟩
      rw [drain, hw]
      dsimp only
      rw [hcursor, hdrain, hrows, List.filterMap_append]
      rfl

theorem drain_append {appends more : List (List UInt8)} {cursor : Option LogCursor} {d d' : Drained}
    (h : drain toLowercase path identity query limits file cursor appends = .ok d)
    (h' : drain toLowercase path identity query limits d.file d.cursor more = .ok d') :
    drain toLowercase path identity query limits file cursor (appends ++ more)
      = .ok { d' with rows := d.rows ++ d'.rows } := by
  induction appends generalizing file cursor d with
  | nil =>
      rw [drain, Except.ok.injEq] at h
      subst h
      exact h'
  | cons bytes rest ih =>
      rw [drain] at h
      rw [List.cons_append, drain]
      cases hw : readWindow toLowercase path (.plain identity (file ++ bytes)) cursor query limits with
      | error e =>
          rw [hw] at h
          cases h
      | ok w =>
          rw [hw] at h
          dsimp only at h ⊢
          cases hd : drain toLowercase path identity query limits (file ++ bytes) w.cursor rest with
          | error e =>
              rw [hd] at h
              cases h
          | ok d₀ =>
              rw [hd, Except.map, Except.ok.injEq] at h
              subst h
              rw [ih hd h', Except.map, List.append_assoc]

variable (toLowercase path identity query) in
/-- Enough calls pass all the complete lines. -/
theorem drain_rest (hn : n ≤ file.length)
    (hscan : ∀ line ∈ lines newline (file.drop n), line.length < limits.scan) {k : Nat}
    (hk : (lines newline (file.drop n)).length ≤ k) :
    ∃ n', lines newline (file.drop n') = [] ∧
      drain toLowercase path identity query limits file (some ⟨identity, n⟩) (List.replicate k [])
        = .ok ⟨file, some ⟨identity, n'⟩,
            (lines newline (file.drop n)).filterMap (rowOf toLowercase query limits)⟩ := by
  induction k generalizing n with
  | zero =>
      have hnil := List.eq_nil_of_length_eq_zero (Nat.le_zero.mp hk)
      exact ⟨n, hnil, by rw [hnil]; rfl⟩
  | succ k ih =>
      obtain ⟨w, hw⟩ := readWindow_plain_ok toLowercase path
        (some ⟨identity, n⟩) query limits
      obtain ⟨m, taken, hcursor, hpassed, hrows, hsome⟩ := call_passes hn hw
      have hsplit := hpassed.lines_drop
      have hfewer : (lines newline (file.drop m)).length ≤ k := by
        cases hlines : lines newline (file.drop n) with
        | nil =>
            rw [hlines] at hsplit
            rw [(List.append_eq_nil_iff.mp hsplit.symm).2]
            exact Nat.zero_le _
        | cons line others =>
            -- the first line fits into what the call may read
            have htaken := hsome (lines_take_ne_nil hlines (hscan line (by simp [hlines])))
            have hpos := List.length_pos_iff.mpr htaken
            rw [hsplit, List.length_append] at hk
            omega
      obtain ⟨n', hend, hdrain⟩ := ih hpassed.inside
        (fun line hline => hscan line (hsplit ▸ List.mem_append_right _ hline)) hfewer
      refine ⟨n', hend, ?_⟩
      rw [List.replicate_succ, drain, List.append_nil, hw]
      dsimp only
      rw [hcursor, hdrain, hrows, hsplit, List.filterMap_append]
      rfl

theorem filterMap_rowOf (hquery : query.isActive = false) (ls : List (List UInt8)) :
    ls.filterMap (rowOf toLowercase query limits) = ls.map (plainRow limits) := by
  obtain ⟨hneedle, hlevel⟩ : query.needle = none ∧ query.minLevel = none := by
    simpa [LogQuery.isActive] using hquery
  have hrow : rowOf toLowercase query limits = some ∘ plainRow limits := by
    funext line
    simp [rowOf, plainRow, lineMatches, hneedle, hlevel]
  rw [hrow, List.filterMap_eq_map]

/-- **Draining loses and repeats nothing.** From a boundary on, calls without a query
return the complete lines in file order, each once, and stop at boundaries; with a call
for each line that is left they return all of them. -/
theorem drain_is_lines (hquery : query.isActive = false) (hn : n ≤ file.length)
    (hb : AtBoundary newline file n)
    (hscan : ∀ line ∈ lines newline ((file ++ appends.flatten).drop n),
      line.length < limits.scan) :
    (∃ n' taken, drain toLowercase path identity query limits file (some ⟨identity, n⟩) appends
          = .ok ⟨file ++ appends.flatten, some ⟨identity, n'⟩, taken.map (plainRow limits)⟩ ∧
        lines newline ((file ++ appends.flatten).drop n)
          = taken ++ lines newline ((file ++ appends.flatten).drop n') ∧
        n' = n + (join newline taken).length ∧
        AtBoundary newline (file ++ appends.flatten) n') ∧
      ∀ k, (lines newline ((file ++ appends.flatten).drop n)).length ≤ k →
        ∃ n', drain toLowercase path identity query limits file (some ⟨identity, n⟩)
            (appends ++ List.replicate k [])
          = .ok ⟨file ++ appends.flatten, some ⟨identity, n'⟩,
              (lines newline ((file ++ appends.flatten).drop n)).map (plainRow limits)⟩ := by
  obtain ⟨m, taken, hpassed, hdrain⟩ := drain_passes toLowercase path identity query limits hn
    appends
  have hsplit := hpassed.lines_drop
  constructor
  · refine ⟨m, taken, ?_, hsplit, hpassed.place, hpassed.atBoundary (hb.append _)⟩
    rw [hdrain, filterMap_rowOf hquery]
  · intro k hk
    rw [hsplit, List.length_append] at hk
    obtain ⟨n', -, hrest⟩ := drain_rest toLowercase path identity query hpassed.inside
      (fun line hline => hscan line (hsplit ▸ List.mem_append_right _ hline))
      (Nat.le_trans (Nat.le_add_left ..) hk)
    refine ⟨n', ?_⟩
    rw [drain_append hdrain hrest]
    rw [hsplit, List.map_append, ← filterMap_rowOf hquery, ← filterMap_rowOf hquery]

/-- Two calls that may return one row each, one before and one after the last line is
complete. -/
theorem drain_is_lines_access :
    ∃ n', drain id "access.log" ⟨1, 2⟩ ⟨none, false, none⟩ ⟨1, 512, 16, 8⟩
        (utf8 "x\nab\ncd\ne".toList) (some ⟨⟨1, 2⟩, 2⟩)
        ([[], utf8 "f\n".toList] ++ List.replicate 3 [])
      = .ok ⟨utf8 "x\nab\ncd\nef\n".toList, some ⟨⟨1, 2⟩, n'⟩,
          [⟨.info, "ab".toList⟩, ⟨.info, "cd".toList⟩, ⟨.info, "ef".toList⟩]⟩ :=
  (drain_is_lines rfl (by decide) (by decide) (by decide)).2 3 (by decide)

end Drain

/-! ### A chain of calls from a fresh tail -/

/-- What has been read: the file as it is, the cursor of the last call, and every row
returned, with the cap that it was read with. -/
structure Reader where
  file : List UInt8
  cursor : Option LogCursor
  returned : List (Nat × LogRow)

inductive Action where
  | append (bytes : List UInt8)
  | call (query : LogQuery) (limits : LogLimits)

/-- Appends and calls in any order. The first call has no cursor. -/
def reading : Lts.System Reader Action where
  init r := r.cursor = none ∧ r.returned = []
  next r
    | .append bytes => some { r with file := r.file ++ bytes }
    | .call query limits =>
        match readWindow toLowercase path (.plain identity r.file) r.cursor query limits with
        | .error _ => none
        | .ok w => some { r with
            cursor := w.cursor
            returned := r.returned ++ w.rows.map fun row => (limits.line, row) }

/-- A row is the text of one complete line. -/
def WholeLine (file : List UInt8) (cap : Nat) (row : LogRow) : Prop :=
  ∃ line, IsLine newline file line ∧ row.text = (decodeAndCap line cap).1

/-- **The condition**: a call without a cursor starts where a line does, or finds a newline.
Such a call starts so many bytes before the end, and drops what is before the first newline
it finds; where it finds none, it stands inside a line and takes its rest for a line. -/
def Synchronised (r : Reader) : Action → Prop
  | .append _ => True
  | .call query limits =>
      let start := (freshTailStart r.file.length query.isActive limits).1
      r.cursor = none →
        AtBoundary newline r.file start ∨ newline ∈ (r.file.drop start).take limits.scan

/-- Every limit is positive. -/
def positive (_ : Reader) : Action → Bool
  | .append _ => true
  | .call _ limits =>
      decide (0 < limits.rows ∧ 0 < limits.payload ∧ 0 < limits.line ∧ 0 < limits.scan)

section Chain

variable {toLowercase path identity} {query : LogQuery} {limits : LogLimits} {r r' : Reader}
  {file : List UInt8} {w : LogWindow} {n n' : Nat} {taken : List (List UInt8)} {cap : Nat}
  {row : LogRow}

/-- The cursor is a boundary, and every row a whole line. -/
structure Sound (identity : FileIdentity) (r : Reader) : Prop where
  cursor : ∀ c, r.cursor = some c →
    c.identity = identity ∧ c.offset ≤ r.file.length ∧ AtBoundary newline r.file c.offset
  rows : ∀ x ∈ r.returned, WholeLine r.file x.1 x.2

theorem WholeLine.append (h : WholeLine file cap row) (more : List UInt8) :
    WholeLine (file ++ more) cap row := by
  obtain ⟨line, hline, htext⟩ := h
  exact ⟨line, hline.append more, htext⟩

theorem wholeLine_of_passed (h : Passed newline file n n' taken)
    (hb : AtBoundary newline file n)
    (hrow : row ∈ taken.filterMap (rowOf toLowercase query limits)) :
    WholeLine file limits.line row := by
  obtain ⟨line, hline, hsome⟩ := List.mem_filterMap.mp hrow
  refine ⟨line, h.isLine hb hline, ?_⟩
  rw [rowOf, Option.ite_none_right_eq_some] at hsome
  obtain ⟨-, hsome⟩ := hsome
  cases hsome
  rfl

/-- **A call that is synchronised returns whole lines and a cursor at a boundary.** -/
theorem call_sound (hr : Sound identity r) (hs : Synchronised r (.call query limits))
    (hw : readWindow toLowercase path (.plain identity r.file) r.cursor query limits = .ok w) :
    ∃ n', w.cursor = some ⟨identity, n'⟩ ∧ n' ≤ r.file.length ∧ AtBoundary newline r.file n' ∧
      ∀ row ∈ w.rows, WholeLine r.file limits.line row := by
  cases hc : r.cursor with
  | some c =>
      obtain ⟨hid, hle, hb⟩ := hr.cursor c hc
      obtain ⟨_, offset⟩ := c
      subst hid
      rw [hc] at hw
      obtain ⟨n', taken, hcursor, hpassed, hrows, -⟩ := call_passes hle hw
      refine ⟨n', hcursor, hpassed.inside, hpassed.atBoundary hb, fun row hrow => ?_⟩
      rw [hrows] at hrow
      exact wholeLine_of_passed hpassed hb hrow
  | none =>
      obtain ⟨s, hscan, hrows, hcursor⟩ := readWindow_plain hw
      rw [hc, startOf] at hscan
      have hstart := hs hc
      have hle : (freshTailStart r.file.length query.isActive limits).1 ≤ r.file.length :=
        Nat.sub_le _ _
      by_cases hzero : (freshTailStart r.file.length query.isActive limits).2 = true
      · rw [hzero] at hscan
        obtain ⟨hno, hkept⟩ | ⟨fragment, taken, rest, hlines, hkept, hpos⟩ :=
          discard_consumes hscan
        · -- no newline: the synchronised start is the boundary that the cursor stays at
          have hpos : s.pos = _ := hkept.pos
          have hb := hstart.resolve_right hno
          simp only [ScanState.begin, join_nil, List.length_nil, Nat.add_zero] at hpos
          refine ⟨s.pos, hcursor, hpos ▸ hle, hpos ▸ hb, fun row hrow => ?_⟩
          rw [hrows, hkept.rows] at hrow
          simp [ScanState.begin] at hrow
        · have hpassed := passed_of_window hle hlines
          simp only [ScanState.begin] at hpos
          rw [← hpos] at hpassed
          obtain ⟨m, hm, htail⟩ := hpassed.tail
          refine ⟨s.pos, hcursor, htail.inside, htail.atBoundary hm, fun row hrow => ?_⟩
          rw [hrows, hkept] at hrow
          exact wholeLine_of_passed htail hm (by simpa [ScanState.begin] using hrow)
      · rw [Bool.not_eq_true] at hzero
        rw [hzero] at hscan
        have hb : AtBoundary newline r.file
            (freshTailStart r.file.length query.isActive limits).1 := by
          left
          exact Nat.eq_zero_of_not_pos (of_decide_eq_false hzero)
        obtain ⟨taken, hpassed, htaken, -⟩ := scan_passes hle hscan
        refine ⟨s.pos, hcursor, hpassed.inside, hpassed.atBoundary hb, fun row hrow => ?_⟩
        rw [hrows, htaken] at hrow
        exact wholeLine_of_passed hpassed hb hrow

theorem sound_next {a : Action} (hr : Sound identity r) (hs : Synchronised r a)
    (h : (reading toLowercase path identity).next r a = some r') : Sound identity r' := by
  cases a with
  | append bytes =>
      cases h
      constructor
      · intro c hc
        obtain ⟨hid, hle, hb⟩ := hr.cursor c hc
        refine ⟨hid, ?_, hb.append bytes⟩
        rw [List.length_append]
        exact Nat.le_trans hle (Nat.le_add_right ..)
      · exact fun x hx => (hr.rows x hx).append bytes
  | call query limits =>
      simp only [reading] at h
      split at h
      · cases h
      next w hw =>
        cases h
        obtain ⟨n', hcursor, hle, hb, hrows⟩ := call_sound hr hs hw
        constructor
        · intro c hc
          rw [hcursor] at hc
          cases hc
          exact ⟨rfl, hle, hb⟩
        · intro x hx
          obtain hx | hx := List.mem_append.mp hx
          · exact hr.rows x hx
          · obtain ⟨row, hrow, rfl⟩ := List.mem_map.mp hx
            exact hrows row hrow

/-- **Every row of a synchronised chain is a whole line**, of the file as it is now. -/
theorem rows_are_lines (h : (reading toLowercase path identity).Reaches Synchronised r) :
    ∀ x ∈ r.returned, WholeLine r.file x.1 x.2 := by
  have hsound : Sound identity r := by
    refine Lts.System.Reaches.invariant (fun r hinit => ?_)
      (fun r a r' hr hs hn => sound_next hr hs hn) h
    obtain ⟨hcursor, hrows⟩ := hinit
    exact ⟨by simp [hcursor], by simp [hrows]⟩
  exact hsound.rows

/-- The limits of the runs below: a tail of four bytes. -/
def tailOfFour : LogLimits := ⟨10, 4, 100, 100⟩

/-- What a chain returns that begins in the middle of a long line, before the line is
complete. -/
def suffixRun : List Action :=
  [.call ⟨none, false, none⟩ tailOfFour, .append (utf8 "b\n".toList),
    .call ⟨none, false, none⟩ tailOfFour]

/-- **A chain that is not synchronised returns the end of a line.** -/
theorem row_of_a_suffix :
    ∃ r, (reading id "error.log" ⟨1, 2⟩).Reaches (fun r a => positive r a = true) r ∧
      ∃ x ∈ r.returned, ¬ WholeLine r.file x.1 x.2 := by
  have hinit : (reading id "error.log" ⟨1, 2⟩).init ⟨utf8 "aaaaaaaa".toList, none, []⟩ := ⟨rfl, rfl⟩
  have hrun : (reading id "error.log" ⟨1, 2⟩).execWhile positive
      ⟨utf8 "aaaaaaaa".toList, none, []⟩ suffixRun
        = some ⟨utf8 "aaaaaaaab\n".toList, some ⟨⟨1, 2⟩, 10⟩, [(100, ⟨.info, "aaaab".toList⟩)]⟩ := by
    rfl
  refine ⟨_, (Lts.System.leads_of_execWhile (fun _ _ h => h) hrun).reaches (.init hinit),
    (100, ⟨.info, "aaaab".toList⟩), List.mem_singleton_self _, ?_⟩
  rintro ⟨line, hline, htext⟩
  have hmem : line ∈ lines newline (utf8 "aaaaaaaab\n".toList) := mem_lines.mpr hline
  have honly : ∀ line ∈ lines newline (utf8 "aaaaaaaab\n".toList),
      (decodeAndCap line 100).1 ≠ "aaaab".toList := by decide
  exact honly line hmem htext.symm

/-- The same log, with a newline in its tail. -/
theorem rows_are_lines_error :
    WholeLine (utf8 "aaaaaaa\nab\n".toList) 100 ⟨.info, "ab".toList⟩ := by
  have hinit : (reading id "error.log" ⟨1, 2⟩).init ⟨utf8 "aaaaaaa\na".toList, none, []⟩ := ⟨rfl, rfl⟩
  have hfirst : (reading id "error.log" ⟨1, 2⟩).Reaches Synchronised
      ⟨utf8 "aaaaaaa\na".toList, some ⟨⟨1, 2⟩, 8⟩, []⟩ :=
    .step (.init hinit) (a := .call ⟨none, false, none⟩ tailOfFour) (by intro; decide) rfl
  have hsecond : (reading id "error.log" ⟨1, 2⟩).Reaches Synchronised
      ⟨utf8 "aaaaaaa\nab\n".toList, some ⟨⟨1, 2⟩, 8⟩, []⟩ :=
    .step hfirst (a := .append (utf8 "b\n".toList)) trivial rfl
  have hall : ∀ x ∈ [(100, (⟨.info, "ab".toList⟩ : LogRow))], WholeLine (utf8 "aaaaaaa\nab\n".toList) x.1 x.2 :=
    rows_are_lines (.step hsecond (a := .call ⟨none, false, none⟩ tailOfFour) (fun h => by cases h) rfl)
  exact hall (100, ⟨.info, "ab".toList⟩) List.mem_cons_self

end Chain

end OpenVHost.Logs
