/-
# Reading on while there is more

A caller that reads call after call while a window says that there is more.

* `stuck` — at a place without a newline in reach, a call returns no row and its own cursor,
  and says that there is more.
* `progress_iff` — every call that is made for more gets further, and every such caller
  stops, exactly for the files whose lines all fit into a scan and that end with a newline.
-/

import OpenVHost.Logs.Drain

namespace OpenVHost.Logs

open Text

variable (toLowercase : List Char → List Char) (path : String) (identity : FileIdentity)

/-! ### The caller -/

/-- Whether a caller stops within so many calls. -/
def readWhileMore (query : LogQuery) (limits : LogLimits) (file : List UInt8) :
    Nat → Option LogCursor → Except CoreError Bool
  | 0, _ => .ok false
  | calls + 1, cursor =>
      match readWindow toLowercase path (.plain identity file) cursor query limits with
      | .error e => .error e
      | .ok w => if w.hasMore then readWhileMore query limits file calls w.cursor else .ok true

/-- How far a cursor is into the file. -/
def LogWindow.offset (w : LogWindow) : Nat := (w.cursor.map LogCursor.offset).getD 0

/-- After a window that says there is more, the next call returns a row or gets further. -/
def Progresses (limits : LogLimits) (file : List UInt8) : Prop :=
  ∀ cursor query w w',
    readWindow toLowercase path (.plain identity file) cursor query limits = .ok w →
    w.hasMore = true →
    readWindow toLowercase path (.plain identity file) w.cursor query limits = .ok w' →
    w'.rows ≠ [] ∨ w.offset < w'.offset

/-- A caller that goes on while there is more stops. -/
def Stops (limits : LogLimits) (file : List UInt8) : Prop :=
  ∀ cursor query, ∃ calls,
    readWhileMore toLowercase path identity query limits file calls cursor = .ok true

/-- Every line fits into a scan with its newline, and the last one has its newline. -/
structure Fits (limits : LogLimits) (file : List UInt8) : Prop where
  lines : ∀ line ∈ lines newline file, line.length < limits.scan
  ended : file = [] ∨ file.getLast? = some newline

variable {toLowercase path identity} {query : LogQuery} {limits : LogLimits} {file : List UInt8}
  {fault : Nat → Option IoError} {cursor : Option LogCursor} {w w' : LogWindow} {n : Nat}

/-! ### What a window says -/

/-- A scan that discards nothing does not spend its budget on it. -/
theorem discardExhausted_scanLoop {reads : List (List UInt8)} {s s' : ScanState}
    (h : scanLoop toLowercase path query limits fault false s reads = .ok s') :
    s'.discardExhaustedBudget = s.discardExhaustedBudget := by
  induction reads generalizing s with
  | nil =>
      rw [scanLoop] at h
      split at h
      · cases h
      · cases h
        rfl
  | cons buf rest ih =>
      rw [scanLoop] at h
      split at h
      · cases h
      have hconsume : ∀ s : ScanState, (s.consume toLowercase query limits buf).discardExhaustedBudget =
          s.discardExhaustedBudget := by
        intro s
        simp only [ScanState.consume]
        split <;> rfl
      simp only [Bool.false_eq_true, ↓reduceIte] at h
      split at h
      · cases h
        split <;> rfl
      · split at h
        · cases h
          exact hconsume _
        split at h
        · cases h
          exact hconsume _
        split at h
        · cases h
          exact hconsume _
        · rw [ih h, hconsume]

/-- A scan stays inside the file. -/
theorem scan_inside {discard : Bool} {s : ScanState} (hn : n ≤ file.length)
    (h : scanForward toLowercase path file (fun _ => none) n discard query limits = .ok s) :
    s.pos ≤ file.length := by
  cases discard with
  | false =>
      obtain ⟨taken, hpassed, -, -⟩ := scan_passes hn h
      exact hpassed.inside
  | true =>
      obtain ⟨-, hkept⟩ | ⟨fragment, taken, rest, hlines, -, hpos⟩ := discard_consumes h
      · rw [hkept.pos]
        simpa [ScanState.begin] using hn
      · rw [hpos]
        exact (passed_of_window hn hlines).inside

theorem startOf_inside :
    (startOf cursor file.length identity query limits).1.1 ≤ file.length := by
  have hfresh : (freshTailStart file.length query.isActive limits).1 ≤ file.length :=
    Nat.sub_le _ _
  unfold startOf
  split
  · exact hfresh
  · split
    · exact hfresh
    · split
      · exact hfresh
      next hle => exact Nat.le_of_not_lt hle

/-- A window of a plain file has a cursor into it, and says there is more if that is not at
the end. -/
theorem window_within
    (h : readWindow toLowercase path (.plain identity file) cursor query limits = .ok w) :
    ∃ n, n ≤ file.length ∧ w.cursor = some ⟨identity, n⟩ ∧ (w.hasMore = true → n < file.length) := by
  simp only [readWindow, Answers.plain, readOpened, ne_eq, not_true_eq_false, ↓reduceIte] at h
  split at h
  · cases h
  next s hs =>
    cases h
    refine ⟨s.pos, scan_inside startOf_inside hs, rfl, fun hmore => ?_⟩
    exact of_decide_eq_true (Bool.and_eq_true_iff.mp hmore).1

/-- What a call with a cursor into the file says of what is left. -/
theorem window_more (hn : n ≤ file.length)
    (h : readWindow toLowercase path (.plain identity file) (some ⟨identity, n⟩) query limits
      = .ok w) : w.hasMore = decide (w.offset < file.length) := by
  simp only [readWindow, Answers.plain, readOpened, ne_eq, not_true_eq_false, ↓reduceIte,
    startOf_some hn] at h
  split at h
  · cases h
  next s hs =>
    cases h
    have hexhausted : s.discardExhaustedBudget = false := discardExhausted_scanLoop hs
    rw [hexhausted, Bool.not_false, Bool.and_true]
    rfl

/-! ### Where a caller stays -/

variable (toLowercase path identity query) in
/-- **A call that has no newline in reach stays where it is.** -/
theorem stuck (hn : n < file.length) (hno : newline ∉ (file.drop n).take limits.scan) :
    ∃ w, readWindow toLowercase path (.plain identity file) (some ⟨identity, n⟩) query limits
        = .ok w ∧ w.rows = [] ∧ w.cursor = some ⟨identity, n⟩ ∧ w.hasMore = true := by
  obtain ⟨w, hw⟩ := readWindow_plain_ok toLowercase path (some ⟨identity, n⟩) query limits
  obtain ⟨s, hs, hrows, hcursor⟩ := readWindow_plain hw
  rw [startOf_some (Nat.le_of_lt hn)] at hs
  obtain ⟨taken, rest, hlines, -, hkept⟩ := scanLoop_consumes hs
  rw [lines_fragment hno] at hlines
  obtain ⟨rfl, -⟩ := List.append_eq_nil_iff.mp hlines.symm
  have hpos : s.pos = n := by simpa [ScanState.begin] using hkept.pos
  rw [hpos] at hcursor
  refine ⟨w, hw, ?_, hcursor, ?_⟩
  · rw [hrows, hkept.rows]
    rfl
  · rw [window_more (Nat.le_of_lt hn) hw, LogWindow.offset, hcursor]
    simpa using hn

/-- A caller that is stuck does not get further. -/
theorem not_progresses (hn : n < file.length) (hno : newline ∉ (file.drop n).take limits.scan) :
    ¬ Progresses toLowercase path identity limits file := by
  intro h
  obtain ⟨w, hw, hrows, hcursor, hmore⟩ := stuck toLowercase path identity noQuery hn hno
  have hw' := hw
  rw [← hcursor] at hw'
  obtain hrow | hlt := h _ _ _ _ hw hmore hw'
  · exact hrow hrows
  · exact Nat.lt_irrefl _ hlt

/-- A file that does not fit has a place where a caller is stuck. -/
theorem exists_stuck (h : ¬ Fits limits file) :
    ∃ n, n < file.length ∧ newline ∉ (file.drop n).take limits.scan := by
  by_cases hlines : ∀ line ∈ lines newline file, line.length < limits.scan
  · -- what stands after the last newline
    obtain ⟨fragment, hfragment, hfile⟩ := exists_join newline file
    have hne : fragment ≠ [] := by
      rintro rfl
      refine h ⟨hlines, ?_⟩
      obtain hnil | ⟨init, last, hlast⟩ := List.eq_nil_or_concat (lines newline file)
      · exact .inl (by rw [hfile, hnil]; rfl)
      · right
        rw [hfile, hlast]
        simp
    refine ⟨(join newline (lines newline file)).length, ?_, ?_⟩
    · have hlen := congrArg List.length hfile
      have hpos := List.length_pos_iff.mpr hne
      rw [List.length_append] at hlen
      omega
    · have hdrop : file.drop (join newline (lines newline file)).length = fragment := by
        conv_lhs =>
          arg 2
          rw [hfile]
        exact List.drop_left
      rw [hdrop]
      exact fun hmem => hfragment (List.mem_of_mem_take hmem)
  · -- the start of a line that is too long
    push Not at hlines
    obtain ⟨line, hline, hlong⟩ := hlines
    obtain ⟨before, after, hfile, hno, -⟩ := mem_lines.mp hline
    refine ⟨before.length, ?_, ?_⟩
    · rw [hfile, List.length_append, List.length_append, List.length_cons]
      omega
    · rw [hfile, List.append_assoc, List.drop_left, List.take_append_of_le_length hlong]
      exact fun hmem => hno (List.mem_of_mem_take hmem)

/-! ### How a caller gets to the end -/

theorem readWhileMore_succ
    (h : readWindow toLowercase path (.plain identity file) cursor query limits = .ok w) (calls : Nat) :
    readWhileMore toLowercase path identity query limits file (calls + 1) cursor =
      if w.hasMore then readWhileMore toLowercase path identity query limits file calls w.cursor
      else .ok true := by
  rw [readWhileMore, h]

/-- **A call that is not at the end gets further**, if the file fits. -/
theorem advances (h : Fits limits file) (hn : n < file.length)
    (hw : readWindow toLowercase path (.plain identity file) (some ⟨identity, n⟩) query limits
      = .ok w) : ∃ n', w.cursor = some ⟨identity, n'⟩ ∧ n < n' ∧ n' ≤ file.length := by
  obtain ⟨n', taken, hcursor, hpassed, -, hsome⟩ := call_passes (Nat.le_of_lt hn) hw
  have hlast : file.getLast? = some newline := by
    refine h.ended.resolve_left ?_
    rintro rfl
    cases hn
  have hmem : newline ∈ file.drop n := by
    apply List.mem_of_getLast?
    rw [List.getLast?_drop, if_neg (Nat.not_le.mpr hn), hlast]
  obtain ⟨line, others, hlines⟩ := List.exists_cons_of_ne_nil (lines_ne_nil hmem)
  have hline : line ∈ lines newline (file.drop n) := by
    rw [hlines]
    exact List.mem_cons_self
  obtain ⟨whole, hwhole, hsuffix⟩ := lines_drop_suffix hline
  have hfits : line.length < limits.scan := Nat.lt_of_le_of_lt hsuffix.length_le (h.lines whole hwhole)
  obtain ⟨first, rest, rfl⟩ := List.exists_cons_of_ne_nil (hsome (lines_take_ne_nil hlines hfits))
  refine ⟨n', hcursor, ?_, hpassed.inside⟩
  rw [hpassed.place, join_cons, List.length_append, List.length_cons]
  omega

/-- A caller with a cursor into a file that fits stops. -/
theorem stops_from (h : Fits limits file) (query : LogQuery) :
    ∀ {n}, n ≤ file.length → ∃ calls,
      readWhileMore toLowercase path identity query limits file calls (some ⟨identity, n⟩) = .ok true := by
  intro n hn
  induction hk : file.length - n using Nat.strongRecOn generalizing n with
  | ind k ih =>
      obtain ⟨w, hw⟩ : ∃ w, readWindow toLowercase path (.plain identity file)
          (some ⟨identity, n⟩) query limits = .ok w := readWindow_plain_ok toLowercase path _ _ _
      cases hmore : w.hasMore with
      | false => exact ⟨1, by rw [readWhileMore_succ hw, hmore]; rfl⟩
      | true =>
          obtain ⟨m, -, hcursor, hlt⟩ := window_within hw
          have hm := hlt hmore
          have hlt' : n < file.length := by
            obtain ⟨n', taken, hcursor', hpassed, -⟩ := call_passes hn hw
            rw [hcursor, Option.some.injEq, LogCursor.mk.injEq] at hcursor'
            have hplace := hpassed.place
            omega
          obtain ⟨n', hcursor', hfurther, hle⟩ := advances h hlt' hw
          obtain ⟨calls, hcalls⟩ := ih (file.length - n') (by omega) hle rfl
          exact ⟨calls + 1, by rw [readWhileMore_succ hw, hmore, hcursor']; exact hcalls⟩

variable (toLowercase path identity) in
theorem progresses_of_fits (h : Fits limits file) : Progresses toLowercase path identity limits file := by
  intro cursor query w w' hw hmore hw'
  obtain ⟨n, -, hcursor, hlt⟩ := window_within hw
  rw [hcursor] at hw'
  obtain ⟨n', hcursor', hfurther, -⟩ := advances h (hlt hmore) hw'
  right
  simpa [LogWindow.offset, hcursor, hcursor'] using hfurther

variable (toLowercase path identity) in
theorem stops_of_fits (h : Fits limits file) : Stops toLowercase path identity limits file := by
  intro cursor query
  obtain ⟨w, hw⟩ : ∃ w, readWindow toLowercase path (.plain identity file) cursor query limits
      = .ok w := readWindow_plain_ok toLowercase path _ _ _
  obtain ⟨n, hn, hcursor, -⟩ := window_within hw
  cases hmore : w.hasMore with
  | false => exact ⟨1, by rw [readWhileMore_succ hw, hmore]; rfl⟩
  | true =>
      obtain ⟨calls, hcalls⟩ : ∃ calls, readWhileMore toLowercase path identity query limits file
          calls (some ⟨identity, n⟩) = .ok true := stops_from h query hn
      exact ⟨calls + 1, by rw [readWhileMore_succ hw, hmore, hcursor]; exact hcalls⟩

variable (toLowercase path identity) in
/-- **Reading on makes progress, and comes to an end**, exactly for the files whose lines all
fit into a scan and of which the last is complete. -/
theorem progress_iff (limits : LogLimits) (file : List UInt8) :
    (Progresses toLowercase path identity limits file ∧
      Stops toLowercase path identity limits file) ↔ Fits limits file := by
  constructor
  · rintro ⟨hprogress, -⟩
    by_contra hfits
    obtain ⟨n, hn, hno⟩ := exists_stuck hfits
    exact not_progresses hn hno hprogress
  · exact fun h => ⟨progresses_of_fits toLowercase path identity h,
      stops_of_fits toLowercase path identity h⟩

def defaultLimits : LogLimits := ⟨500, 512 * 1024, 16 * 1024, 16 * 1024 * 1024⟩

/-- **A line that is not complete yet, and one that is longer than a scan**: each call says
that there is more, and the next one returns nothing and its own cursor. -/
theorem stuck_at_a_line :
    ¬ Progresses id "error.log" ⟨1, 2⟩ defaultLimits (utf8 "ab".toList) ∧
      ¬ Progresses id "error.log" ⟨1, 2⟩ ⟨1, 512, 16, 4⟩ (utf8 "abcdefgh\n".toList) := by
  constructor
  · have hin : 0 < (utf8 "ab".toList).length := by decide
    exact not_progresses hin (by decide)
  · have hin : 0 < (utf8 "abcdefgh\n".toList).length := by decide
    exact not_progresses hin (by decide)

end OpenVHost.Logs
