/-
# The bounds of a window

A window is bounded in rows, in the bytes of their texts, in the bytes of one text and in
the bytes that were read. The scan looks at its bounds after it has taken a row in.

* `scanLoop_stops` — the lines that a scan takes are those that it comes to before a bound
  is met, and all of them.
* `bounded_iff` — a window keeps all its bounds exactly if every matching line that the call
  comes to still fits.
-/

import OpenVHost.Logs.Drain

namespace OpenVHost.Logs

open Text

variable (toLowercase : List Char → List Char) (path : String)

/-! ### Bounds -/

/-- The bytes of the texts of rows. -/
def payloadOf : List LogRow → Nat
  | [] => 0
  | row :: rest => utf8Len row.text + payloadOf rest

@[simp] theorem payloadOf_append (rows rows' : List LogRow) :
    payloadOf (rows ++ rows') = payloadOf rows + payloadOf rows' := by
  induction rows with
  | nil => simp [payloadOf]
  | cons row rest ih => simp [payloadOf, ih, Nat.add_assoc]

/-- A window keeps the limits. -/
structure Bounded (limits : LogLimits) (w : LogWindow) : Prop where
  rows : w.rows.length ≤ limits.rows
  payload : payloadOf w.rows ≤ limits.payload
  line : ∀ row ∈ w.rows, utf8Len row.text ≤ limits.line
  scan : w.scannedBytes ≤ limits.scan

/-! ### The lines of a call -/

/-- The length and the identity of the file that a call opens, if it opens one. -/
def Answers.opened (a : Answers) : Option (Nat × FileIdentity) :=
  match a.symlinkMetadata, a.open, a.metadata with
  | .ok (.file, preOpenIdentity), .ok (), .ok (len, identity) =>
      if preOpenIdentity = identity then some (len, identity) else none
  | _, _, _ => none

/-- What a call may read of the content. -/
def Answers.window (a : Answers) (start : Nat) (limits : LogLimits) : List UInt8 :=
  (a.content.drop start).take limits.scan

/-- The complete lines of a window, without the leading one if that is discarded. -/
def visible (window : List UInt8) (discardLeadingPartial : Bool) : List (List UInt8) :=
  if discardLeadingPartial then (lines newline window).tail else lines newline window

/-- The rows of lines. -/
def rowsOf (query : LogQuery) (limits : LogLimits) (ls : List (List UInt8)) : List LogRow :=
  ls.filterMap (rowOf toLowercase query limits)

/-- Neither the rows nor their texts have met a limit. -/
def Room (limits : LogLimits) (rows : List LogRow) : Prop :=
  rows.length < limits.rows ∧ payloadOf rows < limits.payload

/-- A line is come to if there is room after the lines before it, and the first one always. -/
def ComesTo (query : LogQuery) (limits : LogLimits) (before : List (List UInt8)) : Prop :=
  before = [] ∨ Room limits (rowsOf toLowercase query limits before)

/-- **Every matching line that is come to fits**: there may be rows, its text is short
enough, and there is room for all of it. -/
def Fitting (query : LogQuery) (limits : LogLimits) (ls : List (List UInt8)) : Prop :=
  ∀ before line after row, ls = before ++ line :: after → ComesTo toLowercase query limits before →
    rowOf toLowercase query limits line = some row →
    1 ≤ limits.rows ∧ utf8Len row.text ≤ limits.line ∧
      payloadOf (rowsOf toLowercase query limits before) + utf8Len row.text ≤ limits.payload

variable {toLowercase path} {query : LogQuery} {limits : LogLimits} {fault : Nat → Option IoError}
  {s s' : ScanState} {a : Answers} {cursor : Option LogCursor} {w : LogWindow}
  {rows rows' : List LogRow} {ls ls' before : List (List UInt8)}

theorem rowsOf_append : rowsOf toLowercase query limits (ls ++ ls') =
    rowsOf toLowercase query limits ls ++ rowsOf toLowercase query limits ls' :=
  List.filterMap_append

theorem Room.of_append (h : Room limits (rows ++ rows')) : Room limits rows := by
  obtain ⟨hrows, hpayload⟩ := h
  rw [List.length_append] at hrows
  rw [payloadOf_append] at hpayload
  constructor <;> omega

/-! ### Where a scan stops -/

variable (toLowercase) in
/-- The lines `taken` are the first of `ls`; the scan came to each, and stopped after the
last because there were no more or no room. -/
structure Stopped (query : LogQuery) (limits : LogLimits) (rows : List LogRow)
    (ls taken : List (List UInt8)) : Prop where
  first : taken <+: ls
  comesTo : ∀ before line after, taken = before ++ line :: after →
    before = [] ∨ Room limits (rows ++ rowsOf toLowercase query limits before)
  last : taken = ls ∨ taken ≠ [] ∧ ¬ Room limits (rows ++ rowsOf toLowercase query limits taken)

theorem Stopped.nil : Stopped toLowercase query limits rows [] [] := by
  refine ⟨List.prefix_refl _, fun before line after h => ?_, .inl rfl⟩
  cases (List.append_eq_nil_iff.mp h.symm).2

theorem Stopped.one {line : List UInt8}
    (h : ls = [] ∨ ¬ Room limits (rows ++ rowsOf toLowercase query limits [line])) :
    Stopped toLowercase query limits rows (line :: ls) [line] := by
  refine ⟨⟨ls, rfl⟩, fun before l after hcut => ?_, ?_⟩
  · left
    cases before with
    | nil => rfl
    | cons b rest =>
        rw [List.cons_append, List.cons.injEq] at hcut
        cases (List.append_eq_nil_iff.mp hcut.2.symm).2
  · obtain rfl | hno := h
    · exact .inl rfl
    · exact .inr ⟨List.cons_ne_nil _ _, hno⟩

theorem Stopped.cons {line : List UInt8} {taken : List (List UInt8)}
    (hroom : Room limits (rows ++ rowsOf toLowercase query limits [line]))
    (h : Stopped toLowercase query limits (rows ++ rowsOf toLowercase query limits [line]) ls taken) :
    Stopped toLowercase query limits rows (line :: ls) (line :: taken) := by
  have hcons : ∀ ls, rows ++ rowsOf toLowercase query limits (line :: ls) =
      rows ++ rowsOf toLowercase query limits [line] ++ rowsOf toLowercase query limits ls := by
    intro ls
    rw [List.append_assoc, ← rowsOf_append, List.singleton_append]
  refine ⟨List.cons_prefix_cons.mpr ⟨rfl, h.first⟩, fun before l after hcut => ?_, ?_⟩
  · cases before with
    | nil => exact .inl rfl
    | cons b rest =>
        rw [List.cons_append, List.cons.injEq] at hcut
        obtain ⟨rfl, hcut⟩ := hcut
        right
        rw [hcons]
        obtain rfl | hrest := h.comesTo rest l after hcut
        · simpa [rowsOf] using hroom
        · exact hrest
  · obtain rfl | ⟨hne, hno⟩ := h.last
    · exact .inl rfl
    · right
      rw [hcons]
      exact ⟨List.cons_ne_nil _ _, hno⟩

theorem consume_scanned (buf : List UInt8) :
    (s.consume toLowercase query limits buf).scannedBytes = s.scannedBytes := by
  simp only [ScanState.consume]
  split <;> rfl

theorem consume_payload (hs : s.payloadBytes = payloadOf s.rows) (buf : List UInt8) :
    (s.consume toLowercase query limits buf).payloadBytes =
      payloadOf (s.consume toLowercase query limits buf).rows := by
  simp only [ScanState.consume]
  split
  · simp [payloadOf, hs]
  · exact hs

/-- **Where a scan stops.** It takes the first lines of what it may read. -/
theorem scanLoop_stops {window : List UInt8} (hs : s.payloadBytes = payloadOf s.rows)
    (hbudget : s.scannedBytes + window.length ≤ limits.scan)
    (h : scanLoop toLowercase path query limits fault false s (chunks newline window) = .ok s') :
    ∃ taken, Stopped toLowercase query limits s.rows (lines newline window) taken ∧
      s'.rows = s.rows ++ rowsOf toLowercase query limits taken ∧
      s'.scannedBytes ≤ limits.scan := by
  induction window using cut_induction newline generalizing s with
  | fragment a ha =>
      rw [lines_fragment ha]
      refine ⟨[], Stopped.nil, ?_⟩
      rw [rowsOf, List.filterMap_nil, List.append_nil]
      obtain hc | ⟨hc, hlast⟩ := chunks_of_fragment ha
      · rw [hc, scanLoop] at h
        split at h
        · cases h
        · cases h
          exact ⟨rfl, by omega⟩
      · rw [hc, scanLoop] at h
        split at h
        · cases h
        · simp only [Bool.false_eq_true, ↓reduceIte, ne_eq, hlast, not_false_eq_true,
            Except.ok.injEq] at h
          subst h
          split <;> exact ⟨rfl, hbudget⟩
  | line a after ha ih =>
      rw [chunks_cut ha, scanLoop] at h
      split at h
      · cases h
      simp only [Bool.false_eq_true, ↓reduceIte, List.getLast?_concat, ne_eq, not_true_eq_false]
        at h
      rw [lines_cut ha]
      generalize hm : ({ s with scannedBytes := s.scannedBytes + (a ++ [newline]).length } : ScanState)
        = m at h
      have hmrows : m.rows = s.rows := by rw [← hm]
      have hmpayload : m.payloadBytes = payloadOf m.rows := by rw [← hm]; exact hs
      have hlen : m.scannedBytes + after.length ≤ limits.scan := by
        rw [← hm]
        simp only [List.length_append, List.length_cons, List.length_nil] at hbudget ⊢
        omega
      have hrows : (m.consume toLowercase query limits (a ++ [newline])).rows =
          s.rows ++ rowsOf toLowercase query limits [a] := by
        rw [(consume_consumes a).rows, hmrows]
        rfl
      have hpayload : (m.consume toLowercase query limits (a ++ [newline])).payloadBytes =
          payloadOf (m.consume toLowercase query limits (a ++ [newline])).rows :=
        consume_payload hmpayload _
      have hscanned : (m.consume toLowercase query limits (a ++ [newline])).scannedBytes
          = m.scannedBytes := consume_scanned _
      split at h
      next hspent =>
        -- nothing of the window is left
        cases h
        rw [hscanned] at hspent
        have hafter : after = [] := List.eq_nil_of_length_eq_zero (by omega)
        subst hafter
        exact ⟨[a], Stopped.one (.inl rfl), hrows, by rw [hscanned]; omega⟩
      split at h
      next hfull =>
        cases h
        refine ⟨[a], Stopped.one (.inr fun hroom => ?_), hrows, by rw [hscanned]; omega⟩
        rw [hrows] at hfull
        exact absurd hroom.1 (Nat.not_lt.mpr hfull)
      split at h
      next hfull =>
        cases h
        refine ⟨[a], Stopped.one (.inr fun hroom => ?_), hrows, by rw [hscanned]; omega⟩
        rw [hpayload, hrows] at hfull
        exact absurd hroom.2 (Nat.not_lt.mpr hfull)
      next hnospent hnorows hnopayload =>
        have hroom : Room limits (s.rows ++ rowsOf toLowercase query limits [a]) := by
          rw [← hrows]
          exact ⟨Nat.not_le.mp hnorows, hpayload ▸ Nat.not_le.mp hnopayload⟩
        obtain ⟨taken, hstopped, htaken, hscan⟩ := ih hpayload (by rw [hscanned]; exact hlen) h
        refine ⟨a :: taken, Stopped.cons hroom (hrows ▸ hstopped), ?_, hscan⟩
        rw [htaken, hrows, List.append_assoc, ← rowsOf_append]
        rfl

theorem discard_kept (limits : LogLimits) (s : ScanState) (buf : List UInt8) :
    (s.discard limits buf).rows = s.rows ∧ (s.discard limits buf).payloadBytes = s.payloadBytes ∧
      (s.discard limits buf).scannedBytes = s.scannedBytes := by
  unfold ScanState.discard
  dsimp only
  split <;> split <;> exact ⟨rfl, rfl, rfl⟩

theorem scanForward_stops {content : List UInt8} {start : Nat} {discard : Bool}
    (h : scanForward toLowercase path content fault start discard query limits = .ok s) :
    ∃ taken, Stopped toLowercase query limits []
        (visible ((content.drop start).take limits.scan) discard) taken ∧
      s.rows = rowsOf toLowercase query limits taken ∧ s.scannedBytes ≤ limits.scan := by
  have hwindow : ((content.drop start).take limits.scan).length ≤ limits.scan :=
    List.length_take_le ..
  unfold scanForward at h
  generalize (content.drop start).take limits.scan = window at h hwindow
  cases discard with
  | false =>
      have hbudget : (ScanState.begin start).scannedBytes + window.length ≤ limits.scan :=
        Nat.le_trans (Nat.le_of_eq (Nat.zero_add _)) hwindow
      obtain ⟨taken, hstopped, hrows, hscan⟩ := scanLoop_stops rfl hbudget h
      exact ⟨taken, hstopped, hrows, hscan⟩
  | true =>
      rw [visible, if_pos rfl]
      induction window using cut_induction newline with
      | fragment a ha =>
          rw [lines_fragment ha]
          refine ⟨[], Stopped.nil, ?_⟩
          obtain hc | ⟨hc, -⟩ := chunks_of_fragment ha
          · rw [hc, scanLoop] at h
            split at h
            · cases h
            · cases h
              exact ⟨rfl, Nat.zero_le _⟩
          · rw [hc, scanLoop] at h
            split at h
            · cases h
            simp only [↓reduceIte, scanLoop] at h
            split at h
            · cases h
            cases h
            obtain ⟨hrows, -, hscanned⟩ := discard_kept limits { ScanState.begin start with
              scannedBytes := (ScanState.begin start).scannedBytes + a.length } a
            rw [hrows, hscanned]
            refine ⟨rfl, ?_⟩
            simpa [ScanState.begin] using hwindow
      | line a after ha _ =>
          rw [lines_cut ha, List.tail_cons]
          rw [chunks_cut ha, scanLoop] at h
          split at h
          · cases h
          simp only [↓reduceIte] at h
          generalize hm : ({ ScanState.begin start with scannedBytes :=
            (ScanState.begin start).scannedBytes + (a ++ [newline]).length } : ScanState) = m at h
          obtain ⟨hrows, hpayload, hscanned⟩ := discard_kept limits m (a ++ [newline])
          have hnone : m.rows = [] ∧ m.payloadBytes = 0 := by
            rw [← hm]
            exact ⟨rfl, rfl⟩
          have hbudget : (m.discard limits (a ++ [newline])).scannedBytes + after.length
              ≤ limits.scan := by
            rw [hscanned, ← hm]
            simp only [ScanState.begin, List.length_append, List.length_cons, List.length_nil]
              at hwindow ⊢
            omega
          have hkept : (m.discard limits (a ++ [newline])).payloadBytes =
              payloadOf (m.discard limits (a ++ [newline])).rows := by
            rw [hpayload, hrows, hnone.1, hnone.2]
            rfl
          obtain ⟨taken, hstopped, htaken, hscan⟩ := scanLoop_stops hkept hbudget h
          rw [hrows, hnone.1] at hstopped htaken
          exact ⟨taken, hstopped, htaken, hscan⟩

/-! ### What a window keeps -/

/-- Where a call starts in the file that it opens, and whether it discards a fragment. -/
def Answers.start (a : Answers) (cursor : Option LogCursor) (query : LogQuery)
    (limits : LogLimits) : Option (Nat × Bool) :=
  a.opened.map fun (len, identity) => (startOf cursor len identity query limits).1

/-- A call that returns a window has read none of a file, or scanned the one it opened. -/
theorem readWindow_ok (h : readWindow toLowercase path a cursor query limits = .ok w) :
    a.start cursor query limits = none ∧ w = missingWindow ∨
      ∃ start discard s, a.start cursor query limits = some (start, discard) ∧
        scanForward toLowercase path a.content a.fault start discard query limits = .ok s ∧
        w.rows = s.rows ∧ w.scannedBytes = s.scannedBytes := by
  unfold readWindow at h
  unfold Answers.start Answers.opened
  split at h
  next hmeta =>
    cases h
    simp [hmeta]
  next => cases h
  next preOpenIdentity hmeta =>
    split at h
    next hopen =>
      cases h
      simp [hmeta, hopen]
    next => cases h
    next hopen =>
      unfold readOpened at h
      split at h
      next => cases h
      next len identity hlen =>
        simp only [hmeta, hopen, hlen]
        split at h
        next hne =>
          cases h
          simp [hne]
        next heq =>
          rw [not_not] at heq
          right
          dsimp only at h
          split at h
          next => cases h
          next =>
            split at h
            next => cases h
            next scan hscan =>
              cases h
              exact ⟨_, _, scan, by simp [heq], hscan, rfl, rfl⟩
  next => cases h

section Fitting

variable {taken : List (List UInt8)}

/-- A scan that stopped early came to every line that it had room for. -/
theorem Stopped.reaches (h : Stopped toLowercase query limits [] ls taken) {line : List UInt8}
    {after : List (List UInt8)} (hcut : ls = before ++ line :: after)
    (hcomes : ComesTo toLowercase query limits before) :
    ∃ rest, taken = before ++ line :: rest := by
  obtain ⟨more, hmore⟩ := h.first
  have hlong : before.length < taken.length := by
    by_contra hshort
    -- what was taken is the start of what stands before the line
    have hprefix : taken <+: before := by
      refine List.prefix_of_prefix_length_le ⟨more, hmore⟩ ?_ (Nat.le_of_not_lt hshort)
      exact ⟨line :: after, hcut.symm⟩
    obtain ⟨between, rfl⟩ := hprefix
    obtain hall | ⟨hne, hno⟩ := h.last
    · have hlen := congrArg List.length (hall.trans hcut)
      rw [List.length_append, List.length_append, List.length_cons] at hlen
      omega
    · obtain hnil | hroom := hcomes
      · exact hne (List.append_eq_nil_iff.mp hnil).1
      · rw [rowsOf_append] at hroom
        exact hno hroom.of_append
  obtain ⟨rest, hrest⟩ : before <+: taken := by
    refine List.prefix_of_prefix_length_le ?_ ⟨more, hmore⟩ (Nat.le_of_lt hlong)
    exact ⟨line :: after, hcut.symm⟩
  subst hrest
  rw [hcut, List.append_assoc, List.append_cancel_left_eq] at hmore
  cases rest with
  | nil => simp at hlong
  | cons l rest =>
      rw [List.cons_append, List.cons.injEq] at hmore
      exact ⟨rest, by rw [hmore.1]⟩

/-- What a scan took keeps the limits, if all that it came to fits. -/
theorem Stopped.bounded (h : Stopped toLowercase query limits [] ls taken)
    (hfit : Fitting toLowercase query limits ls) :
    (rowsOf toLowercase query limits taken).length ≤ limits.rows ∧
      payloadOf (rowsOf toLowercase query limits taken) ≤ limits.payload ∧
      ∀ row ∈ rowsOf toLowercase query limits taken, utf8Len row.text ≤ limits.line := by
  have hfits : ∀ before line after row, taken = before ++ line :: after →
      rowOf toLowercase query limits line = some row →
      ComesTo toLowercase query limits before ∧ 1 ≤ limits.rows ∧ utf8Len row.text ≤ limits.line ∧
        payloadOf (rowsOf toLowercase query limits before) + utf8Len row.text ≤ limits.payload := by
    intro before line after row hcut hrow
    have hcomes : ComesTo toLowercase query limits before := by
      simpa [ComesTo] using h.comesTo before line after hcut
    obtain ⟨more, hmore⟩ := h.first
    refine ⟨hcomes, hfit before line (after ++ more) row ?_ hcomes hrow⟩
    rw [← hmore, hcut, List.append_assoc, List.cons_append]
  have hstarts : ∀ started, started <+: taken →
      (rowsOf toLowercase query limits started).length ≤ limits.rows ∧
        payloadOf (rowsOf toLowercase query limits started) ≤ limits.payload := by
    intro started
    induction started using List.reverseRecOn with
    | nil => exact fun _ => ⟨Nat.zero_le _, Nat.zero_le _⟩
    | append_singleton started line ih =>
        rintro ⟨after, hafter⟩
        rw [List.append_assoc, List.singleton_append] at hafter
        obtain ⟨hcount, htotal⟩ := ih ⟨line :: after, hafter⟩
        rw [rowsOf_append]
        cases hrow : rowOf toLowercase query limits line with
        | none =>
            have hnil : rowsOf toLowercase query limits [line] = [] := by simp [rowsOf, hrow]
            rw [hnil, List.append_nil]
            exact ⟨hcount, htotal⟩
        | some row =>
            have hone : rowsOf toLowercase query limits [line] = [row] := by simp [rowsOf, hrow]
            obtain ⟨hcomes, hrows, -, hpayload⟩ := hfits started line after row hafter.symm hrow
            rw [hone, List.length_append, payloadOf_append]
            refine ⟨?_, by simpa [payloadOf] using hpayload⟩
            obtain rfl | hroom := hcomes
            · simpa [rowsOf] using hrows
            · exact hroom.1
  refine ⟨(hstarts taken (List.prefix_refl _)).1, (hstarts taken (List.prefix_refl _)).2, ?_⟩
  intro row hrow
  obtain ⟨line, hline, hsome⟩ := List.mem_filterMap.mp hrow
  obtain ⟨before, after, hcut⟩ := List.append_of_mem hline
  exact (hfits before line after row hcut hsome).2.2.1

/-- And if it keeps the limits, all that it came to fits. -/
theorem Stopped.fitting (h : Stopped toLowercase query limits [] ls taken)
    (hrows : (rowsOf toLowercase query limits taken).length ≤ limits.rows)
    (hpayload : payloadOf (rowsOf toLowercase query limits taken) ≤ limits.payload)
    (hline : ∀ row ∈ rowsOf toLowercase query limits taken, utf8Len row.text ≤ limits.line) :
    Fitting toLowercase query limits ls := by
  intro before line after row hcut hcomes hrow
  obtain ⟨rest, rfl⟩ := h.reaches hcut hcomes
  have hsplit : rowsOf toLowercase query limits (before ++ line :: rest) =
      rowsOf toLowercase query limits before ++ row :: rowsOf toLowercase query limits rest := by
    rw [rowsOf_append]
    simp [rowsOf, hrow]
  rw [hsplit] at hrows hpayload hline
  rw [List.length_append, List.length_cons] at hrows
  rw [payloadOf_append, payloadOf] at hpayload
  refine ⟨by omega, hline row (by simp), by omega⟩

end Fitting

/-- **A window keeps all its bounds exactly if every matching line that the call comes to
still fits.** No more bytes are read than the limit in any case. -/
theorem bounded_iff (h : readWindow toLowercase path a cursor query limits = .ok w) :
    (Bounded limits w ↔ ∀ start discard, a.start cursor query limits = some (start, discard) →
      Fitting toLowercase query limits (visible (a.window start limits) discard)) ∧
    w.scannedBytes ≤ limits.scan := by
  obtain ⟨hnone, rfl⟩ | ⟨start, discard, s, hstart, hscan, hrows, hscanned⟩ := readWindow_ok h
  · refine ⟨⟨fun _ start discard hstart => ?_, fun _ => ?_⟩, Nat.zero_le _⟩
    · rw [hnone] at hstart
      cases hstart
    · exact ⟨Nat.zero_le _, Nat.zero_le _, by simp [missingWindow], Nat.zero_le _⟩
  · obtain ⟨taken, hstopped, htaken, hbytes⟩ := scanForward_stops hscan
    have hwindow : w.rows = rowsOf toLowercase query limits taken := hrows.trans htaken
    refine ⟨⟨fun hb start' discard' hstart' => ?_, fun hfit => ?_⟩, hscanned ▸ hbytes⟩
    · rw [hstart] at hstart'
      cases hstart'
      exact hstopped.fitting (hwindow ▸ hb.rows) (hwindow ▸ hb.payload) (hwindow ▸ hb.line)
    · obtain ⟨hcount, htotal, hline⟩ := hstopped.bounded (hfit start discard hstart)
      rw [← hwindow] at hcount htotal hline
      exact ⟨hcount, htotal, hline, hscanned ▸ hbytes⟩

/-- Three bytes that are no character, with limits that have room for three bytes. -/
theorem over_the_line_limit :
    ∃ w, readWindow id "error.log" (.plain ⟨1, 2⟩ [0xFF, 0xFF, 0xFF, newline]) none noQuery
        ⟨500, 512 * 1024, 3, 16 * 1024 * 1024⟩ = .ok w ∧ ¬ Bounded ⟨500, 512 * 1024, 3, 16 * 1024 * 1024⟩ w := by
  refine ⟨_, rfl, fun hb => ?_⟩
  have hlong := hb.line ⟨.info, [replacement, replacement, replacement]⟩ (by decide)
  exact absurd hlong (by decide)

def shortLines : Answers := .plain ⟨1, 2⟩ (utf8 "ab\ncd\n".toList)

/-- A file whose lines fit, one row a call. -/
theorem bounded_iff_short :
    ∃ w, readWindow id "error.log" shortLines (some ⟨⟨1, 2⟩, 0⟩) noQuery ⟨1, 2, 2, 16⟩ = .ok w ∧
      (Bounded ⟨1, 2, 2, 16⟩ w ↔ ∀ start discard,
        shortLines.start (some ⟨⟨1, 2⟩, 0⟩) noQuery ⟨1, 2, 2, 16⟩ = some (start, discard) →
          Fitting id noQuery ⟨1, 2, 2, 16⟩ (visible (shortLines.window start ⟨1, 2, 2, 16⟩) discard)) := by
  have h : readWindow id "error.log" shortLines (some ⟨⟨1, 2⟩, 0⟩) noQuery ⟨1, 2, 2, 16⟩ =
      .ok ⟨[⟨.info, "ab".toList⟩], some ⟨⟨1, 2⟩, 3⟩, true, none, true, 6, 3, 0, false⟩ := rfl
  exact ⟨_, h, (bounded_iff h).1⟩

end OpenVHost.Logs
