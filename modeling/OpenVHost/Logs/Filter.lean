/-
# Filtering while draining

* `filter_commutes` — what a drain with a query returns is what a drain without one
  returns, filtered.
-/

import OpenVHost.Logs.Drain

namespace OpenVHost.Logs

open Text

variable (toLowercase : List Char → List Char) (path : String) (identity : FileIdentity)

/-- The text and the level of a row match. -/
def LogQuery.matchesRow (query : LogQuery) (row : LogRow) : Bool :=
  lineMatches toLowercase row.text row.level query (query.needleLower toLowercase)

/-- Some number of calls, each with the cursor of the call before, return these rows and
leave no complete line unread. -/
def DrainsTo (query : LogQuery) (limits : LogLimits) (file : List UInt8) (n : Nat)
    (rows : List LogRow) : Prop :=
  ∃ calls n', drain toLowercase path identity query limits file (some ⟨identity, n⟩)
      (List.replicate calls []) = .ok ⟨file, some ⟨identity, n'⟩, rows⟩ ∧
    lines newline (file.drop n') = []

variable {toLowercase path identity} {query : LogQuery} {limits : LogLimits} {file : List UInt8}
  {n : Nat} {rows : List LogRow}

/-- The row of a line that a query filters is its plain row, if that matches. -/
theorem rowOf_eq (line : List UInt8) :
    rowOf toLowercase query limits line =
      if query.matchesRow toLowercase (plainRow limits line) then some (plainRow limits line)
      else none := rfl

theorem filterMap_rowOf_eq (ls : List (List UInt8)) :
    ls.filterMap (rowOf toLowercase query limits) =
      (ls.map (plainRow limits)).filter (query.matchesRow toLowercase) := by
  induction ls with
  | nil => rfl
  | cons line ls ih =>
      rw [List.map_cons, List.filter_cons, List.filterMap_cons, rowOf_eq]
      split
      next hnone =>
        split at hnone
        · cases hnone
        next hno => rw [if_neg hno, ih]
      next row hsome =>
        split at hsome
        next hyes =>
          cases hsome
          rw [if_pos hyes, ih]
        · cases hsome

/-- **A drain to the end returns the rows of all the lines that match.** -/
theorem rows_of_drainsTo (hn : n ≤ file.length)
    (h : DrainsTo toLowercase path identity query limits file n rows) :
    rows = (lines newline (file.drop n)).filterMap (rowOf toLowercase query limits) := by
  obtain ⟨calls, n', hdrain, hend⟩ := h
  obtain ⟨m, taken, hpassed, hall⟩ := drain_passes toLowercase path identity query limits hn
    (List.replicate calls [])
  have hsame : file ++ (List.replicate calls ([] : List UInt8)).flatten = file := by simp
  rw [hsame] at hpassed hall
  rw [hdrain, Except.ok.injEq, Drained.mk.injEq, Option.some.injEq, LogCursor.mk.injEq] at hall
  obtain ⟨-, ⟨-, rfl⟩, rfl⟩ := hall
  have hsplit := hpassed.lines_drop
  rw [hend, List.append_nil] at hsplit
  rw [hsplit]

variable (toLowercase path identity query) in
/-- If every line fits into a scan, there is a drain to the end. -/
theorem drainsTo_end (hn : n ≤ file.length)
    (hscan : ∀ line ∈ lines newline (file.drop n), line.length < limits.scan) :
    DrainsTo toLowercase path identity query limits file n
      ((lines newline (file.drop n)).filterMap (rowOf toLowercase query limits)) := by
  obtain ⟨n', hend, hdrain⟩ := drain_rest toLowercase path identity query hn hscan (Nat.le_refl _)
  exact ⟨_, n', hdrain, hend⟩

variable (toLowercase path identity query) in
/-- **Filtering commutes with draining.** Drains to the end of a file whose lines fit into a
scan, one with a query and one without: each of them exists, and whatever the calls return
one by one, the rows with the query are those without it that match, in the same order. -/
theorem filter_commutes (hn : n ≤ file.length)
    (hscan : ∀ line ∈ lines newline (file.drop n), line.length < limits.scan) :
    (∃ rows, DrainsTo toLowercase path identity query limits file n rows) ∧
      (∃ rows, DrainsTo toLowercase path identity noQuery limits file n rows) ∧
      ∀ rows plain, DrainsTo toLowercase path identity query limits file n rows →
        DrainsTo toLowercase path identity noQuery limits file n plain →
          rows = plain.filter (query.matchesRow toLowercase) := by
  refine ⟨⟨_, drainsTo_end toLowercase path identity query hn hscan⟩,
    ⟨_, drainsTo_end toLowercase path identity noQuery hn hscan⟩, ?_⟩
  intro rows plain hrows hplain
  have hplainRow : noQuery.isActive = false := rfl
  rw [rows_of_drainsTo hn hrows, rows_of_drainsTo hn hplain, filterMap_rowOf hplainRow,
    filterMap_rowOf_eq]

/-- Two errors among three lines, one row a call. -/
theorem filter_commutes_errors :
    (∃ rows, DrainsTo id "error.log" ⟨1, 2⟩ ⟨none, false, some .error⟩ ⟨1, 512, 16, 16⟩
        (utf8 "error a\nb\nfatal\nc".toList) 0 rows) ∧
      (∃ rows, DrainsTo id "error.log" ⟨1, 2⟩ noQuery ⟨1, 512, 16, 16⟩
        (utf8 "error a\nb\nfatal\nc".toList) 0 rows) ∧
      ∀ rows plain, DrainsTo id "error.log" ⟨1, 2⟩ ⟨none, false, some .error⟩ ⟨1, 512, 16, 16⟩
        (utf8 "error a\nb\nfatal\nc".toList) 0 rows →
        DrainsTo id "error.log" ⟨1, 2⟩ noQuery ⟨1, 512, 16, 16⟩
          (utf8 "error a\nb\nfatal\nc".toList) 0 plain →
            rows = plain.filter (LogQuery.matchesRow id ⟨none, false, some .error⟩) :=
  filter_commutes id "error.log" ⟨1, 2⟩ ⟨none, false, some .error⟩ (Nat.zero_le _) (by decide)

end OpenVHost.Logs
