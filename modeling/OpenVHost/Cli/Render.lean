/-
# What the command line tool prints

An exchange as text: a table and sentences for a person, or one line of JSON for a script, and
the exit status beside it. How a character is put in upper case is given, and so is what the
home directory and the errors of `clap` display.

* `decodeResponse_jsonLine` — the line for a script reads back as the answer.
* `human_err` — what a person is told on the error stream is told exactly with a failure.
* `padRow_column` — the columns of the table stand under each other.
* `run_ok_iff` — when an invocation ends with success.
-/

import OpenVHost.Cli.Exchange
import OpenVHost.Control.RoundTrip

namespace OpenVHost.Cli

open Control Json Text

/-- What goes to which stream. -/
structure Rendered where
  out : List Char
  err : List Char
  deriving DecidableEq, Repr

namespace Rendered

def empty : Rendered := ⟨[], []⟩

/-- A line more for the output. -/
def outLine (r : Rendered) (line : List Char) : Rendered :=
  { r with out := r.out ++ line ++ ['\n'] }

/-- A line more for the errors. -/
def errLine (r : Rendered) (line : List Char) : Rendered :=
  { r with err := r.err ++ line ++ ['\n'] }

end Rendered

/-! ### For a script -/

/-- `env!("CARGO_PKG_VERSION")`. -/
def version : List Char := "0.1.0".toList

/-- The fields that a header adds. -/
def Header.fields (home : List Char) (ex : Exchange) : Header → List (List Char × Value)
  | bare => []
  | supervisor => [("supervisor".toList, .str ex.supervisor.asStr)]
  | status => [("supervisor".toList, .str ex.supervisor.asStr), ("home".toList, .str home),
      ("version".toList, .str version)]

/-- The envelope with the fields of the header, which is written in one line. -/
def answerJson (command : List Char) (header : Header) (home : List Char) (ex : Exchange) : Value :=
  (envelopeJson command ex.response).insertAll (header.fields home ex)

def jsonLine (command : List Char) (header : Header) (home : List Char) (ex : Exchange) :
    List Char :=
  print compact 0 (answerJson command header home ex)

/-! ### For a person -/

/-- The headings of the table, also its least widths. -/
def columns : List (List Char) :=
  ["ID".toList, "STATE".toList, "PID".toList, "ENDPOINT".toList]

/-- What stands for no value. -/
def noneText : List Char := "-".toList

/-- The first character in upper case. -/
def sentenceCase (toUppercase : Char → List Char) : List Char → List Char
  | [] => []
  | first :: rest => toUppercase first ++ rest

def stateLabel : ServiceState → List Char
  | .stopped => "stopped".toList
  | .starting => "starting".toList
  | .running => "running".toList
  | .failed (some c) _ => s!"failed (exit {c.toInt})".toList
  | .failed none _ => "failed".toList

/-- A cell for each column, padded but for the last. -/
def padRow : List (List Char) → List Nat → List Char
  | [], _ => []
  | [cell], _ => cell
  | cell :: next :: row, widths =>
      cell ++ List.replicate (widths.headD 0 - cell.length) ' ' ++ "  ".toList ++
        padRow (next :: row) widths.tail

/-- The lines of a failure: how it ended, and what it left on its error stream. -/
def failureDetail (lead : List Char) (exit : Option Int32) (stderrTail : List (List Char)) :
    List (List Char) :=
  let code := match exit with
    | none => "no exit status".toList
    | some c => s!"exit {c.toInt}".toList
  if stderrTail = [] then [lead ++ " (".toList ++ code ++ ") with no captured output".toList]
  else (lead ++ " (".toList ++ code ++ "):".toList) :: stderrTail.map ("    ".toList ++ ·)

def failure (id : List Char) (exit : Option Int32) (stderrTail : List (List Char)) :
    List (List Char) :=
  failureDetail (id ++ " failed".toList) exit stderrTail

def staleFailure (id : List Char) (exit : Option Int32) (stderrTail : List (List Char)) :
    List (List Char) :=
  failureDetail (id ++ " is in a failed state from an earlier run".toList) exit stderrTail

/-- The cells of a service. -/
def cells (s : ServiceStatus) : List (List Char) :=
  [s.id, stateLabel s.state,
    match s.pid with
    | none => noneText
    | some p => (toString p.toNat).toList,
    s.endpoint.getD noneText]

/-- The widest cell of a column, its heading included. -/
def width (rows : List (List (List Char))) (i : Nat) : Nat :=
  ((rows.map fun row => (row.getD i []).length) ++ [(columns.getD i []).length]).foldl max 0

def widths (rows : List (List (List Char))) : List Nat :=
  (List.range columns.length).map (width rows)

/-- The table of some services. -/
def table (services : List ServiceStatus) : List (List Char) :=
  let rows := services.map cells
  (columns :: rows).map fun row => padRow row (widths rows)

/-- The failures below the table. -/
def failures (r : Rendered) : List ServiceStatus → Rendered
  | [] => r
  | s :: services =>
      match s.state with
      | .failed exit stderrTail =>
          failures ((failure s.id exit stderrTail).foldl Rendered.outLine (r.outLine [])) services
      | .stopped | .starting | .running => failures r services

def renderServices (toUppercase : Char → List Char) (r : Rendered) (ex : Exchange)
    (services : List ServiceStatus) : Rendered :=
  let r := match ex.note with
    | some note => r.outLine (sentenceCase toUppercase note)
    | none => r
  if services = [] then
    if ex.supervisor = .running then r.outLine "No services are registered.".toList
    else if ex.note = none then
      r.outLine ("No services: the supervisor is ".toList ++ ex.supervisor.describe ++ ".".toList)
    else r
  else failures ((table services).foldl Rendered.outLine r) services

def renderTransition (r : Rendered) (service : ServiceStatus) (disposition : Disposition) :
    Rendered :=
  match service.state, disposition with
  | .failed exit stderrTail, .changed =>
      (failure service.id exit stderrTail).foldl Rendered.errLine r
  | .failed exit stderrTail, .unchanged =>
      (staleFailure service.id exit stderrTail).foldl Rendered.outLine
        (r.outLine (service.id ++ " is not running; nothing to do".toList))
  | state, disposition =>
      let pid := match service.pid with
        | none => []
        | some p => s!" (pid {p.toNat})".toList
      match disposition with
      | .changed => r.outLine (service.id ++ " is now ".toList ++ stateLabel state ++ pid)
      | .unchanged =>
          r.outLine (service.id ++ " is already ".toList ++ stateLabel state ++ pid ++
            "; nothing to do".toList)

/-- `stragglers.join(", ")`. -/
def joined (stragglers : List (List Char)) : List Char := List.intercalate ", ".toList stragglers

def human (toUppercase : Char → List Char) (header : Header) (home : List Char) (ex : Exchange) :
    Rendered :=
  let r := match header with
    | .status =>
        (((Rendered.empty.outLine ("OpenVHost ".toList ++ version)).outLine
          ("home:       ".toList ++ home)).outLine
            ("supervisor: ".toList ++ ex.supervisor.describe)).outLine []
    | .bare | .supervisor => .empty
  match ex.response with
  | .services services => renderServices toUppercase r ex services
  | .transition service disposition => renderTransition r service disposition
  | .stopAll stragglers =>
      if stragglers = [] then r.outLine "All services stopped.".toList
      else r.errLine ("openvhost: these services did not stop within the deadline: ".toList ++
        joined stragglers)
  | .error _ message => r.errLine ("openvhost: ".toList ++ message)

/-! ### An invocation -/

/-- What is written, and the exit status. -/
def emit (toUppercase : Char → List Char) (json : Bool) (command : List Char) (header : Header)
    (home : List Char) (ex : Exchange) : Rendered × Exit :=
  (if json then Rendered.empty.outLine (jsonLine command header home ex)
    else human toUppercase header home ex, exitFor ex.response)

/-- The exchange of an invocation: `outcome` is what the control channel makes of a request,
`presence` what the probe of the lock says once it is asked. -/
def exchangeOf (display : InvalidServiceId → List Char)
    (outcome : Request → Except ControlError Response) (presence : SupervisorPresence)
    (i : Invocation) : Exchange :=
  match i.request display with
  | .error e => .fromClientError .absent e
  | .ok req =>
      match outcome req with
      | .ok response => .answered response
      | .error e => .fromClientError presence e

/-- One invocation, with the home directory, or why there is none. -/
def run (toUppercase : Char → List Char) (display : InvalidServiceId → List Char)
    (home : Except (List Char) (List Char)) (outcome : Request → Except ControlError Response)
    (presence : SupervisorPresence) (i : Invocation) : Rendered × Exit :=
  match home with
  | .error e =>
      emit toUppercase i.json i.verb.commandName .bare []
        (.refused .operationFailed
          ("could not work out where the OpenVHost home directory is: ".toList ++ e))
  | .ok home =>
      emit toUppercase i.json i.verb.commandName i.verb.header home
        ((exchangeOf display outcome presence i).under i.verb.header)

/-! ### The line for a script -/

section Script

variable {command home : List Char} {header : Header} {ex : Exchange}

/-- A response is read from four fields of its envelope. -/
theorem decodeResponse_congr {v w : Value} (hv : Sound maxDepth v) (hw : Sound maxDepth w)
    (h : ∀ n ∈ ["schemaVersion".toList, "ok".toList, "result".toList, "error".toList],
      v.item n = w.item n) :
    decodeResponse (utf8 (print compact 0 v)) = decodeResponse (utf8 (print compact 0 w)) := by
  have hne : ∀ {u : Value}, Sound maxDepth u → utf8 (print compact 0 u) ≠ [] := by
    intro u hu hnil
    have hparse : parse (print compact 0 u) = some u := parse_print compact_blank hu 0
    have hempty : print compact 0 u = [] := utf8_injective hnil
    rw [hempty] at hparse
    cases hparse
  have hversion := h "schemaVersion".toList (.head _)
  have hok := h "ok".toList (.tail _ (.head _))
  have hresult := h "result".toList (.tail _ (.tail _ (.head _)))
  have herror := h "error".toList (.tail _ (.tail _ (.tail _ (.head _))))
  rw [decodeResponse, decodeResponse, if_neg (hne hv), if_neg (hne hw), decodeUtf8_utf8,
    decodeUtf8_utf8, Option.bind_some, Option.bind_some, parse_print compact_blank hv,
    parse_print compact_blank hw]
  simp only [hversion, hok, hresult, herror]

theorem sound_answerJson : Sound maxDepth (answerJson command header home ex) := by
  have hfields : ∀ f ∈ header.fields home ex, Sound 5 f.2 := by
    cases header with
    | bare => exact fun _ h => absurd h List.not_mem_nil
    | supervisor => exact List.forall_mem_cons.mpr ⟨.str, fun _ h => absurd h List.not_mem_nil⟩
    | status =>
        simp only [Header.fields, List.forall_mem_cons]
        exact ⟨.str, .str, .str, fun _ h => absurd h List.not_mem_nil⟩
  exact ((sound_envelopeJson command ex.response).insertAll hfields).mono (by decide)

/-- **The line reads back as the answer**, by the protocol's own reader, whatever the header
adds to it. -/
theorem decodeResponse_jsonLine :
    decodeResponse (utf8 (jsonLine command header home ex)) = .ok ex.response := by
  have hitem : ∀ n ∈ ["schemaVersion".toList, "ok".toList, "result".toList, "error".toList],
      (answerJson command header home ex).item n = (envelopeJson command ex.response).item n := by
    intro n hn
    refine Value.item_insertAll ?_ _
    rintro f hf rfl
    have hclash : (header.fields home ex).all (fun f =>
        not (["schemaVersion".toList, "ok".toList, "result".toList, "error".toList].contains
          f.1)) = true := by
      cases header <;> rfl
    have hfree := List.all_eq_true.mp hclash f hf
    rw [Bool.not_eq_true', List.contains_eq_mem, decide_eq_false_iff_not] at hfree
    exact hfree hn
  calc decodeResponse (utf8 (jsonLine command header home ex))
      = decodeResponse (utf8 (envelopeLine command ex.response)) :=
        decodeResponse_congr sound_answerJson
          ((sound_envelopeJson command ex.response).mono (by decide)) hitem
    _ = .ok ex.response := decodeResponse_envelopeLine command ex.response

/-- What a script reads of the supervisor. -/
theorem supervisor_jsonLine :
    (parse (jsonLine command header home ex)).bind (Value.item "supervisor".toList) =
      if header.reportsSupervisor then some (.str ex.supervisor.asStr) else none := by
  rw [jsonLine, parse_print compact_blank sound_answerJson, Option.bind_some]
  obtain ⟨supervisor, response, note⟩ := ex
  cases header <;> cases response <;> rfl

end Script

/-! ### The two streams -/

section Streams

variable {toUppercase : Char → List Char} {header : Header} {home : List Char} {ex : Exchange}

theorem err_foldl_outLine (lines : List (List Char)) (r : Rendered) :
    (lines.foldl Rendered.outLine r).err = r.err := by
  induction lines generalizing r with
  | nil => rfl
  | cons line lines ih => exact ih _

theorem err_failures (services : List ServiceStatus) (r : Rendered) :
    (failures r services).err = r.err := by
  induction services generalizing r with
  | nil => rfl
  | cons s services ih =>
      rw [failures]
      split
      · rw [ih, err_foldl_outLine]
        rfl
      all_goals exact ih r

theorem outLine_ne_nil (r : Rendered) (line : List Char) : (r.outLine line).out ≠ [] :=
  List.append_ne_nil_of_right_ne_nil _ (List.cons_ne_nil _ _)

theorem errLine_ne_nil (r : Rendered) (line : List Char) : (r.errLine line).err ≠ [] :=
  List.append_ne_nil_of_right_ne_nil _ (List.cons_ne_nil _ _)

theorem foldl_outLine_ne_nil {r : Rendered} (h : r.out ≠ []) (lines : List (List Char)) :
    (lines.foldl Rendered.outLine r).out ≠ [] := by
  induction lines generalizing r with
  | nil => exact h
  | cons line lines ih => exact ih (outLine_ne_nil r line)

theorem foldl_errLine_ne_nil {r : Rendered} (h : r.err ≠ []) (lines : List (List Char)) :
    (lines.foldl Rendered.errLine r).err ≠ [] := by
  induction lines generalizing r with
  | nil => exact h
  | cons line lines ih => exact ih (errLine_ne_nil r line)

theorem failures_ne_nil {r : Rendered} (h : r.out ≠ []) (services : List ServiceStatus) :
    (failures r services).out ≠ [] := by
  induction services generalizing r with
  | nil => exact h
  | cons s services ih =>
      rw [failures]
      split
      · exact ih (foldl_outLine_ne_nil (outLine_ne_nil r []) _)
      all_goals exact ih h

theorem failureDetail_cons (lead : List Char) (exit : Option Int32)
    (stderrTail : List (List Char)) :
    ∃ line lines, failureDetail lead exit stderrTail = line :: lines := by
  unfold failureDetail
  split_ifs
  · exact ⟨_, _, rfl⟩
  · exact ⟨_, _, rfl⟩

/-- A list of services is told on the output alone. -/
theorem renderServices_streams (r : Rendered) (services : List ServiceStatus) :
    (renderServices toUppercase r ex services).err = r.err ∧
      (renderServices toUppercase r ex services).out ≠ [] := by
  have htable : ∀ r : Rendered, ((table services).foldl Rendered.outLine r).out ≠ [] := by
    intro r
    rw [table, List.map_cons, List.foldl_cons]
    exact foldl_outLine_ne_nil (outLine_ne_nil r _) _
  have hnote : ∀ r' : Rendered, r' = (match ex.note with
      | some note => r.outLine (sentenceCase toUppercase note)
      | none => r) → r'.err = r.err ∧ (ex.note ≠ none → r'.out ≠ []) := by
    rintro r' rfl
    cases ex.note with
    | none => exact ⟨rfl, fun h => absurd rfl h⟩
    | some note => exact ⟨rfl, fun _ => outLine_ne_nil _ _⟩
  unfold renderServices
  generalize hr : (match ex.note with
    | some note => r.outLine (sentenceCase toUppercase note)
    | none => r) = r'
  obtain ⟨herr, hout⟩ := hnote r' hr.symm
  dsimp only
  split_ifs with hempty hrunning hnone
  · exact ⟨herr, outLine_ne_nil _ _⟩
  · exact ⟨herr, outLine_ne_nil _ _⟩
  · exact ⟨herr, hout hnone⟩
  · rw [err_failures, err_foldl_outLine]
    exact ⟨herr, failures_ne_nil (htable r') services⟩

/-- A transition is told on the error stream exactly where it failed. -/
theorem renderTransition_streams {r : Rendered} (hr : r.err = []) (service : ServiceStatus)
    (disposition : Disposition) :
    ((renderTransition r service disposition).err ≠ [] ↔
        exitFor (.transition service disposition) ≠ .ok) ∧
      (exitFor (.transition service disposition) = .ok →
        (renderTransition r service disposition).out ≠ []) := by
  have hquiet : ∀ line, ((r.outLine line).err ≠ [] ↔ Exit.ok ≠ .ok) := by
    intro line
    exact iff_of_false (fun h => h hr) fun h => h rfl
  obtain ⟨id, displayName, endpoint, pid, state⟩ := service
  cases state with
  | failed exit stderrTail =>
      cases disposition with
      | changed =>
          obtain ⟨line, lines, hlines⟩ :=
            failureDetail_cons (id ++ " failed".toList) exit stderrTail
          constructor
          · refine iff_of_true ?_ (show Exit.failure ≠ .ok by decide)
            simp only [renderTransition, failure, hlines, List.foldl_cons]
            exact foldl_errLine_ne_nil (errLine_ne_nil r line) lines
          · exact fun h => absurd h (show Exit.failure ≠ .ok by decide)
      | unchanged =>
          simp only [renderTransition, exitFor]
          rw [err_foldl_outLine]
          exact ⟨hquiet _, fun _ => foldl_outLine_ne_nil (outLine_ne_nil r _) _⟩
  | _ =>
      cases disposition
      · exact ⟨hquiet _, fun _ => outLine_ne_nil r _⟩
      · exact ⟨hquiet _, fun _ => outLine_ne_nil r _⟩

/-- **A person is told something on the error stream exactly where the exit status is not zero**,
and something on the output where it is. -/
theorem human_streams :
    ((human toUppercase header home ex).err ≠ [] ↔ (exitFor ex.response).code ≠ 0) ∧
      ((exitFor ex.response).code = 0 → (human toUppercase header home ex).out ≠ []) := by
  rw [Ne, Ne, Exit.code_eq_zero]
  unfold human
  generalize hr : (match header with
    | .status =>
        (((Rendered.empty.outLine ("OpenVHost ".toList ++ version)).outLine
          ("home:       ".toList ++ home)).outLine
            ("supervisor: ".toList ++ ex.supervisor.describe)).outLine []
    | .bare | .supervisor => Rendered.empty) = r
  have herr : r.err = [] := by
    subst hr
    cases header <;> rfl
  cases hresponse : ex.response with
  | services services =>
      obtain ⟨hsame, hout⟩ := renderServices_streams r services
      exact ⟨iff_of_false (fun h => h (hsame.trans herr)) fun h => h rfl, fun _ => hout⟩
  | transition service disposition => exact renderTransition_streams herr service disposition
  | stopAll stragglers =>
      cases stragglers with
      | nil => exact ⟨iff_of_false (fun h => h herr) fun h => h rfl, fun _ => outLine_ne_nil r _⟩
      | cons s stragglers =>
          exact ⟨iff_of_true (errLine_ne_nil r _) (by simp [exitFor]),
            fun h => by simp [exitFor] at h⟩
  | error code message =>
      exact ⟨iff_of_true (errLine_ne_nil r _) (exitForError_ne_ok code),
        fun h => absurd h (exitForError_ne_ok code)⟩

end Streams

/-! ### The table -/

section Table

variable {row : List (List Char)} {ws : List Nat} {i : Nat}

/-- Where a column begins. -/
def offset (ws : List Nat) (i : Nat) : Nat := ((ws.take i).map (· + 2)).sum

/-- **A row of cells that fit puts each of them at the beginning of its column**, two blanks at
least after the one before. -/
theorem padRow_column (hlen : row.length ≤ ws.length) (hi : i < row.length)
    (hfit : ∀ j < row.length, (row.getD j []).length ≤ ws.getD j 0) :
    ∃ before after, padRow row ws = before ++ row.getD i [] ++ after ∧
      before.length = offset ws i ∧ (0 < i → "  ".toList <:+ before) := by
  induction i generalizing row ws with
  | zero =>
      match row, hi with
      | [cell], _ =>
          exact ⟨[], [], (List.append_nil _).symm, rfl, fun h => absurd h (Nat.lt_irrefl 0)⟩
      | cell :: next :: row, _ =>
          refine ⟨[], List.replicate (ws.headD 0 - cell.length) ' ' ++ "  ".toList ++
            padRow (next :: row) ws.tail, ?_, rfl, fun h => absurd h (Nat.lt_irrefl 0)⟩
          simp only [padRow, List.getD_cons_zero, List.nil_append, List.append_assoc]
  | succ i ih =>
      match row, ws, hi with
      | cell :: next :: row, w :: ws, hi =>
          have hrest : ∀ j < (next :: row).length, ((next :: row).getD j []).length ≤ ws.getD j 0 :=
            fun j hj => hfit (j + 1) (Nat.succ_lt_succ hj)
          obtain ⟨before, after, heq, hbefore, hblank⟩ :=
            ih (Nat.le_of_succ_le_succ hlen) (Nat.lt_of_succ_lt_succ hi) hrest
          have hcell : cell.length ≤ w := hfit 0 (Nat.zero_lt_succ _)
          refine ⟨cell ++ List.replicate (w - cell.length) ' ' ++ "  ".toList ++ before, after,
            ?_, ?_, fun _ => ?_⟩
          · simp only [padRow, List.headD_cons, List.tail_cons, heq, List.append_assoc,
              List.getD_cons_succ]
          · have hblanks : "  ".toList.length = 2 := rfl
            simp only [List.length_append, List.length_replicate, hbefore, hblanks, offset,
              List.take_succ_cons, List.map_cons, List.sum_cons]
            omega
          · cases i with
            | zero =>
                have hnil : before = [] := List.length_eq_zero_iff.mp hbefore
                rw [hnil, List.append_nil]
                exact List.suffix_append _ _
            | succ i => exact (hblank (Nat.zero_lt_succ i)).trans (List.suffix_append _ _)

theorem le_foldl_max {ns : List Nat} {n : Nat} (acc : Nat) (h : n ∈ ns ∨ n ≤ acc) :
    n ≤ ns.foldl max acc := by
  induction ns generalizing acc with
  | nil => exact h.resolve_left List.not_mem_nil
  | cons m ns ih =>
      refine ih (max acc m) ?_
      rcases h with h | h
      · rcases List.mem_cons.mp h with rfl | h
        · exact .inr (Nat.le_max_right ..)
        · exact .inl h
      · exact .inr (Nat.le_trans h (Nat.le_max_left ..))

/-- **Every column of the table begins at one offset on every line**, the headings included, and
is two blanks at least away from the column before. -/
theorem table_column (services : List ServiceStatus) :
    ∃ starts : List Nat, ∀ line ∈ table services, ∃ row ∈ columns :: services.map cells,
      ∀ i < columns.length, ∃ before after, line = before ++ row.getD i [] ++ after ∧
        before.length = starts.getD i 0 ∧ (0 < i → "  ".toList <:+ before) := by
  refine ⟨(List.range columns.length).map (offset (widths (services.map cells))), ?_⟩
  intro line hline
  obtain ⟨row, hrow, rfl⟩ := List.mem_map.mp hline
  have hlength : row.length = columns.length := by
    rcases List.mem_cons.mp hrow with rfl | hrow
    · rfl
    · obtain ⟨s, -, rfl⟩ := List.mem_map.mp hrow
      rfl
  have hwidth : ∀ j < columns.length, (row.getD j []).length ≤
      (widths (services.map cells)).getD j 0 := by
    intro j hj
    have hget : (widths (services.map cells)).getD j 0 = width (services.map cells) j := by
      simp only [widths, List.getD_eq_getElem?_getD, List.getElem?_map, List.getElem?_range hj,
        Option.map_some, Option.getD_some]
    rw [hget, width]
    refine le_foldl_max 0 (.inl ?_)
    rcases List.mem_cons.mp hrow with rfl | hrow
    · exact List.mem_append_right _ (List.mem_singleton_self _)
    · exact List.mem_append_left _ (List.mem_map_of_mem hrow)
  refine ⟨row, hrow, fun i hi => ?_⟩
  have hstart : ((List.range columns.length).map (offset (widths (services.map cells)))).getD i 0 =
      offset (widths (services.map cells)) i := by
    simp only [List.getD_eq_getElem?_getD, List.getElem?_map, List.getElem?_range hi,
      Option.map_some, Option.getD_some]
  rw [hstart]
  have hshort : row.length ≤ (widths (services.map cells)).length := by
    rw [hlength, widths, List.length_map, List.length_range]
  exact padRow_column hshort (hlength ▸ hi) fun j hj => hwidth j (hlength ▸ hj)

end Table

/-! ### Invocations -/

section Invocations

variable {toUppercase : Char → List Char} {display : InvalidServiceId → List Char}
  {home : Except (List Char) (List Char)} {outcome : Request → Except ControlError Response}
  {presence : SupervisorPresence} {i : Invocation}

theorem serviceId_error {id : List Char} {e : ControlError} (h : serviceId display id = .error e) :
    ∃ detail, e = .invalidServiceId detail := by
  unfold serviceId at h
  split at h
  · cases h
  · cases h
    exact ⟨_, rfl⟩

/-- An invocation without a request has an id that is none. -/
theorem request_error {e : ControlError} (h : i.request display = .error e) :
    ∃ detail, e = .invalidServiceId detail := by
  have hbind : ∀ {id : List Char} {f : ServiceId → Except ControlError Request},
      (∀ id e, f id ≠ .error e) → (serviceId display id >>= f) = .error e →
        ∃ detail, e = .invalidServiceId detail := by
    intro id f hf heq
    cases hid : serviceId display id with
    | error e' =>
        rw [hid] at heq
        cases heq
        exact serviceId_error hid
    | ok id =>
        rw [hid] at heq
        exact absurd heq (hf id e)
  obtain ⟨json, noWait, verb⟩ := i
  cases verb with
  | status id =>
      cases id with
      | none => cases h
      | some id => exact hbind (fun _ _ h => by cases h) h
  | list => cases h
  | start id => exact hbind (fun _ _ h => by cases h) h
  | stop id => exact hbind (fun _ _ h => by cases h) h
  | restart id => exact hbind (fun _ _ h => by cases h) h
  | stopAll => cases h

/-- The errors that say that there is no app. -/
def ControlError.noApp (presence : SupervisorPresence) : ControlError → Prop
  | .notRunning _ => True
  | .unreachable _ _ => presence = .absent
  | _ => False

theorem supervisor_fromClientError (presence : SupervisorPresence) (e : ControlError) :
    (Exchange.fromClientError presence e).supervisor = .notRunning ↔ e.noApp presence := by
  cases e with
  | notRunning path => exact iff_of_true rfl trivial
  | unreachable path source =>
      cases presence with
      | absent => exact iff_of_true rfl rfl
      | present => exact iff_of_false (fun h => by cases h) fun h => by cases h
      | indeterminate reason => exact iff_of_false (fun h => by cases h) fun h => by cases h
  | _ => exact iff_of_false (fun h => by cases h) id

/-- A failure is success only as the answer to a verb that reports on the app. -/
theorem exitFor_under {header : Header} {ex : Exchange} (h : exitFor ex.response ≠ .ok) :
    exitFor (ex.under header).response = .ok ↔
      header.reportsSupervisor = true ∧ ex.supervisor = .notRunning := by
  unfold Exchange.under Exchange.absentSupervisorIsAnAnswer
  split_ifs with hreports
  · split
    next hsupervisor => exact iff_of_true rfl ⟨hreports, hsupervisor⟩
    all_goals
      next hsupervisor =>
        refine iff_of_false h fun ⟨_, hnot⟩ => ?_
        rw [hsupervisor] at hnot
        cases hnot
  · exact iff_of_false h fun ⟨hyes, _⟩ => hreports hyes

/-- **When an invocation succeeds**: the app answered, and well, or there is no app and the verb
asks whether there is one. -/
theorem run_ok_iff :
    (run toUppercase display home outcome presence i).2.code = 0 ↔
      ∃ dir req, home = .ok dir ∧ i.request display = .ok req ∧
        ((∃ response, outcome req = .ok response ∧ exitFor response = .ok) ∨
          ∃ e, outcome req = .error e ∧ i.verb.header.reportsSupervisor = true ∧
            e.noApp presence) := by
  rw [Exit.code_eq_zero]
  cases home with
  | error e =>
      refine iff_of_false (show exitForError .operationFailed ≠ .ok from exitForError_ne_ok _) ?_
      rintro ⟨dir, req, hdir, -⟩
      cases hdir
  | ok dir =>
      show exitFor ((exchangeOf display outcome presence i).under i.verb.header).response = .ok ↔ _
      unfold exchangeOf
      have hfailed : ∀ presence e, exitFor (Exchange.fromClientError presence e).response ≠ .ok := by
        intro presence e
        obtain ⟨code, message, herror⟩ := Exchange.fromClientError_error presence e
        rw [herror]
        exact exitForError_ne_ok code
      cases hreq : i.request display with
      | error e =>
          -- A malformed id is met before anything was asked.
          refine iff_of_false ?_ fun ⟨_, _, _, h, _⟩ => by cases h
          rw [exitFor_under (hfailed .absent e), supervisor_fromClientError]
          rintro ⟨-, hno⟩
          obtain ⟨detail, rfl⟩ := request_error hreq
          exact hno
      | ok req =>
          cases houtcome : outcome req with
          | error e =>
              simp only [houtcome]
              rw [exitFor_under (hfailed presence e), supervisor_fromClientError]
              constructor
              · exact fun ⟨hreports, hno⟩ => ⟨dir, req, rfl, rfl, .inr ⟨e, houtcome, hreports, hno⟩⟩
              · rintro ⟨_, _, -, hreq', h⟩
                cases hreq'
                rcases h with ⟨response, h, -⟩ | ⟨e', h, hreports, hno⟩
                · rw [houtcome] at h
                  cases h
                · rw [houtcome] at h
                  cases h
                  exact ⟨hreports, hno⟩
          | ok response =>
              simp only [houtcome]
              have hsame : ((Exchange.answered response).under i.verb.header).response = response := by
                unfold Exchange.under
                split_ifs <;> rfl
              rw [hsame]
              constructor
              · exact fun h => ⟨dir, req, rfl, rfl, .inl ⟨response, houtcome, h⟩⟩
              · rintro ⟨_, _, -, hreq', h⟩
                cases hreq'
                rcases h with ⟨response', h, hok⟩ | ⟨e', h, -⟩
                · rw [houtcome] at h
                  cases h
                  exact hok
                · rw [houtcome] at h
                  cases h

/-- An invocation is the emission of one exchange. -/
theorem run_eq_emit (toUppercase : Char → List Char) (display : InvalidServiceId → List Char)
    (home : Except (List Char) (List Char)) (outcome : Request → Except ControlError Response)
    (presence : SupervisorPresence) (i : Invocation) :
    ∃ header dir ex, run toUppercase display home outcome presence i =
      emit toUppercase i.json i.verb.commandName header dir ex := by
  cases home with
  | error e => exact ⟨_, _, _, rfl⟩
  | ok dir => exact ⟨_, _, _, rfl⟩

/-- **A script reads one line**, from which it can tell the exit status, and nothing on the error
stream. -/
theorem run_json (h : i.json = true) :
    (run toUppercase display home outcome presence i).1.err = [] ∧
      ∃ line response, (run toUppercase display home outcome presence i).1.out = line ++ ['\n'] ∧
        Printable line ∧ decodeResponse (utf8 line) = .ok response ∧
        (run toUppercase display home outcome presence i).2 = exitFor response := by
  obtain ⟨header, dir, ex, heq⟩ := run_eq_emit toUppercase display home outcome presence i
  rw [heq, emit, h]
  exact ⟨rfl, jsonLine i.verb.commandName header dir ex, ex.response, rfl,
    printable_print sound_answerJson 0, decodeResponse_jsonLine, rfl⟩

/-- An app that is not there, asked for its services. -/
theorem run_json_list :
    ∃ line response, (run List.singleton (fun _ => []) (.ok []) (fun _ => .error (.notRunning []))
        .absent ⟨true, false, .list⟩).1.out = line ++ ['\n'] ∧
      decodeResponse (utf8 line) = .ok response := by
  obtain ⟨-, line, response, hout, -, hresponse, -⟩ :=
    @run_json List.singleton (fun _ => []) (.ok []) (fun _ => .error (.notRunning [])) .absent
      ⟨true, false, .list⟩ rfl
  exact ⟨line, response, hout, hresponse⟩

/-- **A person reads something on the error stream exactly with a failure**, and something on the
output with a success. -/
theorem run_human (h : i.json = false) :
    ((run toUppercase display home outcome presence i).1.err ≠ [] ↔
        (run toUppercase display home outcome presence i).2.code ≠ 0) ∧
      ((run toUppercase display home outcome presence i).2.code = 0 →
        (run toUppercase display home outcome presence i).1.out ≠ []) := by
  obtain ⟨header, dir, ex, heq⟩ := run_eq_emit toUppercase display home outcome presence i
  rw [heq, emit, h]
  exact human_streams

theorem run_human_stopAll :
    (run List.singleton (fun _ => []) (.ok []) (fun _ => .error (.notRunning [])) .absent
      ⟨false, false, .stopAll⟩).1.err ≠ [] :=
  (@run_human List.singleton (fun _ => []) (.ok []) (fun _ => .error (.notRunning [])) .absent
    ⟨false, false, .stopAll⟩ rfl).1.mpr (by decide)

end Invocations

end OpenVHost.Cli
