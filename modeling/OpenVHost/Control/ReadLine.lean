/-
# The bounded line readers of the control channel

The server and the client each read one line from a socket, a buffer's worth at a time, and
refuse to keep more than `max` bytes of it. Each has its own copy of the loop.

* `readLine` — the loop, over the reads that the peer's bytes arrive in.
* `outcome` — what it comes to, from the bytes alone.
* `readLine_eq` — the loop computes it, wherever the reads are cut.
* `readLineCapped_bytes` — both copies, and what they hold in memory.
-/

import Mathlib.Data.List.TakeWhile

namespace OpenVHost.Control

def newline : UInt8 := 10

/-- The size of `chunk`. -/
def chunkSize : Nat := 4096

/-- What a read brings that is not the end. -/
structure Read where
  bytes : List UInt8
  nonempty : bytes ≠ []
  bounded : bytes.length ≤ chunkSize

/-- What comes after the reads. -/
inductive Ending (ε : Type) where
  | closed
  | failed (error : ε)
  /-- The peer sends nothing, and does not close. -/
  | silent
  deriving DecidableEq, Repr

/-- What a copy returns. -/
structure Returns (ε ρ : Type) where
  line : List UInt8 → ρ
  /-- More than so many bytes without a newline. -/
  tooLarge : Nat → ρ
  failed : ε → ρ

/-- What a read leaves: the buffer, and whether the loop goes on. -/
inductive Turn where
  | line (buffer : List UInt8)
  | tooLarge (buffer : List UInt8)
  | more (buffer : List UInt8)
  deriving DecidableEq, Repr

def Turn.buffer : Turn → List UInt8
  | line buffer | tooLarge buffer | more buffer => buffer

/-- The body of the loop. -/
def turn (max : Nat) (line read : List UInt8) : Turn :=
  match read.findIdx? (· == newline) with
  | some pos =>
      let line := line ++ read.take pos
      if max < line.length then .tooLarge line else .line line
  | none =>
      let line := line ++ read
      if max < line.length then .tooLarge line else .more line

section Loop

variable {ε ρ : Type} (r : Returns ε ρ) (max : Nat)

/-- The loop with `line` in its buffer; no outcome as long as the peer is silent. -/
def readLine (line : List UInt8) : List Read → Ending ε → Option ρ
  | [], .closed => some (r.line line)
  | [], .failed error => some (r.failed error)
  | [], .silent => none
  | read :: rest, ending =>
      match turn max line read.bytes with
      | .line line => some (r.line line)
      | .tooLarge _ => some (r.tooLarge max)
      | .more line => readLine line rest ending

/-- What the buffer holds after each read of the loop. -/
def buffers (line : List UInt8) : List Read → List (List UInt8)
  | [] => []
  | read :: rest =>
      (turn max line read.bytes).buffer ::
        match turn max line read.bytes with
        | .line _ | .tooLarge _ => []
        | .more line => buffers line rest

end Loop

/-- What the server's copy returns. -/
inductive ReadOutcome where
  | line (bytes : List UInt8)
  | tooLarge
  deriving DecidableEq, Repr

/-- Of the client's errors, those that the reader returns. -/
inductive ControlError (ε : Type) where
  | io (error : ε)
  | protocol (text : String)
  deriving DecidableEq, Repr

namespace Server

variable {ε : Type}

def returns : Returns ε (Except ε ReadOutcome) where
  line := fun line => .ok (.line line)
  tooLarge := fun _ => .ok .tooLarge
  failed := .error

/-- `read_line_capped` of the server. -/
def readLineCapped (max : Nat) (reads : List Read) (ending : Ending ε) :
    Option (Except ε ReadOutcome) :=
  readLine returns max [] reads ending

end Server

namespace Client

variable {ε : Type}

def returns : Returns ε (Except (ControlError ε) (List UInt8)) where
  line := .ok
  tooLarge := fun max => .error (.protocol s!"the response exceeded {max} bytes")
  failed := fun error => .error (.io error)

/-- `read_line_capped` of the client. -/
def readLineCapped (max : Nat) (reads : List Read) (ending : Ending ε) :
    Option (Except (ControlError ε) (List UInt8)) :=
  readLine returns max [] reads ending

end Client

/-! ### What the bytes come to -/

/-- The bytes before the first newline, all of them if there is none. -/
def beforeNewline (bytes : List UInt8) : List UInt8 := bytes.takeWhile (· != newline)

/-- The bytes of the reads. -/
def bytesOf (reads : List Read) : List UInt8 := reads.flatMap Read.bytes

/-- What the loop comes to, as the bytes decide it. -/
def outcome {ε ρ : Type} (r : Returns ε ρ) (max : Nat) (bytes : List UInt8) (ending : Ending ε) :
    Option ρ :=
  if max < (beforeNewline bytes).length then some (r.tooLarge max)
  else if newline ∈ bytes then some (r.line (beforeNewline bytes))
  else
    match ending with
    | .closed => some (r.line bytes)
    | .failed error => some (r.failed error)
    | .silent => none

section Cut

variable {line read bytes more : List UInt8} {max : Nat}

theorem beforeNewline_append (h : newline ∉ line) :
    beforeNewline (line ++ bytes) = line ++ beforeNewline bytes := by
  refine List.takeWhile_append_of_pos fun b hb => ?_
  rw [bne_iff_ne]
  rintro rfl
  exact h hb

theorem beforeNewline_eq_self (h : newline ∉ bytes) : beforeNewline bytes = bytes := by
  have happend : beforeNewline (bytes ++ []) = bytes ++ beforeNewline [] := beforeNewline_append h
  simpa [beforeNewline] using happend

theorem beforeNewline_cut (h : newline ∉ line) : beforeNewline (line ++ newline :: more) = line := by
  rw [beforeNewline_append h, beforeNewline, List.takeWhile_cons_of_neg (by simp), List.append_nil]

/-- What stands after a newline does not matter. -/
theorem beforeNewline_append_of_mem (h : newline ∈ read) :
    beforeNewline (read ++ more) = beforeNewline read := by
  obtain ⟨first, rest, rfl, hfirst⟩ := List.eq_append_cons_of_mem h
  rw [List.append_assoc, List.cons_append, beforeNewline_cut hfirst, beforeNewline_cut hfirst]

theorem take_position {pos : Nat} (h : read.findIdx? (· == newline) = some pos) :
    newline ∈ read ∧ read.take pos = beforeNewline read := by
  constructor
  · obtain ⟨hlt, hget, -⟩ := List.findIdx?_eq_some_iff_getElem.mp h
    rw [← eq_of_beq hget]
    exact List.getElem_mem hlt
  · have hnot : (fun b : UInt8 => !(b != newline)) = (· == newline) := by
      funext b
      simp [bne]
    obtain ⟨-, hidx⟩ := List.findIdx?_eq_some_iff_findIdx_eq.mp h
    rw [beforeNewline, List.takeWhile_eq_take_findIdx_not, hnot, hidx]

/-- A read that brings the newline ends the loop. -/
theorem turn_of_mem (h : newline ∈ read) :
    turn max line read =
      if max < (line ++ beforeNewline read).length then .tooLarge (line ++ beforeNewline read)
      else .line (line ++ beforeNewline read) := by
  unfold turn
  cases hpos : read.findIdx? (· == newline) with
  | none =>
      have hno := List.findIdx?_eq_none_iff.mp hpos newline h
      simp at hno
  | some pos => simp only [(take_position hpos).2]

theorem turn_of_notMem (h : newline ∉ read) :
    turn max line read =
      if max < (line ++ read).length then .tooLarge (line ++ read) else .more (line ++ read) := by
  unfold turn
  cases hpos : read.findIdx? (· == newline) with
  | none => rfl
  | some pos => exact absurd (take_position hpos).1 h

theorem length_turn : (turn max line read).buffer.length ≤ line.length + read.length := by
  by_cases hread : newline ∈ read
  · have hbefore : (line ++ beforeNewline read).length ≤ line.length + read.length := by
      rw [List.length_append]
      exact Nat.add_le_add_left (List.takeWhile_prefix _).length_le _
    rw [turn_of_mem hread]
    split_ifs <;> exact hbefore
  · have hall : (line ++ read).length ≤ line.length + read.length := List.length_append.le
    rw [turn_of_notMem hread]
    split_ifs <;> exact hall

/-- The loop goes on with a buffer within the bound. -/
theorem turn_more (h : turn max line read = .more more) : more.length ≤ max := by
  by_cases hread : newline ∈ read
  · rw [turn_of_mem hread] at h
    split_ifs at h
  · rw [turn_of_notMem hread] at h
    split_ifs at h with hlong
    cases h
    exact Nat.not_lt.mp hlong

end Cut

/-! ### The loop -/

section Loop

variable {ε ρ : Type} {r : Returns ε ρ} {max : Nat} {line bytes more : List UInt8}
  {ending ending' : Ending ε}

theorem outcome_tooLarge (h : newline ∉ line) (hlong : max < line.length) :
    outcome r max (line ++ more) ending = some (r.tooLarge max) := by
  refine if_pos ?_
  rw [beforeNewline_append h, List.length_append]
  omega

theorem outcome_of_mem (h : newline ∈ bytes) :
    outcome r max (bytes ++ more) ending =
      if max < (beforeNewline bytes).length then some (r.tooLarge max)
      else some (r.line (beforeNewline bytes)) := by
  unfold outcome
  rw [beforeNewline_append_of_mem h, if_pos (List.mem_append_left more h)]

/-- **Only the bytes matter**: the loop, with `line` in its buffer, comes to what these bytes
and those still to be read come to. -/
theorem readLine_eq (reads : List Read) (hline : newline ∉ line) (hle : line.length ≤ max) :
    readLine r max line reads ending = outcome r max (line ++ bytesOf reads) ending := by
  induction reads generalizing line with
  | nil =>
      have hall : beforeNewline (line ++ bytesOf []) = line := by
        rw [bytesOf, List.flatMap_nil, List.append_nil, beforeNewline_eq_self hline]
      unfold outcome
      rw [hall, if_neg (Nat.not_lt.mpr hle)]
      cases ending <;> simp [readLine, bytesOf, hline]
  | cons read rest ih =>
      have hbytes : line ++ bytesOf (read :: rest) = line ++ read.bytes ++ bytesOf rest := by
        simp [bytesOf]
      rw [hbytes, readLine]
      by_cases hread : newline ∈ read.bytes
      · have hmem : newline ∈ line ++ read.bytes := List.mem_append_right line hread
        rw [turn_of_mem hread, outcome_of_mem hmem, beforeNewline_append hline]
        split_ifs <;> rfl
      · have hno : newline ∉ line ++ read.bytes := by simp [hline, hread]
        rw [turn_of_notMem hread]
        by_cases hlong : max < (line ++ read.bytes).length
        · rw [if_pos hlong, outcome_tooLarge hno hlong]
        · rw [if_neg hlong]
          exact ih hno (Nat.not_lt.mp hlong)

/-- **The buffer stays within a read of the bound.** -/
theorem length_buffers (reads : List Read) (hle : line.length ≤ max) :
    ∀ buffer ∈ buffers max line reads, buffer.length ≤ max + chunkSize := by
  induction reads generalizing line with
  | nil => exact fun buffer h => absurd h List.not_mem_nil
  | cons read rest ih =>
      have hread : read.bytes.length ≤ chunkSize := read.bounded
      have hturn : (turn max line read.bytes).buffer.length ≤ max + chunkSize :=
        length_turn.trans (Nat.add_le_add hle hread)
      intro buffer hmem
      rcases List.mem_cons.mp hmem with rfl | hrest
      · exact hturn
      · cases hnext : turn max line read.bytes with
        | line done => simp [hnext] at hrest
        | tooLarge done => simp [hnext] at hrest
        | more next =>
            rw [hnext] at hrest
            exact ih (turn_more hnext) buffer hrest

/-- What the first bytes decide, no others change. -/
theorem outcome_append {res : ρ} (h : outcome r max bytes (.silent : Ending ε) = some res) :
    outcome r max (bytes ++ more) ending = some res := by
  rw [← List.append_nil bytes] at h
  by_cases hmem : newline ∈ bytes
  · rw [outcome_of_mem hmem] at h ⊢
    exact h
  · by_cases hlong : max < bytes.length
    · rw [outcome_tooLarge hmem hlong] at h ⊢
      exact h
    · unfold outcome at h
      rw [List.append_nil, beforeNewline_eq_self hmem, if_neg hlong, if_neg hmem] at h
      cases h

/-- More than `max` bytes decide. -/
theorem outcome_of_long (h : max < bytes.length) :
    ∃ res, outcome r max bytes (.silent : Ending ε) = some res := by
  by_cases hmem : newline ∈ bytes
  · rw [← List.append_nil bytes, outcome_of_mem hmem]
    split_ifs <;> exact ⟨_, rfl⟩
  · rw [← List.append_nil bytes, outcome_tooLarge hmem h]
    exact ⟨_, rfl⟩

theorem bytesOf_append (reads rest : List Read) :
    bytesOf (reads ++ rest) = bytesOf reads ++ bytesOf rest :=
  List.flatMap_append ..

/-- **A peer that does not stop sending** is answered: after more than `max` bytes there is an
outcome, and nothing that follows changes it. -/
theorem readLine_decided (reads : List Read) (hlong : max < (bytesOf reads).length) :
    ∃ res, ∀ rest ending, readLine r max [] (reads ++ rest) ending = some res := by
  obtain ⟨res, hres⟩ := outcome_of_long (r := r) hlong
  refine ⟨res, fun rest ending => ?_⟩
  rw [readLine_eq _ List.not_mem_nil (Nat.zero_le max), List.nil_append, bytesOf_append]
  exact outcome_append hres

end Loop

/-! ### Both copies -/

section Copies

variable {ε : Type}

/-- What the client makes of what the server's reader returns. -/
def clientOutcome (max : Nat) : Except ε ReadOutcome → Except (ControlError ε) (List UInt8)
  | .ok (.line line) => .ok line
  | .ok .tooLarge => .error (.protocol s!"the response exceeded {max} bytes")
  | .error error => .error (.io error)

theorem outcome_client (max : Nat) (bytes : List UInt8) (ending : Ending ε) :
    outcome Client.returns max bytes ending =
      (outcome Server.returns max bytes ending).map (clientOutcome max) := by
  unfold outcome
  split_ifs
  · rfl
  · rfl
  · cases ending <;> rfl

/-- **The bounded readers depend only on the bytes**, and on how the stream ends, wherever the
reads are cut: a line of at most `max` bytes, too large if more come before the newline, and all
the bytes as a line if the stream is closed before. The client's copy does the same with its
bound. Neither has more than a read above `max` in its buffer. -/
theorem readLineCapped_bytes (max : Nat) (reads : List Read) (ending : Ending ε) :
    Server.readLineCapped max reads ending = outcome Server.returns max (bytesOf reads) ending ∧
    Client.readLineCapped max reads ending =
      (outcome Server.returns max (bytesOf reads) ending).map (clientOutcome max) ∧
    (max < (bytesOf reads).length →
      ∃ res : Except ε ReadOutcome, ∀ rest ending,
        Server.readLineCapped max (reads ++ rest) ending = some res ∧
        Client.readLineCapped max (reads ++ rest) ending = some (clientOutcome max res)) ∧
    ∀ buffer ∈ buffers max [] reads, buffer.length ≤ max + chunkSize := by
  have hserver : ∀ reads (ending : Ending ε),
      Server.readLineCapped max reads ending = outcome Server.returns max (bytesOf reads) ending :=
    fun reads ending => readLine_eq reads List.not_mem_nil (Nat.zero_le max)
  have hclient : ∀ reads (ending : Ending ε),
      Client.readLineCapped max reads ending =
        (outcome Server.returns max (bytesOf reads) ending).map (clientOutcome max) := by
    intro reads ending
    rw [← outcome_client]
    exact readLine_eq reads List.not_mem_nil (Nat.zero_le max)
  refine ⟨hserver reads ending, hclient reads ending, fun hlong => ?_, ?_⟩
  · obtain ⟨res, hres⟩ := readLine_decided (r := Server.returns) reads hlong
    refine ⟨res, fun rest ending => ⟨hres rest ending, ?_⟩⟩
    rw [hclient, ← hserver, Server.readLineCapped, hres rest ending]
    rfl
  · exact length_buffers reads (Nat.zero_le max)

/-- A peer that dies in the middle of its line is taken to have finished it. -/
theorem truncated_line_accepted :
    Server.readLineCapped 8 [⟨[120, 121], by decide, by decide⟩] (.closed : Ending Unit) =
        some (.ok (.line [120, 121])) ∧
      Server.readLineCapped 8 [⟨[120, 121, newline], by decide, by decide⟩] (.closed : Ending Unit) =
        some (.ok (.line [120, 121])) := by
  decide

end Copies

end OpenVHost.Control
