/-
# Round trips of the control protocol

What one side writes as a line, the other reads back from it, wherever the reads are cut. A
request is always short enough for the server. A response is as long as its rows make it, and
the client reads it only up to its bound.

* `decodeRequest_encodeRequest`, `decodeResponse_envelopeLine` — the texts.
* `round_trip_iff` — the lines, through the bounded readers.
-/

import OpenVHost.Control.Protocol

namespace OpenVHost.Control

open Json Text

/-! ### Lines through the readers -/

section Lines

variable {ε ρ : Type} {max : Nat} {s : List Char} {reads : List Read} {ending : Ending ε}

theorem newline_notMem (h : Printable s) : newline ∉ utf8 s := by
  intro hmem
  obtain ⟨c, hc, hnewline⟩ := exists_of_mem_utf8 hmem (by decide)
  have hprintable := h c hc
  rw [hnewline] at hprintable
  exact absurd hprintable (by decide)

/-- **A line is read whole or refused**, wherever the reads are cut. -/
theorem readLine_line (r : Returns ε ρ) (h : Printable s)
    (hreads : bytesOf reads = utf8 s ++ [newline]) :
    readLine r max [] reads ending =
      some (if max < utf8Len s then r.tooLarge max else r.line (utf8 s)) := by
  have hbefore : beforeNewline (utf8 s ++ [newline]) = utf8 s := beforeNewline_cut (newline_notMem h)
  have hmem : newline ∈ utf8 s ++ [newline] := List.mem_append_right _ List.mem_cons_self
  rw [readLine_eq reads List.not_mem_nil (Nat.zero_le max), List.nil_append, hreads]
  unfold outcome
  rw [hbefore, if_pos hmem]
  show (if max < utf8Len s then _ else _) = _
  split_ifs <;> rfl

end Lines

theorem toUInt64_schemaVersion :
    (Value.ofUInt32 schemaVersion).toUInt64 = some schemaVersion.toUInt64 := by decide

/-! ### Requests -/

@[simp] theorem readServiceId_asStr (id : ServiceId) : readServiceId (.str id.asStr) = some id := by
  have hlong : ¬ maxServiceIdBytes < utf8Len id.asStr := Nat.not_lt.mpr id.short
  have hcomponent : ¬ (id.asStr = ".".toList ∨ id.asStr = "..".toList) :=
    not_or.mpr id.noComponent
  have hparse : ServiceId.parse id.asStr = .ok id := by
    rw [ServiceId.parse, dif_neg id.nonempty, dif_neg hlong, dif_neg hcomponent, dif_pos id.charset]
  show (ServiceId.parse id.asStr).toOption = some id
  rw [hparse]
  rfl

theorem readVerb_fields (make : ServiceId → Bool → Request) (command : List Char) (id : ServiceId)
    (wait : Bool) :
    readVerb make [("command".toList, .str command), ("id".toList, .str id.asStr),
      ("wait".toList, .bool wait)] = some (make id wait) := by
  have hid : lookup "id".toList [("command".toList, .str command), ("id".toList, .str id.asStr),
      ("wait".toList, .bool wait)] = some (.str id.asStr) := rfl
  have hwait : lookup "wait".toList [("command".toList, .str command),
      ("id".toList, .str id.asStr), ("wait".toList, .bool wait)] = some (.bool wait) := rfl
  rw [readVerb, hid, hwait, Option.bind_some, readServiceId_asStr]
  rfl

theorem ofFields_fields (req : Request) :
    Request.ofFields (("command".toList, .str req.commandName) :: req.fields) = some req := by
  cases req with
  | status id =>
      show (Value.optional readServiceId (some (.ofOption _ id))).map Request.status = _
      rw [Value.optional_ofOption readServiceId_asStr fun _ h => by cases h]
      rfl
  | list => rfl
  | start id wait => exact readVerb_fields .start _ id wait
  | stop id wait => exact readVerb_fields .stop _ id wait
  | restart id wait => exact readVerb_fields .restart _ id wait
  | stopAll => rfl

theorem sound_envelope (req : Request) : Sound maxDepth req.envelope := by
  refine .obj fun f hf => ?_
  have hfields : ∀ f ∈ req.fields, Sound 126 f.2 := by
    cases req with
    | status id =>
        intro f hf
        rw [List.mem_singleton.mp hf]
        exact .ofOption (fun _ => .str) id
    | list | stopAll => exact fun f hf => absurd hf List.not_mem_nil
    | start id wait | stop id wait | restart id wait =>
        intro f hf
        rcases List.mem_pair.mp hf with rfl | rfl
        · exact .str
        · exact .bool
  rcases List.mem_cons.mp hf with rfl | hf
  · exact .ofUInt32 schemaVersion
  · rcases List.mem_cons.mp hf with rfl | hf
    · exact .str
    · exact hfields f hf

/-- **A request is read back from its text.** -/
theorem decodeRequest_encodeRequest (req : Request) :
    decodeRequest (utf8 (encodeRequest req)) = .ok req := by
  have hparse : parse (encodeRequest req) = some req.envelope :=
    parse_print compact_blank (sound_envelope req) 0
  have hne : utf8 (encodeRequest req) ≠ [] := by
    intro h
    have hnil : encodeRequest req = [] := utf8_injective h
    rw [hnil] at hparse
    cases hparse
  have hversion : lookup "schemaVersion".toList (("schemaVersion".toList, .ofUInt32 schemaVersion) ::
      ("command".toList, .str req.commandName) :: req.fields) = some (.ofUInt32 schemaVersion) := by
    cases req <;> rfl
  have hwithout : without "schemaVersion".toList (("schemaVersion".toList, .ofUInt32 schemaVersion) ::
      ("command".toList, .str req.commandName) :: req.fields) =
        ("command".toList, .str req.commandName) :: req.fields := by
    cases req <;> rfl
  rw [decodeRequest, if_neg hne, decodeUtf8_utf8, Option.bind_some, hparse]
  simp only [Request.envelope, hversion, Option.bind_some, toUInt64_schemaVersion, if_true, hwithout,
    ofFields_fields]

theorem printable_encodeRequest (req : Request) : Printable (encodeRequest req) :=
  printable_print (sound_envelope req) 0

theorem escape_of_isIdChar {c : Char} (h : isIdChar c = true) : escape c = [c] := by
  have hrange : ∀ n < 128, isIdChar (Char.ofNat n) = true → escape (Char.ofNat n) = [Char.ofNat n] := by
    decide
  have hascii : c.toNat < 128 := by
    unfold isIdChar Char.isAlphanum Char.isAlpha Char.isUpper Char.isLower Char.isDigit at h
    simp only [Bool.or_eq_true, Bool.and_eq_true, decide_eq_true_eq, beq_iff_eq] at h
    rcases h with ((((⟨_, h⟩ | ⟨_, h⟩) | ⟨_, h⟩) | rfl) | rfl) | rfl
    · exact Nat.lt_of_le_of_lt h (by decide)
    · exact Nat.lt_of_le_of_lt h (by decide)
    · exact Nat.lt_of_le_of_lt h (by decide)
    all_goals decide
  have hc := hrange c.toNat hascii
  rw [Char.ofNat_toNat] at hc
  exact hc h

/-- An id stands in a text as it is. -/
theorem utf8Len_printStr_asStr (id : ServiceId) : utf8Len (printStr id.asStr) ≤ 66 := by
  have hsame : ∀ {s : List Char}, s.all isIdChar = true → s.flatMap escape = s := by
    intro s
    induction s with
    | nil => exact fun _ => rfl
    | cons c s ih =>
        intro h
        rw [List.all_cons, Bool.and_eq_true] at h
        rw [List.flatMap_cons, escape_of_isIdChar h.1, ih h.2, List.singleton_append]
  have hquote : '"'.utf8Size = 1 := rfl
  have hshort : utf8Len id.asStr ≤ 64 := id.short
  rw [printStr, hsame id.charset, utf8Len_cons, utf8Len_append, utf8Len_cons, utf8Len_nil, hquote]
  omega

/-- **A request is short.** -/
theorem utf8Len_encodeRequest (req : Request) : utf8Len (encodeRequest req) ≤ maxRequestBytes := by
  have hone : ∀ c ∈ ['\x7b', '\x7d', ':', ','], c.utf8Size = 1 := utf8Size_of_all (by decide)
  have hopen := hone '\x7b' (by decide)
  have hclose := hone '\x7d' (by decide)
  have hcolon := hone ':' (by decide)
  have hcomma := hone ',' (by decide)
  have hgap : ∀ k, compact.gap k = [] := fun _ => rfl
  have hspace : compact.colon = [] := rfl
  have hname : ∀ s ∈ ["schemaVersion".toList, "command".toList, "id".toList, "wait".toList],
      utf8Len (printStr s) ≤ 15 := by decide
  have hversion : utf8Len (print compact 1 (.ofUInt32 schemaVersion)) ≤ 15 := by decide
  have hbool : ∀ b, utf8Len (print compact 1 (.bool b)) ≤ 15 := by decide
  have hnull : utf8Len (print compact 1 .null) ≤ 15 := by decide
  have hcommands : ∀ s ∈ ["status".toList, "list".toList, "start".toList, "stop".toList,
      "restart".toList, "stopAll".toList], utf8Len (printStr s) ≤ 15 := by decide
  have hcommand : utf8Len (printStr req.commandName) ≤ 15 := by
    cases req with
    | status id => exact hcommands _ (.head _)
    | list => exact hcommands _ (.tail _ (.head _))
    | start id wait => exact hcommands _ (.tail _ (.tail _ (.head _)))
    | stop id wait => exact hcommands _ (.tail _ (.tail _ (.tail _ (.head _))))
    | restart id wait => exact hcommands _ (.tail _ (.tail _ (.tail _ (.tail _ (.head _)))))
    | stopAll => exact hcommands _ (.tail _ (.tail _ (.tail _ (.tail _ (.tail _ (.head _))))))
  have hfields : utf8Len (printFields compact 1 req.fields) ≤ 200 := by
    have h1 := hname "id".toList (by decide)
    have h2 := hname "wait".toList (by decide)
    cases req with
    | list | stopAll => exact Nat.zero_le _
    | status id =>
        have hid : utf8Len (print compact 1
            (.ofOption (fun id : ServiceId => .str id.asStr) id)) ≤ 66 := by
          cases id with
          | none => exact Nat.le_trans hnull (by decide)
          | some id => exact utf8Len_printStr_asStr id
        simp only [Request.fields, printFields, hgap, hspace, List.nil_append, utf8Len_append,
          utf8Len_cons, utf8Len_nil, hcomma, hcolon]
        omega
    | start id wait | stop id wait | restart id wait =>
        have hid : utf8Len (print compact 1 (.str id.asStr)) ≤ 66 := utf8Len_printStr_asStr id
        have hwait := hbool wait
        simp only [Request.fields, printFields, hgap, hspace, List.nil_append, utf8Len_append,
          utf8Len_cons, utf8Len_nil, hcomma, hcolon]
        omega
  have h1 := hname "schemaVersion".toList (by decide)
  have h2 := hname "command".toList (by decide)
  have hmax : maxRequestBytes = 65536 := rfl
  have htext : utf8Len (print compact 1 (.str req.commandName)) ≤ 15 := hcommand
  have hobj : ∀ v w fs, utf8Len (print compact 0 (.obj (("schemaVersion".toList, v) ::
      ("command".toList, w) :: fs))) =
        utf8Len (printStr "schemaVersion".toList) + utf8Len (print compact 1 v) +
          utf8Len (printStr "command".toList) + utf8Len (print compact 1 w) +
          utf8Len (printFields compact 1 fs) + 5 := by
    intro v w fs
    simp only [print, printFields, hgap, hspace, List.nil_append, utf8Len_append, utf8Len_cons,
      utf8Len_nil, hopen, hclose, hcomma, hcolon, Nat.zero_add]
    omega
  rw [encodeRequest, Request.envelope, hobj]
  omega

/-! ### Responses -/

@[simp] theorem text_str (s : List Char) : Value.text (.str s) = some s := rfl

theorem array_str (xs : List (List Char)) : Value.array Value.text (.arr (xs.map .str)) = some xs :=
  Value.array_map text_str xs

@[simp] theorem readDisposition_asStr (d : Disposition) : readDisposition (.str d.asStr) = some d := by
  cases d <;> decide

@[simp] theorem readErrorCode_asStr (code : ErrorCode) :
    readErrorCode (.str code.asStr) = some code := by
  cases code <;> decide

theorem ServiceState.ofJson_toJson (state : ServiceState) :
    ServiceState.ofJson state.toJson = some state := by
  cases state with
  | stopped | starting | running => rfl
  | failed exit stderrTail =>
      have hexit : Value.optional Value.toInt32 (some (.ofOption .ofInt32 exit)) = some exit :=
        Value.optional_ofOption Value.toInt32_ofInt32 (fun _ h => by cases h) exit
      have htail := array_str stderrTail
      show (Value.optional Value.toInt32 (some (.ofOption .ofInt32 exit))).bind (fun exit =>
        (Value.array Value.text (.arr (stderrTail.map .str))).bind fun stderrTail =>
          some (ServiceState.failed exit stderrTail)) = _
      rw [hexit, htail]
      rfl

theorem ServiceStatus.ofJson_toJson (s : ServiceStatus) : ServiceStatus.ofJson s.toJson = some s := by
  have hendpoint : Value.optional Value.text (some (.ofOption .str s.endpoint)) = some s.endpoint :=
    Value.optional_ofOption text_str (fun _ h => by cases h) _
  have hpid : Value.optional Value.toUInt32 (some (.ofOption .ofUInt32 s.pid)) = some s.pid :=
    Value.optional_ofOption Value.toUInt32_ofUInt32 (fun _ h => by cases h) _
  show (Value.optional Value.text (some (.ofOption .str s.endpoint))).bind (fun endpoint =>
    (Value.optional Value.toUInt32 (some (.ofOption .ofUInt32 s.pid))).bind fun pid =>
      (ServiceState.ofJson s.state.toJson).bind fun state =>
        some (ServiceStatus.mk s.id s.displayName endpoint pid state)) = _
  rw [hendpoint, hpid, ServiceState.ofJson_toJson]
  rfl

theorem Response.ofJson_toJson (response : Response) :
    Response.ofJson response.toJson = some response := by
  cases response with
  | services rows =>
      show (Value.array ServiceStatus.ofJson (.arr (rows.map ServiceStatus.toJson))).map
        Response.services = _
      rw [Value.array_map ServiceStatus.ofJson_toJson]
      rfl
  | transition service disposition =>
      show (ServiceStatus.ofJson service.toJson).bind (fun service =>
        (readDisposition (.str disposition.asStr)).bind fun disposition =>
          some (Response.transition service disposition)) = _
      rw [ServiceStatus.ofJson_toJson, readDisposition_asStr]
      rfl
  | stopAll stragglers =>
      show (Value.array Value.text (.arr (stragglers.map .str))).map Response.stopAll = _
      rw [array_str]
      rfl
  | error code message =>
      show (readErrorCode (.str code.asStr)).bind (fun code =>
        some (Response.error code message)) = _
      rw [readErrorCode_asStr]
      rfl

theorem ServiceState.sound (state : ServiceState) : Sound 2 state.toJson := by
  cases state with
  | stopped | starting | running =>
      refine .object fun f hf => ?_
      rw [List.mem_singleton.mp hf]
      exact .str
  | failed exit stderrTail =>
      refine .object ?_
      simp only [List.forall_mem_cons]
      exact ⟨.str, .ofOption .ofInt32 exit, .map (fun _ => .str) stderrTail,
        fun _ h => absurd h List.not_mem_nil⟩

theorem ServiceStatus.sound (s : ServiceStatus) : Sound 3 s.toJson := by
  refine .object ?_
  simp only [List.forall_mem_cons]
  exact ⟨.str, .str, .ofOption (fun _ => .str) s.endpoint, .ofOption .ofUInt32 s.pid, s.state.sound,
    fun _ h => absurd h List.not_mem_nil⟩

theorem Response.sound (response : Response) : Sound 5 response.toJson := by
  have hnil : ∀ f ∈ ([] : List (List Char × Value)), Sound 4 f.2 :=
    fun _ h => absurd h List.not_mem_nil
  cases response with
  | services rows =>
      refine .object ?_
      simp only [List.forall_mem_cons]
      exact ⟨.str, .map ServiceStatus.sound rows, hnil⟩
  | transition service disposition =>
      refine .object ?_
      simp only [List.forall_mem_cons]
      exact ⟨.str, service.sound.mono (by decide), .str, hnil⟩
  | stopAll stragglers =>
      refine .object ?_
      simp only [List.forall_mem_cons]
      exact ⟨.str, .map (fun _ => .str) stragglers, hnil⟩
  | error code message =>
      refine .object ?_
      simp only [List.forall_mem_cons]
      exact ⟨.str, .str, .str, hnil⟩

theorem sound_envelopeJson (command : List Char) (response : Response) :
    Sound 6 (envelopeJson command response) := by
  have hnil : ∀ {d : Nat}, ∀ f ∈ ([] : List (List Char × Value)), Sound d f.2 :=
    fun _ h => absurd h List.not_mem_nil
  have hresult : ∀ result, Sound 5 result → Sound 6 (object
      [("schemaVersion".toList, .ofUInt32 schemaVersion), ("ok".toList, .bool true),
        ("command".toList, .str command), ("result".toList, result)]) := by
    intro result h
    refine .object ?_
    simp only [List.forall_mem_cons]
    exact ⟨.ofUInt32 schemaVersion, .bool, .str, h, hnil⟩
  cases response with
  | services rows => exact hresult _ (Response.sound (.services rows))
  | transition service disposition =>
      exact hresult _ (Response.sound (.transition service disposition))
  | stopAll stragglers => exact hresult _ (Response.sound (.stopAll stragglers))
  | error code message =>
      refine .object ?_
      simp only [List.forall_mem_cons]
      refine ⟨.ofUInt32 schemaVersion, .bool, .str, .object ?_, hnil⟩
      simp only [List.forall_mem_cons]
      exact ⟨.str, .str, hnil⟩

theorem printable_envelopeLine (command : List Char) (response : Response) :
    Printable (envelopeLine command response) :=
  printable_print (sound_envelopeJson command response) 0

/-- **A response is read back from its text.** -/
theorem decodeResponse_envelopeLine (command : List Char) (response : Response) :
    decodeResponse (utf8 (envelopeLine command response)) = .ok response := by
  have hparse : parse (envelopeLine command response) = some (envelopeJson command response) :=
    parse_print compact_blank ((sound_envelopeJson command response).mono (by decide)) 0
  have hne : utf8 (envelopeLine command response) ≠ [] := by
    intro h
    have hnil : envelopeLine command response = [] := utf8_injective h
    rw [hnil] at hparse
    cases hparse
  have hversion : (envelopeJson command response).item "schemaVersion".toList =
      some (.ofUInt32 schemaVersion) := by
    cases response <;> rfl
  have hresult : ∀ r, envelopeJson command response = object
      [("schemaVersion".toList, .ofUInt32 schemaVersion), ("ok".toList, .bool true),
        ("command".toList, .str command), ("result".toList, Response.toJson r)] →
      decodeResponse (utf8 (envelopeLine command response)) = .ok r := by
    intro r heq
    have hok : (envelopeJson command response).item "ok".toList = some (.bool true) := by
      rw [heq]
      rfl
    have hitem : (envelopeJson command response).item "result".toList = some r.toJson := by
      rw [heq]
      rfl
    simp only [decodeResponse, if_neg hne, decodeUtf8_utf8, Option.bind_some, hparse, hversion,
      toUInt64_schemaVersion, ne_eq, not_true_eq_false, if_false, hok, Value.toBool, hitem,
      Response.ofJson_toJson]
  cases response with
  | services rows => exact hresult _ rfl
  | transition service disposition => exact hresult _ rfl
  | stopAll stragglers => exact hresult _ rfl
  | error code message =>
      have hok : (envelopeJson command (.error code message)).item "ok".toList =
          some (.bool false) := rfl
      have hitem : (envelopeJson command (.error code message)).item "error".toList =
          some (object [("code".toList, .str code.asStr), ("message".toList, .str message)]) := rfl
      have hread : readError (object [("code".toList, .str code.asStr),
          ("message".toList, .str message)]) = .error code message := by
        show Response.error ((readErrorCode (.str code.asStr)).getD _) _ = _
        rw [readErrorCode_asStr]
        rfl
      simp only [decodeResponse, if_neg hne, decodeUtf8_utf8, Option.bind_some, hparse, hversion,
        toUInt64_schemaVersion, ne_eq, not_true_eq_false, if_false, hok, Value.toBool, hitem, hread]

/-! ### Both ways -/

section Both

variable {ε : Type}

/-- A request written by the client is what the server reads. -/
def RequestArrives (req : Request) (reads : List Read) (ending : Ending ε) : Prop :=
  ∃ line, Server.readLineCapped maxRequestBytes reads ending = some (.ok (.line line)) ∧
    decodeRequest line = .ok req

/-- A response written by the server is what the client reads. -/
def ResponseArrives (response : Response) (reads : List Read) (ending : Ending ε) : Prop :=
  ∃ line, Client.readLineCapped maxResponseBytes reads ending = some (.ok line) ∧
    decodeResponse line = .ok response

/-- **Every request arrives; a response arrives if and only if its line is within the client's
bound**, in whatever reads the line comes. -/
theorem round_trip_iff :
    (∀ (req : Request) (reads : List Read) (ending : Ending ε),
      bytesOf reads = utf8 (encodeRequest req) ++ [newline] → RequestArrives req reads ending) ∧
    ∀ (command : List Char) (response : Response) (reads : List Read) (ending : Ending ε),
      bytesOf reads = utf8 (envelopeLine command response) ++ [newline] →
      (ResponseArrives response reads ending ↔
        utf8Len (envelopeLine command response) ≤ maxResponseBytes) := by
  constructor
  · intro req reads ending hreads
    refine ⟨utf8 (encodeRequest req), ?_, decodeRequest_encodeRequest req⟩
    rw [Server.readLineCapped, readLine_line _ (printable_encodeRequest req) hreads,
      if_neg (Nat.not_lt.mpr (utf8Len_encodeRequest req))]
    rfl
  · intro command response reads ending hreads
    have hread : Client.readLineCapped maxResponseBytes reads ending = some _ :=
      readLine_line _ (printable_envelopeLine command response) hreads
    constructor
    · rintro ⟨line, hline, -⟩
      by_contra hlong
      rw [hread, if_pos (Nat.not_le.mp hlong)] at hline
      cases hline
    · intro hshort
      refine ⟨utf8 (envelopeLine command response), ?_, decodeResponse_envelopeLine command response⟩
      rw [hread, if_neg (Nat.not_lt.mpr hshort)]
      rfl

/-- Bytes may come one by one. -/
theorem exists_reads (bytes : List UInt8) : ∃ reads : List Read, bytesOf reads = bytes := by
  refine ⟨bytes.map fun b => ⟨[b], List.cons_ne_nil b [], (by decide : 1 ≤ chunkSize)⟩, ?_⟩
  induction bytes with
  | nil => rfl
  | cons b bytes ih => exact congrArg (b :: ·) ih

/-- A service that runs and one that failed, its errors with quotes and a line feed. -/
def sampleRows : List ServiceStatus :=
  [⟨"nginx".toList, "Nginx".toList, some "127.0.0.1:8080".toList, some 4711, .running⟩,
    ⟨"php-fpm-8.4".toList, "PHP-FPM 8.4".toList, none, none,
      .failed (some 78) ["unable to bind \"run/php-fpm-8.4.sock\"\n".toList, "exit: ü".toList]⟩]

theorem round_trip_list :
    (∃ reads, RequestArrives .list reads (.closed : Ending Unit)) ∧
      ∃ reads, ResponseArrives (.services sampleRows) reads (.closed : Ending Unit) := by
  constructor
  · obtain ⟨reads, hreads⟩ := exists_reads (utf8 (encodeRequest .list) ++ [newline])
    exact ⟨reads, round_trip_iff.1 .list reads .closed hreads⟩
  · obtain ⟨reads, hreads⟩ :=
      exists_reads (utf8 (envelopeLine "list".toList (.services sampleRows)) ++ [newline])
    exact ⟨reads, (round_trip_iff.2 _ _ reads .closed hreads).mpr (by decide +kernel)⟩

/-- A service that failed, with one line of stderr. -/
def failedWith (line : List Char) : Response :=
  .services [⟨"nginx".toList, "Nginx".toList, none, none, .failed (some 1) [line]⟩]

theorem length_le_envelopeLine (command line : List Char) :
    line.length ≤ utf8Len (envelopeLine command (failedWith line)) := by
  have hjson : envelopeJson command (failedWith line) =
      .obj [("command".toList, .str command), ("ok".toList, .bool true),
        ("result".toList, .obj [("kind".toList, .str "services".toList),
          ("services".toList, .arr [.obj [("displayName".toList, .str "Nginx".toList),
            ("endpoint".toList, .null), ("id".toList, .str "nginx".toList), ("pid".toList, .null),
            ("state".toList, .obj [("exit".toList, .ofInt32 1), ("kind".toList, .str "failed".toList),
              ("stderrTail".toList, .arr [.str line])])]])]),
        ("schemaVersion".toList, .ofUInt32 schemaVersion)] := rfl
  have hline := length_le_utf8Len_printStr line
  rw [envelopeLine, hjson]
  simp only [print, printFields, printElems, utf8Len_append, utf8Len_cons]
  omega

/-- A service that failed with a line of stderr beyond the client's bound keeps the client from
its answer. -/
theorem long_line_refused :
    let response := failedWith (List.replicate (maxResponseBytes + 1) 'x')
    ∃ reads, bytesOf reads = utf8 (envelopeLine "list".toList response) ++ [newline] ∧
      ¬ ResponseArrives response reads (.closed : Ending Unit) := by
  intro response
  obtain ⟨reads, hreads⟩ := exists_reads (utf8 (envelopeLine "list".toList response) ++ [newline])
  have hlong : maxResponseBytes < utf8Len (envelopeLine "list".toList response) := by
    refine Nat.lt_of_lt_of_le ?_ (length_le_envelopeLine _ _)
    rw [List.length_replicate]
    exact Nat.lt_succ_self _
  refine ⟨reads, hreads, ?_⟩
  rintro ⟨line, hline, -⟩
  rw [Client.readLineCapped, readLine_line _ (printable_envelopeLine _ response) hreads,
    if_pos hlong] at hline
  cases hline

end Both

end OpenVHost.Control
