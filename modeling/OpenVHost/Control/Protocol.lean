/-
# The control protocol

The wire types of the control channel, how a request and a response become a line, and how a
line is read. The text of a request stands in the order of its fields; that of a response
passes through `serde_json::Value`, whose maps are sorted.

What `serde` says of a value that it cannot read is a parameter of the texts. It would also
read a struct from an array of its fields, which nobody writes and which is left out.
-/

import Mathlib.Data.Nat.Notation
import OpenVHost.Control.ReadLine
import OpenVHost.Json.Object

namespace OpenVHost.Control

open Json Text

def schemaVersion : UInt32 := 1
def maxServiceIdBytes : Nat := 64
def maxRequestBytes : Nat := 64 * 1024
def maxResponseBytes : Nat := 1024 * 1024

/-! ### Service ids -/

def isIdChar (c : Char) : Bool := c.isAlphanum || c == '.' || c == '-' || c == '_'

structure ServiceId where
  asStr : List Char
  nonempty : asStr ≠ []
  short : utf8Len asStr ≤ maxServiceIdBytes
  noComponent : asStr ≠ ".".toList ∧ asStr ≠ "..".toList
  charset : asStr.all isIdChar = true
  deriving DecidableEq

inductive InvalidServiceId where
  /-- "a service id must not be empty" -/
  | empty
  /-- "a service id must be at most 64 bytes, got …" -/
  | tooLong (len : Nat)
  /-- "'…' is a path component, not a service id" -/
  | component (raw : List Char)
  /-- "a service id may only contain [A-Za-z0-9._-]; found …" -/
  | charset (bad : Option Char)
  deriving DecidableEq, Repr

def ServiceId.parse (raw : List Char) : Except InvalidServiceId ServiceId :=
  if hempty : raw = [] then .error .empty
  else if hlong : maxServiceIdBytes < utf8Len raw then .error (.tooLong (utf8Len raw))
  else if hcomponent : raw = ".".toList ∨ raw = "..".toList then .error (.component raw)
  else if hcharset : raw.all isIdChar = true then
    .ok ⟨raw, hempty, Nat.le_of_not_lt hlong, not_or.mp hcomponent, hcharset⟩
  else .error (.charset (raw.find? fun c => !isIdChar c))

/-! ### Wire types -/

inductive Request where
  | status (id : Option ServiceId)
  | list
  | start (id : ServiceId) (wait : Bool)
  | stop (id : ServiceId) (wait : Bool)
  | restart (id : ServiceId) (wait : Bool)
  | stopAll
  deriving DecidableEq

def Request.commandName : Request → List Char
  | status _ => "status".toList
  | list => "list".toList
  | start _ _ => "start".toList
  | stop _ _ => "stop".toList
  | restart _ _ => "restart".toList
  | stopAll => "stopAll".toList

inductive Disposition where
  | changed
  | unchanged
  deriving DecidableEq, Repr

inductive ErrorCode where
  | unknownService
  | supervisorUnavailable
  | controlChannelUnavailable
  | operationFailed
  | busy
  | timeout
  | unauthorized
  | badRequest
  | unsupportedVersion
  deriving DecidableEq, Repr

def Disposition.asStr : Disposition → List Char
  | changed => "changed".toList
  | unchanged => "unchanged".toList

def ErrorCode.asStr : ErrorCode → List Char
  | unknownService => "unknownService".toList
  | supervisorUnavailable => "supervisorUnavailable".toList
  | controlChannelUnavailable => "controlChannelUnavailable".toList
  | operationFailed => "operationFailed".toList
  | busy => "busy".toList
  | timeout => "timeout".toList
  | unauthorized => "unauthorized".toList
  | badRequest => "badRequest".toList
  | unsupportedVersion => "unsupportedVersion".toList

def Disposition.all : List Disposition := [changed, unchanged]

def ErrorCode.all : List ErrorCode :=
  [unknownService, supervisorUnavailable, controlChannelUnavailable, operationFailed, busy, timeout,
    unauthorized, badRequest, unsupportedVersion]

inductive ServiceState where
  | stopped
  | starting
  | running
  | failed (exit : Option Int32) (stderrTail : List (List Char))
  deriving DecidableEq

structure ServiceStatus where
  id : List Char
  displayName : List Char
  endpoint : Option (List Char)
  pid : Option UInt32
  state : ServiceState
  deriving DecidableEq

inductive Response where
  | services (services : List ServiceStatus)
  | transition (service : ServiceStatus) (disposition : Disposition)
  | stopAll (stragglers : List (List Char))
  | error (code : ErrorCode) (message : List Char)
  deriving DecidableEq

/-! ### Writing -/

def Request.fields : Request → List (List Char × Value)
  | status id => [("id".toList, .ofOption (fun id : ServiceId => .str id.asStr) id)]
  | start id wait | stop id wait | restart id wait =>
      [("id".toList, .str id.asStr), ("wait".toList, .bool wait)]
  | list | stopAll => []

/-- The envelope of a request, flattened into it. -/
def Request.envelope (req : Request) : Value :=
  .obj (("schemaVersion".toList, .ofUInt32 schemaVersion) ::
    ("command".toList, .str req.commandName) :: req.fields)

def encodeRequest (req : Request) : List Char := print compact 0 req.envelope

def ServiceState.toJson : ServiceState → Value
  | stopped => object [("kind".toList, .str "stopped".toList)]
  | starting => object [("kind".toList, .str "starting".toList)]
  | running => object [("kind".toList, .str "running".toList)]
  | failed exit stderrTail => object [("kind".toList, .str "failed".toList),
      ("exit".toList, .ofOption .ofInt32 exit), ("stderrTail".toList, .arr (stderrTail.map .str))]

def ServiceStatus.toJson (s : ServiceStatus) : Value :=
  object [("id".toList, .str s.id), ("displayName".toList, .str s.displayName),
    ("endpoint".toList, .ofOption .str s.endpoint), ("pid".toList, .ofOption .ofUInt32 s.pid),
    ("state".toList, s.state.toJson)]

def Response.toJson : Response → Value
  | services rows => object [("kind".toList, .str "services".toList),
      ("services".toList, .arr (rows.map ServiceStatus.toJson))]
  | transition service disposition => object [("kind".toList, .str "transition".toList),
      ("service".toList, service.toJson), ("disposition".toList, .str disposition.asStr)]
  | stopAll stragglers => object [("kind".toList, .str "stopAll".toList),
      ("stragglers".toList, .arr (stragglers.map .str))]
  | error code message => object [("kind".toList, .str "error".toList),
      ("code".toList, .str code.asStr), ("message".toList, .str message)]

def envelopeJson (command : List Char) : Response → Value
  | .error code message =>
      object [("schemaVersion".toList, .ofUInt32 schemaVersion), ("ok".toList, .bool false),
        ("command".toList, .str command),
        ("error".toList, object [("code".toList, .str code.asStr), ("message".toList, .str message)])]
  | response =>
      object [("schemaVersion".toList, .ofUInt32 schemaVersion), ("ok".toList, .bool true),
        ("command".toList, .str command), ("result".toList, response.toJson)]

/-- The line that the server writes, without its newline. -/
def envelopeLine (command : List Char) (response : Response) : List Char :=
  print compact 0 (envelopeJson command response)

/-! ### Reading a request -/

/-- Why a request was turned down. -/
inductive Reason where
  | noRequest
  | notJson
  | notObject
  | version (v : UInt64)
  | noVersion
  | notUnderstood
  deriving DecidableEq, Repr

/-- The message, `e` being what `serde` says. -/
def Reason.message (e : String) : Reason → String
  | noRequest => "no request was sent"
  | notJson => s!"the request was not valid JSON: {e}"
  | notObject => "the request must be a JSON object"
  | version v => s!"schemaVersion {v} is not supported; this build speaks {schemaVersion}"
  | noVersion =>
      s!"the request is missing an integer schemaVersion (expected {schemaVersion})"
  | notUnderstood => s!"the request could not be understood: {e}"

structure Rejection where
  command : List Char
  code : ErrorCode
  reason : Reason
  deriving DecidableEq, Repr

def unknownCommand : List Char := "unknown".toList

def waitDefault : Bool := true

def readServiceId (v : Value) : Option ServiceId := v.text.bind fun raw => (ServiceId.parse raw).toOption

/-- The fields of a verb on one service. -/
def readVerb (make : ServiceId → Bool → Request) (fs : List (List Char × Value)) : Option Request := do
  let id ← (lookup "id".toList fs).bind readServiceId
  let wait ← match lookup "wait".toList fs with
    | none => some waitDefault
    | some v => v.toBool
  some (make id wait)

/-- `serde_json::from_value` for a request. -/
def Request.ofFields (fs : List (List Char × Value)) : Option Request := do
  let command ← (lookup "command".toList fs).bind Value.text
  if command = "status".toList then
    (Value.optional readServiceId (lookup "id".toList fs)).map .status
  else if command = "list".toList then some .list
  else if command = "start".toList then readVerb .start fs
  else if command = "stop".toList then readVerb .stop fs
  else if command = "restart".toList then readVerb .restart fs
  else if command = "stopAll".toList then some .stopAll
  else none

def decodeRequest (bytes : List UInt8) : Except Rejection Request :=
  if bytes = [] then .error ⟨unknownCommand, .badRequest, .noRequest⟩
  else
    match (decodeUtf8 bytes).bind parse with
    | none => .error ⟨unknownCommand, .badRequest, .notJson⟩
    | some (.obj fs) =>
        let command := ((lookup "command".toList fs).bind Value.text).getD unknownCommand
        match (lookup "schemaVersion".toList fs).bind Value.toUInt64 with
        | none => .error ⟨command, .unsupportedVersion, .noVersion⟩
        | some v =>
            if v = schemaVersion.toUInt64 then
              match Request.ofFields (without "schemaVersion".toList fs) with
              | some req => .ok req
              | none => .error ⟨command, .badRequest, .notUnderstood⟩
            else .error ⟨command, .unsupportedVersion, .version v⟩
    | some _ => .error ⟨unknownCommand, .badRequest, .notObject⟩

/-! ### Reading a response -/

def ServiceState.ofJson (v : Value) : Option ServiceState := do
  let kind ← (v.item "kind".toList).bind Value.text
  if kind = "stopped".toList then some .stopped
  else if kind = "starting".toList then some .starting
  else if kind = "running".toList then some .running
  else if kind = "failed".toList then do
    let exit ← Value.optional Value.toInt32 (v.item "exit".toList)
    let stderrTail ← (v.item "stderrTail".toList).bind (Value.array Value.text)
    some (.failed exit stderrTail)
  else none

def ServiceStatus.ofJson (v : Value) : Option ServiceStatus := do
  let id ← (v.item "id".toList).bind Value.text
  let displayName ← (v.item "displayName".toList).bind Value.text
  let endpoint ← Value.optional Value.text (v.item "endpoint".toList)
  let pid ← Value.optional Value.toUInt32 (v.item "pid".toList)
  let state ← (v.item "state".toList).bind ServiceState.ofJson
  some ⟨id, displayName, endpoint, pid, state⟩

def readDisposition (v : Value) : Option Disposition :=
  v.text.bind fun s => Disposition.all.find? fun d => d.asStr = s

def readErrorCode (v : Value) : Option ErrorCode :=
  v.text.bind fun s => ErrorCode.all.find? fun code => code.asStr = s

/-- `serde_json::from_value` for a response. -/
def Response.ofJson (v : Value) : Option Response := do
  let kind ← (v.item "kind".toList).bind Value.text
  if kind = "services".toList then
    ((v.item "services".toList).bind (Value.array ServiceStatus.ofJson)).map .services
  else if kind = "transition".toList then do
    let service ← (v.item "service".toList).bind ServiceStatus.ofJson
    let disposition ← (v.item "disposition".toList).bind readDisposition
    some (.transition service disposition)
  else if kind = "stopAll".toList then
    ((v.item "stragglers".toList).bind (Value.array Value.text)).map .stopAll
  else if kind = "error".toList then do
    let code ← (v.item "code".toList).bind readErrorCode
    let message ← (v.item "message".toList).bind Value.text
    some (.error code message)
  else none

/-- Why a response could not be read. -/
inductive Unreadable where
  | closed
  | notJson
  | version (v : UInt64)
  | noVersion
  | noOk
  | noResult
  | notOurs
  | noError
  deriving DecidableEq, Repr

/-- The text of the `ControlError::Protocol`, `e` being what `serde` says. -/
def Unreadable.text (e : String) : Unreadable → String
  | closed => "the server closed the connection without answering"
  | notJson => s!"the response was not valid JSON: {e}"
  | version v => s!"the server speaks schemaVersion {v}; this build speaks {schemaVersion}"
  | noVersion => "the response is missing an integer schemaVersion"
  | noOk => "the response is missing a boolean ok"
  | noResult => "the response is missing result"
  | notOurs => s!"the response result is not one of ours: {e}"
  | noError => "the response is missing error"

/-- The answer to `ok: false`. -/
def readError (error : Value) : Response :=
  .error (((error.item "code".toList).bind readErrorCode).getD .operationFailed)
    (((error.item "message".toList).bind Value.text).getD
      "the server reported a failure with no message".toList)

def decodeResponse (bytes : List UInt8) : Except Unreadable Response :=
  if bytes = [] then .error .closed
  else
    match (decodeUtf8 bytes).bind parse with
    | none => .error .notJson
    | some value =>
        match (value.item "schemaVersion".toList).bind Value.toUInt64 with
        | none => .error .noVersion
        | some v =>
            if v ≠ schemaVersion.toUInt64 then .error (.version v)
            else
              match (value.item "ok".toList).bind Value.toBool with
              | none => .error .noOk
              | some true =>
                  match value.item "result".toList with
                  | none => .error .noResult
                  | some result =>
                      match Response.ofJson result with
                      | some response => .ok response
                      | none => .error .notOurs
              | some false =>
                  match value.item "error".toList with
                  | none => .error .noError
                  | some error => .ok (readError error)

end OpenVHost.Control
