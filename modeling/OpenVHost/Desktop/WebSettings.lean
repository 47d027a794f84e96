/-
# The stored web server settings

The settings are one row of the database, which is parsed again whenever it is read. The form
sees them as plain values, and what it sends is parsed before anything is stored.

* `readSettings_toRow` — what was stored is read as it was.
* `saveWebServerSettings_ok` — a save that succeeds stores what was sent, but for the list of types,
  which is stored as it is read.
-/

import OpenVHost.Conf.SettingsParse
import Mathlib.Algebra.Group.Int.Defs

namespace OpenVHost.Desktop.WebSettings

open Conf

/-- The texts of errors, as what they are made of. -/
inductive Message where
  | text (message : String)
  | conf (e : ConfError)
  | invalid (value : List Char) (reason : String)
  | invalidColumn (value : List Char) (reason : String)
  | notU32 (v : Int)
  deriving DecidableEq

inductive IpcError where
  | simulated
  | core (message : Message)
  | proc (message : Message)
  | validation (field : String) (message : Message)
  deriving DecidableEq

def IpcError.ofConf : ConfError → IpcError
  | .invalidField field value reason => .validation field (.invalid value reason)
  | e => .core (.conf e)

structure WebServerSettingsDto where
  workerConnections : Nat
  clientMaxBodySize : List Char
  keepaliveTimeout : Nat
  tcpNodelay : Bool
  fastcgiConnectTimeout : Nat
  fastcgiSendTimeout : Nat
  fastcgiReadTimeout : Nat
  gzip : Bool
  gzipCompLevel : Nat
  gzipTypes : List Char
  deriving DecidableEq, Repr

def WebServerSettingsDto.ofSettings (s : WebServerSettings) : WebServerSettingsDto where
  workerConnections := s.workerConnections.get
  clientMaxBodySize := s.clientMaxBodySize
  keepaliveTimeout := s.keepaliveTimeout.get
  tcpNodelay := s.tcpNodelay.isOn
  fastcgiConnectTimeout := s.fastcgiConnectTimeout.get
  fastcgiSendTimeout := s.fastcgiSendTimeout.get
  fastcgiReadTimeout := s.fastcgiReadTimeout.get
  gzip := s.gzip.isOn
  gzipCompLevel := s.gzipCompLevel.get
  gzipTypes := asDirective s.gzipTypes

def secondsField (v : Nat) (field : String) : Except IpcError Seconds :=
  (Seconds.parse v).mapError fun e => .ofConf (e.withField field)

/-- The guard of everything that comes from the form. -/
def WebServerSettingsDto.tryInto (d : WebServerSettingsDto) : Except IpcError WebServerSettings := do
  let workerConnections ← (WorkerConnections.parse d.workerConnections).mapError .ofConf
  let clientMaxBodySize ← (bodySizeParse d.clientMaxBodySize).mapError .ofConf
  let keepaliveTimeout ← secondsField d.keepaliveTimeout "keepalive_timeout"
  let fastcgiConnectTimeout ← secondsField d.fastcgiConnectTimeout "fastcgi_connect_timeout"
  let fastcgiSendTimeout ← secondsField d.fastcgiSendTimeout "fastcgi_send_timeout"
  let fastcgiReadTimeout ← secondsField d.fastcgiReadTimeout "fastcgi_read_timeout"
  let gzipCompLevel ← (GzipLevel.parse d.gzipCompLevel).mapError .ofConf
  let gzipTypes ← (gzipTypesParse d.gzipTypes).mapError .ofConf
  pure {
    workerConnections, clientMaxBodySize, keepaliveTimeout, tcpNodelay := ⟨d.tcpNodelay⟩,
    fastcgiConnectTimeout, fastcgiSendTimeout, fastcgiReadTimeout, gzip := ⟨d.gzip⟩, gzipCompLevel,
    gzipTypes }

/-! ### The row -/

structure WebServerSettingsRow where
  workerConnections : Int
  clientMaxBodySize : List Char
  keepaliveTimeout : Int
  tcpNodelay : Int
  fastcgiConnectTimeout : Int
  fastcgiSendTimeout : Int
  fastcgiReadTimeout : Int
  gzip : Int
  gzipCompLevel : Int
  gzipTypes : List Char
  deriving DecidableEq, Repr

def fromConfErr : ConfError → IpcError
  | .invalidField field value reason => .validation field (.invalidColumn value reason)
  | e => .validation "web_server_settings" (.conf e)

def toU32 (field : String) (v : Int) : Except IpcError Nat :=
  if 0 ≤ v ∧ v < 2 ^ 32 then .ok v.toNat else .error (.validation field (.notU32 v))

/-- A column that holds a timeout. -/
def secondsColumn (v : Int) (column : String) : Except IpcError Seconds := do
  let n ← toU32 column v
  (Seconds.parse n).mapError fun e => fromConfErr (e.withField column)

def WebServerSettingsRow.tryInto (r : WebServerSettingsRow) : Except IpcError WebServerSettings := do
  let n ← toU32 "worker_connections" r.workerConnections
  let workerConnections ← (WorkerConnections.parse n).mapError fromConfErr
  let clientMaxBodySize ← (bodySizeParse r.clientMaxBodySize).mapError fromConfErr
  let keepaliveTimeout ← secondsColumn r.keepaliveTimeout "keepalive_timeout"
  let fastcgiConnectTimeout ← secondsColumn r.fastcgiConnectTimeout "fastcgi_connect_timeout"
  let fastcgiSendTimeout ← secondsColumn r.fastcgiSendTimeout "fastcgi_send_timeout"
  let fastcgiReadTimeout ← secondsColumn r.fastcgiReadTimeout "fastcgi_read_timeout"
  let n ← toU32 "gzip_comp_level" r.gzipCompLevel
  let gzipCompLevel ← (GzipLevel.parse n).mapError fromConfErr
  let gzipTypes ← (gzipTypesParse r.gzipTypes).mapError fromConfErr
  pure {
    workerConnections, clientMaxBodySize, keepaliveTimeout, tcpNodelay := ⟨r.tcpNodelay != 0⟩,
    fastcgiConnectTimeout, fastcgiSendTimeout, fastcgiReadTimeout, gzip := ⟨r.gzip != 0⟩, gzipCompLevel,
    gzipTypes }

def WebServerSettingsRow.ofSettings (s : WebServerSettings) : WebServerSettingsRow where
  workerConnections := s.workerConnections.get
  clientMaxBodySize := s.clientMaxBodySize
  keepaliveTimeout := s.keepaliveTimeout.get
  tcpNodelay := if s.tcpNodelay.isOn then 1 else 0
  fastcgiConnectTimeout := s.fastcgiConnectTimeout.get
  fastcgiSendTimeout := s.fastcgiSendTimeout.get
  fastcgiReadTimeout := s.fastcgiReadTimeout.get
  gzip := if s.gzip.isOn then 1 else 0
  gzipCompLevel := s.gzipCompLevel.get
  gzipTypes := asDirective s.gzipTypes

/-- The stored settings, or the defaults where nothing is stored. -/
def storedSettings : Option WebServerSettingsRow → Except IpcError WebServerSettings
  | some r => r.tryInto
  | none => .ok uncheckedDefaults

/-! ### The commands -/

/-- What came of asking nginx. -/
inductive CheckAnswer where
  | noChecker
  | spawnFailed
  | failed (e : IpcError)
  | accepted
  | rejected (field : Option String) (message : String)
  deriving DecidableEq

/-- What the database and nginx answer to one save. -/
structure SaveAnswers where
  store : Except IpcError Unit
  check : CheckAnswer
  insert : Except IpcError Unit

def readSettings (row : Option WebServerSettingsRow) : Except IpcError WebServerSettingsDto :=
  (storedSettings row).map .ofSettings

def webServerSettings (store : Except IpcError Unit) (row : Option WebServerSettingsRow) :
    Except IpcError WebServerSettingsDto := do
  store
  readSettings row

def CheckAnswer.verdict : CheckAnswer → Except IpcError Unit
  | .noChecker | .spawnFailed | .accepted => .ok ()
  | .failed e => .error e
  | .rejected (some field) message => .error (.validation field (.text message))
  | .rejected none message => .error (.core (.text message))

/-- The row that is stored, if all goes well. -/
def saveWebServerSettings (answers : SaveAnswers) (input : WebServerSettingsDto) :
    Except IpcError WebServerSettingsRow := do
  answers.store
  let settings ← input.tryInto
  answers.check.verdict
  answers.insert
  pure (.ofSettings settings)

/-! ### What is stored is read back -/

/-- Settings that pass their own parsers. -/
structure Stable (s : WebServerSettings) : Prop where
  bodySize : bodySizeParse s.clientMaxBodySize = .ok s.clientMaxBodySize
  types : GzipTypes s.gzipTypes

section Stored

variable {s : WebServerSettings} {d : WebServerSettingsDto} {r : WebServerSettingsRow}
  {row : Option WebServerSettingsRow}

theorem mapError_eq_ok {ε ε' α : Type} {f : ε → ε'} {x : Except ε α} {a : α} (h : x.mapError f = .ok a) :
    x = .ok a := by
  cases x with
  | ok b =>
      cases h
      rfl
  | error e => cases h

theorem toU32_natCast {field : String} {n : Nat} (h : n < 2 ^ 32) : toU32 field n = .ok n := by
  rw [toU32, if_pos ⟨by omega, by exact_mod_cast h⟩, Int.toNat_natCast]

theorem secondsField_ok {v : Nat} {field : String} {t : Seconds} (h : secondsField v field = .ok t) : t.get = v :=
  secondsParse_ok (mapError_eq_ok h)

/-- **What the form sends** is what is kept, but for the list of types, which is read. -/
theorem tryInto_ok (h : d.tryInto = .ok s) :
    Stable s ∧ gzipTypesParse d.gzipTypes = .ok s.gzipTypes ∧
      .ofSettings s = { d with gzipTypes := asDirective s.gzipTypes } := by
  obtain ⟨w, hw, h⟩ := FileTree.bind_eq_ok.mp h
  obtain ⟨b, hb, h⟩ := FileTree.bind_eq_ok.mp h
  obtain ⟨k, hk, h⟩ := FileTree.bind_eq_ok.mp h
  obtain ⟨c, hc, h⟩ := FileTree.bind_eq_ok.mp h
  obtain ⟨t, ht, h⟩ := FileTree.bind_eq_ok.mp h
  obtain ⟨r, hr, h⟩ := FileTree.bind_eq_ok.mp h
  obtain ⟨l, hl, h⟩ := FileTree.bind_eq_ok.mp h
  obtain ⟨types, htypes, h⟩ := FileTree.bind_eq_ok.mp h
  cases h
  have hsize := bodySizeParse_ok (mapError_eq_ok hb)
  subst hsize
  have htypes := mapError_eq_ok htypes
  refine ⟨⟨mapError_eq_ok hb, gzipTypesParse_sound htypes⟩, htypes, ?_⟩
  simp only [WebServerSettingsDto.ofSettings, workerConnectionsParse_ok (mapError_eq_ok hw), secondsField_ok hk,
    secondsField_ok hc, secondsField_ok ht, secondsField_ok hr, gzipLevelParse_ok (mapError_eq_ok hl)]

theorem rowTryInto_ok (h : r.tryInto = .ok s) : Stable s := by
  obtain ⟨_, -, h⟩ := FileTree.bind_eq_ok.mp h
  obtain ⟨_, -, h⟩ := FileTree.bind_eq_ok.mp h
  obtain ⟨b, hb, h⟩ := FileTree.bind_eq_ok.mp h
  obtain ⟨_, -, h⟩ := FileTree.bind_eq_ok.mp h
  obtain ⟨_, -, h⟩ := FileTree.bind_eq_ok.mp h
  obtain ⟨_, -, h⟩ := FileTree.bind_eq_ok.mp h
  obtain ⟨_, -, h⟩ := FileTree.bind_eq_ok.mp h
  obtain ⟨_, -, h⟩ := FileTree.bind_eq_ok.mp h
  obtain ⟨_, -, h⟩ := FileTree.bind_eq_ok.mp h
  obtain ⟨types, htypes, h⟩ := FileTree.bind_eq_ok.mp h
  cases h
  have hsize := bodySizeParse_ok (mapError_eq_ok hb)
  subst hsize
  exact ⟨mapError_eq_ok hb, gzipTypesParse_sound (mapError_eq_ok htypes)⟩

theorem secondsColumn_get (t : Seconds) (column : String) : secondsColumn t.get column = .ok t := by
  have := t.bounds
  rw [secondsColumn, toU32_natCast (by omega)]
  exact congrArg (Except.mapError _) (secondsParse_get t)

theorem ofSettings_onOff (o : OnOff) : (⟨(if o.isOn then (1 : Int) else 0) != 0⟩ : OnOff) = o := by
  rcases o with ⟨_ | _⟩ <;> rfl

/-- **What was stored is read as it was.** -/
theorem readSettings_toRow (h : Stable s) : (WebServerSettingsRow.ofSettings s).tryInto = .ok s := by
  have hw : toU32 "worker_connections" s.workerConnections.get = .ok s.workerConnections.get :=
    toU32_natCast (Nat.lt_of_le_of_lt s.workerConnections.bounds.2 (by decide))
  have hl : toU32 "gzip_comp_level" s.gzipCompLevel.get = .ok s.gzipCompLevel.get :=
    toU32_natCast (Nat.lt_of_le_of_lt s.gzipCompLevel.bounds.2 (by decide))
  have hmap : ∀ {α : Type} (a : α) (f : ConfError → IpcError), (Except.ok a).mapError f = .ok a := fun _ _ => rfl
  have hok : ∀ {α β : Type} (a : α) (f : α → Except IpcError β), (Except.ok a >>= f) = f a := fun _ _ => rfl
  rw [WebServerSettingsRow.tryInto]
  simp only [WebServerSettingsRow.ofSettings, hw, hl, hok, hmap, secondsColumn_get, ofSettings_onOff,
    workerConnectionsParse_get, gzipLevelParse_get, h.bodySize, gzipTypesParse_directive h.types]
  rfl

theorem uncheckedDefaults_stable : Stable uncheckedDefaults :=
  ⟨by decide, gzipTypes_uncheckedDefaults⟩

theorem storedSettings_stable (h : storedSettings row = .ok s) : Stable s := by
  cases row with
  | some r => exact rowTryInto_ok h
  | none =>
      cases h
      exact uncheckedDefaults_stable

/-- **A save that succeeds** stores the settings that were sent. -/
theorem saveWebServerSettings_ok {answers : SaveAnswers} (h : saveWebServerSettings answers d = .ok r) :
    ∃ s, d.tryInto = .ok s ∧ r = .ofSettings s := by
  obtain ⟨_, -, h⟩ := FileTree.bind_eq_ok.mp h
  obtain ⟨s, hs, h⟩ := FileTree.bind_eq_ok.mp h
  obtain ⟨_, -, h⟩ := FileTree.bind_eq_ok.mp h
  obtain ⟨_, -, h⟩ := FileTree.bind_eq_ok.mp h
  cases h
  exact ⟨s, hs, rfl⟩

end Stored

end OpenVHost.Desktop.WebSettings
