/-
# The settings form

The form holds values, and the stored ones it measures them against. A save sends what the form
holds, reads what was stored, and has the plan made; what is typed meanwhile is kept aside and laid
over what is read.

* `SettingKey`, `valueOf`, `withValue` — a setting by its name.
* `WebSettingsStore` — the state of the form; its methods up to each await and after it.
* `SettingsForm` — the store beside the saves in flight and the stored row.
-/

import Mathlib.Logic.Function.Basic
import OpenVHost.Desktop.WebSettings
import OpenVHost.Lts.System

namespace OpenVHost.Window

open Desktop Desktop.WebSettings

/-! ### The settings by name -/

inductive NumberKey where
  | workerConnections
  | keepaliveTimeout
  | fastcgiConnectTimeout
  | fastcgiSendTimeout
  | fastcgiReadTimeout
  | gzipCompLevel
  deriving DecidableEq, Repr

inductive BoolKey where
  | tcpNodelay
  | gzip
  deriving DecidableEq, Repr

inductive TextKey where
  | clientMaxBodySize
  | gzipTypes
  deriving DecidableEq, Repr

inductive SettingKey where
  | number (key : NumberKey)
  | bool (key : BoolKey)
  | text (key : TextKey)
  deriving DecidableEq, Repr

namespace SettingKey

abbrev Value : SettingKey → Type
  | number _ => Nat
  | bool _ => Bool
  | text _ => List Char

def valueOf (d : WebServerSettingsDto) : (key : SettingKey) → key.Value
  | number .workerConnections => d.workerConnections
  | number .keepaliveTimeout => d.keepaliveTimeout
  | number .fastcgiConnectTimeout => d.fastcgiConnectTimeout
  | number .fastcgiSendTimeout => d.fastcgiSendTimeout
  | number .fastcgiReadTimeout => d.fastcgiReadTimeout
  | number .gzipCompLevel => d.gzipCompLevel
  | bool .tcpNodelay => d.tcpNodelay
  | bool .gzip => d.gzip
  | text .clientMaxBodySize => d.clientMaxBodySize
  | text .gzipTypes => d.gzipTypes

def withValue (d : WebServerSettingsDto) : (key : SettingKey) → key.Value → WebServerSettingsDto
  | number .workerConnections, value => { d with workerConnections := value }
  | number .keepaliveTimeout, value => { d with keepaliveTimeout := value }
  | number .fastcgiConnectTimeout, value => { d with fastcgiConnectTimeout := value }
  | number .fastcgiSendTimeout, value => { d with fastcgiSendTimeout := value }
  | number .fastcgiReadTimeout, value => { d with fastcgiReadTimeout := value }
  | number .gzipCompLevel, value => { d with gzipCompLevel := value }
  | bool .tcpNodelay, value => { d with tcpNodelay := value }
  | bool .gzip, value => { d with gzip := value }
  | text .clientMaxBodySize, value => { d with clientMaxBodySize := value }
  | text .gzipTypes, value => { d with gzipTypes := value }

/-- The name of the field in the form. -/
def name : SettingKey → List Char
  | number .workerConnections => "workerConnections".toList
  | number .keepaliveTimeout => "keepaliveTimeout".toList
  | number .fastcgiConnectTimeout => "fastcgiConnectTimeout".toList
  | number .fastcgiSendTimeout => "fastcgiSendTimeout".toList
  | number .fastcgiReadTimeout => "fastcgiReadTimeout".toList
  | number .gzipCompLevel => "gzipCompLevel".toList
  | bool .tcpNodelay => "tcpNodelay".toList
  | bool .gzip => "gzip".toList
  | text .clientMaxBodySize => "clientMaxBodySize".toList
  | text .gzipTypes => "gzipTypes".toList

variable {a b d : WebServerSettingsDto} {key key' : SettingKey}

@[simp] theorem valueOf_withValue (d : WebServerSettingsDto) (key : SettingKey) (value : key.Value) :
    valueOf (withValue d key value) key = value := by
  cases key with
  | number key | bool key | text key => cases key <;> rfl

theorem valueOf_withValue_of_ne (d : WebServerSettingsDto) (value : key.Value) (hne : key' ≠ key) :
    valueOf (withValue d key value) key' = valueOf d key' := by
  cases key with
  | number key | bool key | text key =>
      cases key <;> cases key' with
      | number key' | bool key' | text key' => cases key' <;> first | rfl | exact absurd rfl hne

theorem ext_valueOf (h : ∀ key, valueOf a key = valueOf b key) : a = b := by
  cases a
  cases b
  rw [WebServerSettingsDto.mk.injEq]
  exact ⟨h (number .workerConnections), h (text .clientMaxBodySize), h (number .keepaliveTimeout),
    h (bool .tcpNodelay), h (number .fastcgiConnectTimeout), h (number .fastcgiSendTimeout),
    h (number .fastcgiReadTimeout), h (bool .gzip), h (number .gzipCompLevel), h (text .gzipTypes)⟩

end SettingKey

open SettingKey

/-- The backend's name of a field. -/
def errorKey (key : SettingKey) : List Char :=
  key.name.flatMap fun c => if Conf.isAsciiUppercase c then ['_', Char.ofNat (c.toNat + 32)] else [c]

/-- What `String.prototype.trim` takes off. -/
def isJsSpace (c : Char) : Bool := (Conf.isWhitespace c && c.toNat != 0x85) || c.toNat == 0xFEFF

/-- A whole number of at most nine digits. -/
def parseCount (raw : List Char) : Option Nat :=
  let trimmed := Text.trim isJsSpace raw
  if 1 ≤ trimmed.length ∧ trimmed.length ≤ 9 ∧ trimmed.all Conf.isAsciiDigit then
    some (Conf.digitsValue trimmed)
  else none

def sameSettings (a b : WebServerSettingsDto) : Bool :=
  a.workerConnections == b.workerConnections && a.clientMaxBodySize == b.clientMaxBodySize &&
    a.keepaliveTimeout == b.keepaliveTimeout && a.tcpNodelay == b.tcpNodelay &&
    a.fastcgiConnectTimeout == b.fastcgiConnectTimeout && a.fastcgiSendTimeout == b.fastcgiSendTimeout &&
    a.fastcgiReadTimeout == b.fastcgiReadTimeout && a.gzip == b.gzip &&
    a.gzipCompLevel == b.gzipCompLevel && a.gzipTypes == b.gzipTypes

theorem sameSettings_iff {a b : WebServerSettingsDto} :
    sameSettings a b = true ↔ ∀ key, valueOf a key = valueOf b key := by
  constructor
  · intro h key
    simp only [sameSettings, Bool.and_eq_true, beq_iff_eq] at h
    cases key with
    | number key | bool key | text key => cases key <;> simp [valueOf, h]
  · intro h
    rw [ext_valueOf h]
    simp [sameSettings]

/-! ### The store -/

def notANumber : String := "Enter a whole number."

def rereadFailed : String :=
  "Saved, but the stored values could not be read back — what you see below may not be exactly what was stored. Reopen this page to check."

def errorMessage : WebSettings.IpcError → Message
  | .core message | .proc message | .validation _ message =>
      if message ≠ .text "" then message else .text "The command failed."
  | .simulated => .text "The command failed."

structure WebSettingsStore where
  values : Option WebServerSettingsDto
  error : Message
  saving : Bool
  saved : Option WebServerSettingsDto
  serverErrors : List (List Char × Message)
  localErrors : List (List Char × Message)
  /-- What was changed after the save in flight took its payload. -/
  pendingEdits : List SettingKey
  deriving DecidableEq

/-- One field of `base` replaced by `local`'s. -/
def withField (base «local» : WebServerSettingsDto) (key : SettingKey) : WebServerSettingsDto :=
  withValue base key (valueOf «local» key)

namespace WebSettingsStore

variable (s : WebSettingsStore)

/-- A new store. -/
def new : WebSettingsStore := ⟨none, .text "", false, none, [], [], []⟩

/-- `load`, with its answer. -/
def load : Except WebSettings.IpcError WebServerSettingsDto → WebSettingsStore
  | .ok stored =>
      { s with
        error := .text "", serverErrors := [], localErrors := [], values := some stored, saved := some stored }
  | .error e => { s with error := errorMessage e, serverErrors := [], localErrors := [] }

def fieldErrors (field : List Char) : Option Message := (s.serverErrors ++ s.localErrors).lookup field

/-- Whether the form holds anything not yet stored. -/
def dirty : Bool :=
  match s.values, s.saved with
  | some values, some saved => !sameSettings values saved
  | _, _ => false

def canSave : Bool := !s.saving && s.values.isSome && s.localErrors.isEmpty

def patch (key : SettingKey) (value : key.Value) : WebSettingsStore :=
  match s.values with
  | none => s
  | some values =>
      { s with
        values := some (withValue values key value)
        pendingEdits :=
          if s.saving && !s.pendingEdits.contains key then s.pendingEdits ++ [key] else s.pendingEdits }

def markLocal (field : List Char) (message : Message) : WebSettingsStore :=
  { s with localErrors := s.localErrors.filter (·.1 != field) ++ [(field, message)] }

def clearLocal (field : List Char) : WebSettingsStore :=
  { s with localErrors := s.localErrors.filter (·.1 != field) }

/-- A box that holds no number keeps its last good value. -/
def setNumber (key : NumberKey) (raw : List Char) : WebSettingsStore :=
  match parseCount raw with
  | none => s.markLocal (errorKey (.number key)) (.text notANumber)
  | some parsed => (s.clearLocal (errorKey (.number key))).patch (.number key) parsed

def setBool (key : BoolKey) (value : Bool) : WebSettingsStore := s.patch (.bool key) value

def setText (key : TextKey) (value : List Char) : WebSettingsStore := s.patch (.text key) value

/-- `save`, up to its first await, with what it sends. -/
def beginSave : Option (WebSettingsStore × WebServerSettingsDto) :=
  if s.canSave then
    s.values.map fun payload =>
      ({ s with saving := true, pendingEdits := [], error := .text "", serverErrors := [] }, payload)
  else none

/-- A step of `save` has failed. -/
def saveFailed : WebSettings.IpcError → WebSettingsStore
  | .validation field message =>
      { s with serverErrors := [(field.toList, message)], saving := false, pendingEdits := [] }
  | e => { s with error := errorMessage e, saving := false, pendingEdits := [] }

/-- The stored row, under what was typed meanwhile. -/
def merge (stored : WebServerSettingsDto) : WebServerSettingsDto :=
  match s.values with
  | none => stored
  | some «local» => s.pendingEdits.foldl (fun merged key => withField merged «local» key) stored

/-- `reread`, after its await. -/
def reread : Except WebSettings.IpcError WebServerSettingsDto → WebSettingsStore
  | .ok stored => { s with saved := some stored, values := some (s.merge stored) }
  | .error _ => { s with error := .text rereadFailed }

/-- The end of a save that went through. -/
def finish : WebSettingsStore := { s with saving := false, pendingEdits := [] }

end WebSettingsStore

/-! ### The form and the backend -/

/-- The await that a save is at, and the answer once the command has run. -/
inductive SaveStage where
  | save (answer : Option (Except WebSettings.IpcError Unit))
  | reread (answer : Option (Except WebSettings.IpcError WebServerSettingsDto))
  | plan (answer : Option (Except WebSettings.IpcError Unit))

structure SaveRun where
  payload : WebServerSettingsDto
  stage : SaveStage
  /-- What has been edited since the payload was taken. -/
  since : SettingKey → Bool

structure SettingsForm where
  store : WebSettingsStore
  saves : List SaveRun
  row : Option WebServerSettingsRow
  /-- The last valid value that was entered for a field. -/
  entered : (key : SettingKey) → Option key.Value
  /-- What has been edited since the last save that stored a row took its payload. -/
  edited : SettingKey → Bool
  /-- The last reading of the row has succeeded. -/
  lastRead : Bool

inductive FormTurn where
  | setNumber (key : NumberKey) (raw : List Char)
  | setBool (key : BoolKey) (value : Bool)
  | setText (key : TextKey) (value : List Char)
  | save
  /-- The command runs that a save waits for, with what the database, nginx and the planner answer. -/
  | perform (i : Nat) (answers : SaveAnswers) (plan : Except WebSettings.IpcError Unit)
  | arrive (i : Nat)

namespace SettingsForm

variable (f : SettingsForm)

/-- A valid value was entered, in a form that shows values. -/
def recordEdit (key : SettingKey) (value : key.Value) : SettingsForm :=
  if f.store.values.isSome then
    { f with
      entered := Function.update f.entered key (some value)
      edited := Function.update f.edited key true
      saves := f.saves.map fun run => { run with since := Function.update run.since key true } }
  else f

/-- A command runs. -/
def perform (answers : SaveAnswers) (plan : Except WebSettings.IpcError Unit) (run : SaveRun) :
    Option (SettingsForm × SaveRun) :=
  match run.stage with
  | .save none =>
      match saveWebServerSettings answers run.payload with
      | .ok row =>
          some ({ f with row := some row, edited := run.since }, { run with stage := .save (some (.ok ())) })
      | .error e => some (f, { run with stage := .save (some (.error e)) })
  | .reread none => some (f, { run with stage := .reread (some (webServerSettings answers.store f.row)) })
  | .plan none => some (f, { run with stage := .plan (some plan) })
  | .save (some _) | .reread (some _) | .plan (some _) => none

/-- An answer arrives, and the save goes on to its next await or is over. -/
def arrive (run : SaveRun) : Option (SettingsForm × Option SaveRun) :=
  match run.stage with
  | .save (some (.ok _)) =>
      some ({ f with store := { f.store with saved := some run.payload } }, some { run with stage := .reread none })
  | .reread (some answer) =>
      some ({ f with store := f.store.reread answer, lastRead := answer.toBool }, some { run with stage := .plan none })
  | .plan (some (.ok _)) => some ({ f with store := f.store.finish }, none)
  | .save (some (.error e)) | .plan (some (.error e)) => some ({ f with store := f.store.saveFailed e }, none)
  | .save none | .reread none | .plan none => none

def next : FormTurn → Option SettingsForm
  | .setNumber key raw =>
      let f' := { f with store := f.store.setNumber key raw }
      match parseCount raw with
      | none => some f'
      | some parsed => some (f'.recordEdit (.number key) parsed)
  | .setBool key value => some ({ f with store := f.store.setBool key value }.recordEdit (.bool key) value)
  | .setText key value => some ({ f with store := f.store.setText key value }.recordEdit (.text key) value)
  | .save =>
      match f.store.beginSave with
      | none => some f
      | some (store, payload) =>
          some { f with store := store, saves := f.saves ++ [⟨payload, .save none, fun _ => false⟩] }
  | .perform i answers plan => do
      let run ← f.saves[i]?
      let (f', run') ← f.perform answers plan run
      some { f' with saves := f'.saves.set i run' }
  | .arrive i => do
      let run ← f.saves[i]?
      let (f', run') ← f.arrive run
      match run' with
      | some run' => some { f' with saves := f'.saves.set i run' }
      | none => some { f' with saves := f'.saves.eraseIdx i }

/-- The first read has settled, and nothing was entered yet. -/
structure Initial : Prop where
  store : ∃ answers, f.store = WebSettingsStore.new.load (webServerSettings answers f.row)
  saves : f.saves = []
  entered : f.entered = fun _ => none
  edited : f.edited = fun _ => false
  lastRead : f.lastRead = f.store.values.isSome

end SettingsForm

/-- The form as a system, over every stored row. -/
def settingsForm : Lts.System SettingsForm FormTurn where
  init := SettingsForm.Initial
  next := SettingsForm.next

end OpenVHost.Window
