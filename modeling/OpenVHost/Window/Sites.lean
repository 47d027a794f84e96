/-
# The site list and the pending changes

The page keeps a copy of the stored sites, and a copy of what an apply would change. Each
mutation that succeeds has both of them read again; an answer replaces the copy it is of.

* `SitesStore`, `ApplyStore` — the page's state, and its methods up to each await and after it.
* `SitesPage` — the stores beside the calls in flight, the stored sites and the disk.
-/

import Mathlib.Logic.Function.Basic
import OpenVHost.Lts.System

namespace OpenVHost.Window.Sites

abbrev SiteId := String

inductive IpcError where
  | simulated
  | core (message : String)
  | proc (message : String)
  | validation (field message : String)
  deriving DecidableEq, Repr

def errorMessage : IpcError → String
  | .core message | .proc message | .validation _ message =>
      if message ≠ "" then message else "The command failed."
  | .simulated => "The command failed."

structure SiteDto where
  id : SiteId
  name : String
  domain : String
  docroot : String
  webServer : String
  phpVersion : String
  enabled : Bool
  createdAt : Int
  updatedAt : Int
  deriving DecidableEq, Repr

structure SiteInput where
  name : String
  domain : String
  docroot : String
  webServer : String
  phpVersion : String
  enabled : Bool
  deriving DecidableEq, Repr

inductive ScaffoldStepDto where
  | createDir
  | inspect
  | writePlaceholder
  deriving DecidableEq, Repr

inductive ScaffoldOutcomeDto where
  | created
  | keptExisting (existing : String)
  | failed (step : ScaffoldStepDto) (reason : String)
  deriving DecidableEq, Repr

structure CreateSiteResult where
  site : SiteDto
  scaffold : Option ScaffoldOutcomeDto
  deriving DecidableEq, Repr

structure ScaffoldNotice where
  siteName : String
  docroot : String
  outcome : ScaffoldOutcomeDto
  deriving DecidableEq, Repr

structure FileChangeDto where
  path : String
  kind : String
  diff : String
  deriving DecidableEq, Repr

structure ServiceProblemDto where
  id : String
  reason : String
  deriving DecidableEq, Repr

structure ApplyOutcomeDto where
  applied : Nat
  restarted : List String
  notStarted : List String
  needsAttention : List ServiceProblemDto
  deriving DecidableEq, Repr

/-! ### The stores -/

structure SitesStore where
  sites : List SiteDto
  error : Option IpcError
  fieldErrors : List (String × String)
  rowError : SiteId → Option String
  busy : SiteId → Bool
  lastScaffold : Option ScaffoldNotice

namespace SitesStore

variable (s : SitesStore)

def reset : SitesStore := { s with error := none, fieldErrors := [], lastScaffold := none }

def dismissScaffold : SitesStore := { s with lastScaffold := none }

/-- `load` after its await. -/
def listed : Except IpcError (List SiteDto) → SitesStore
  | .ok sites => { s with sites := sites }
  | .error e => { s with error := some e }

/-- What `save` does with an error. -/
def saveFailed : IpcError → SitesStore
  | .validation field message => { s with fieldErrors := [(field, message)] }
  | e => { s with error := some e }

/-- An operation on a row begins, unless there is one. -/
def beginRow (id : SiteId) : SitesStore :=
  { s with busy := Function.update s.busy id true, rowError := Function.update s.rowError id (some "") }

def rowDone (id : SiteId) : SitesStore := { s with busy := Function.update s.busy id false }

def rowFailed (id : SiteId) (e : IpcError) : SitesStore :=
  { s with
    rowError := Function.update s.rowError id (some (errorMessage e))
    busy := Function.update s.busy id false }

end SitesStore

/-- What a created site has to be said of. -/
def scaffoldNotice (input : SiteInput) (result : CreateSiteResult) : Option ScaffoldNotice :=
  result.scaffold.map fun outcome => ⟨input.name, result.site.docroot, outcome⟩

/-- The input of `setEnabled`: the row as it is on screen, but for the flag. -/
def SiteDto.input (site : SiteDto) (enabled : Bool) : SiteInput :=
  ⟨site.name, site.domain, site.docroot, site.webServer, site.phpVersion, enabled⟩

structure ApplyStore where
  changes : List FileChangeDto
  error : String
  applying : Bool
  outcome : Option ApplyOutcomeDto
  deriving DecidableEq, Repr

namespace ApplyStore

variable (a : ApplyStore)

def pendingCount : Nat := a.changes.length

/-- `refresh` after its await. -/
def planned : Except IpcError (List FileChangeDto) → ApplyStore
  | .ok changes => { a with changes := changes }
  | .error e => { a with error := errorMessage e, changes := [] }

end ApplyStore

/-! ### The page and the backend -/

/-- What the commands do. -/
structure SitesApi (D : Type) where
  createSite : SiteInput → Bool → List SiteDto → Except IpcError (CreateSiteResult × List SiteDto)
  updateSite : SiteId → SiteInput → List SiteDto → Except IpcError (SiteDto × List SiteDto)
  deleteSite : SiteId → List SiteDto → Except IpcError (Bool × List SiteDto)
  openSite : SiteId → List SiteDto → Except IpcError Unit
  planConfigApply : List SiteDto → D → Except IpcError (List FileChangeDto)
  applyConfig : List SiteDto → D → Except IpcError (ApplyOutcomeDto × D)

/-- What follows a list that was read. -/
inductive AfterLoad where
  | mount
  | save (notice : Option ScaffoldNotice)
  | other
  deriving DecidableEq, Repr

inductive RowOp where
  | update (input : SiteInput)
  | delete
  deriving DecidableEq, Repr

/-- A call in flight, and its answer once the command has run. A reading has its moment. -/
inductive SitesCall where
  | list (after : AfterLoad) (answer : Option (List SiteDto)) (moment : Nat)
  | create (input : SiteInput) (createFolder : Bool) (answer : Option (Except IpcError CreateSiteResult))
  | update (id : SiteId) (input : SiteInput) (answer : Option (Except IpcError Unit))
  | remove (id : SiteId) (answer : Option (Except IpcError Unit))
  | row (id : SiteId) (op : RowOp) (answer : Option (Except IpcError Unit))
  | openSite (id : SiteId) (answer : Option (Except IpcError Unit))
  | plan (answer : Option (Except IpcError (List FileChangeDto))) (moment : Nat)
  | apply (answer : Option (Except IpcError ApplyOutcomeDto))

structure SitesPage (D : Type) where
  store : SitesStore
  apply : ApplyStore
  calls : List SitesCall
  stored : List SiteDto
  disk : D
  /-- How often the stored sites have changed, and how often they or the disk have. -/
  siteChanges : Nat
  planChanges : Nat
  /-- The moments of the answers on screen. -/
  sitesMoment : Nat
  changesMoment : Nat
  /-- A call has failed. -/
  failed : Bool

inductive SitesTurn where
  | save (id : Option SiteId) (input : SiteInput) (createFolder : Bool)
  | remove (id : SiteId)
  | setEnabled (site : SiteDto) (enabled : Bool)
  | removeRow (id : SiteId)
  | openSite (id : SiteId)
  | clearErrors
  | dismissScaffold
  | refresh
  | run
  /-- A command runs. -/
  | perform (i : Nat)
  | arrive (i : Nat)
  /-- A call fails on its way, before or after its command has run. -/
  | fail (i : Nat) (e : IpcError)
  deriving DecidableEq

namespace SitesPage

variable {D : Type} (api : SitesApi D) (p : SitesPage D)

def ask (call : SitesCall) : SitesPage D := { p with calls := p.calls ++ [call] }

/-- `load`, up to its await. -/
def load (after : AfterLoad) : SitesPage D := { p with store := p.store.reset }.ask (.list after none 0)

/-- `ApplyStore.refresh`, up to its await. -/
def refresh : SitesPage D := { p with apply := { p.apply with error := "" } }.ask (.plan none 0)

/-- `mutateRow`, and `open` that has the same guard, up to the await. -/
def beginRow (id : SiteId) (call : SitesCall) : SitesPage D :=
  if p.store.busy id then p else { p with store := p.store.beginRow id }.ask call

/-- The stored sites after a command. -/
def storeSites {α : Type} : Except IpcError (α × List SiteDto) → SitesPage D
  | .ok (_, stored) =>
      { p with stored := stored, siteChanges := p.siteChanges + 1, planChanges := p.planChanges + 1 }
  | .error _ => p

/-- A command runs. -/
def perform : SitesCall → SitesPage D × SitesCall
  | .list after _ _ => (p, .list after (some p.stored) p.siteChanges)
  | .create input createFolder _ =>
      let r := api.createSite input createFolder p.stored
      (p.storeSites r, .create input createFolder (some (r.map Prod.fst)))
  | .update id input _ =>
      let r := api.updateSite id input p.stored
      (p.storeSites r, .update id input (some (r.map fun _ => ())))
  | .remove id _ =>
      let r := api.deleteSite id p.stored
      (p.storeSites r, .remove id (some (r.map fun _ => ())))
  | .row id (.update input) _ =>
      let r := api.updateSite id input p.stored
      (p.storeSites r, .row id (.update input) (some (r.map fun _ => ())))
  | .row id .delete _ =>
      let r := api.deleteSite id p.stored
      (p.storeSites r, .row id .delete (some (r.map fun _ => ())))
  | .openSite id _ => (p, .openSite id (some (api.openSite id p.stored)))
  | .plan _ _ => (p, .plan (some (api.planConfigApply p.stored p.disk)) p.planChanges)
  | .apply _ =>
      match api.applyConfig p.stored p.disk with
      | .ok (outcome, disk) =>
          ({ p with disk := disk, planChanges := p.planChanges + 1 }, .apply (some (.ok outcome)))
      | .error e => (p, .apply (some (.error e)))

end SitesPage

/-- The command of a call has run. -/
def SitesCall.performed : SitesCall → Bool
  | .list _ answer _ => answer.isSome
  | .create _ _ answer => answer.isSome
  | .update _ _ answer | .remove _ answer | .row _ _ answer | .openSite _ answer => answer.isSome
  | .plan answer _ => answer.isSome
  | .apply answer => answer.isSome

namespace SitesPage

variable {D : Type} (api : SitesApi D) (p : SitesPage D)

/-- What a handler of the page does once its mutation is listed. -/
def listed : AfterLoad → SitesPage D
  | .mount => p
  | .save notice => { p with store := { p.store with lastScaffold := notice } }.refresh
  | .other => p.refresh

/-- A call's failure. -/
def callFailed (e : IpcError) : SitesCall → SitesPage D
  | .list after _ _ => { p with store := p.store.listed (.error e) }.listed after
  | .create _ _ _ | .update _ _ _ => { p with store := p.store.saveFailed e }
  | .remove _ _ => { p with store := { p.store with error := some e } }
  | .row id _ _ | .openSite id _ => { p with store := p.store.rowFailed id e }
  | .plan _ _ => { p with apply := p.apply.planned (.error e) }
  | .apply _ => { p with apply := { p.apply with error := errorMessage e, applying := false } }

/-- A call that has failed is over. -/
def fail (e : IpcError) (call : SitesCall) : SitesPage D := { p with failed := true }.callFailed e call

/-- A call's answer. -/
def arrive : SitesCall → Option (SitesPage D)
  | .list after (some sites) moment =>
      some ({ p with store := p.store.listed (.ok sites), sitesMoment := moment }.listed after)
  | .create input _ (some (.ok result)) => some (p.load (.save (scaffoldNotice input result)))
  | .update _ _ (some (.ok _)) => some (p.load (.save none))
  | .remove _ (some (.ok _)) => some (p.load .other)
  | .row id _ (some (.ok _)) => some ({ p with store := p.store.rowDone id }.load .other)
  | .openSite id (some (.ok _)) => some { p with store := p.store.rowDone id }
  | .plan (some (.ok changes)) moment =>
      some { p with apply := p.apply.planned (.ok changes), changesMoment := moment }
  | .apply (some (.ok outcome)) =>
      some { p with apply := { p.apply with outcome := some outcome, applying := false } }.refresh
  | .create input createFolder (some (.error e)) => some (p.fail e (.create input createFolder none))
  | .update id input (some (.error e)) => some (p.fail e (.update id input none))
  | .remove id (some (.error e)) => some (p.fail e (.remove id none))
  | .row id op (some (.error e)) => some (p.fail e (.row id op none))
  | .openSite id (some (.error e)) => some (p.fail e (.openSite id none))
  | .plan (some (.error e)) _ => some (p.fail e (.plan none 0))
  | .apply (some (.error e)) => some (p.fail e (.apply none))
  | .list _ none _ | .create _ _ none | .update _ _ none | .remove _ none | .row _ _ none
  | .openSite _ none | .plan none _ | .apply none => none

def next : SitesTurn → Option (SitesPage D)
  | .save none input createFolder =>
      some ({ p with store := p.store.reset }.ask (.create input createFolder none))
  | .save (some id) input _ => some ({ p with store := p.store.reset }.ask (.update id input none))
  | .remove id => some ({ p with store := p.store.reset }.ask (.remove id none))
  | .setEnabled site enabled => some (p.beginRow site.id (.row site.id (.update (site.input enabled)) none))
  | .removeRow id => some (p.beginRow id (.row id .delete none))
  | .openSite id => some (p.beginRow id (.openSite id none))
  | .clearErrors => some { p with store := p.store.reset }
  | .dismissScaffold => some { p with store := p.store.dismissScaffold }
  | .refresh => some p.refresh
  | .run =>
      if p.apply.applying then some p
      else some ({ p with apply := { p.apply with applying := true, error := "" } }.ask (.apply none))
  | .perform i => do
      let call ← p.calls[i]?
      if call.performed then none
      else
        let (p', call') := p.perform api call
        some { p' with calls := p.calls.set i call' }
  | .arrive i => do
      let call ← p.calls[i]?
      { p with calls := p.calls.eraseIdx i }.arrive call
  | .fail i e => do
      let call ← p.calls[i]?
      some ({ p with calls := p.calls.eraseIdx i }.fail e call)

/-- The page is mounted: it has asked for the list and for the plan. -/
structure Initial : Prop where
  calls : p.calls = [.list .mount none 0, .plan none 0]
  sitesMoment : p.sitesMoment < p.siteChanges
  changesMoment : p.changesMoment < p.planChanges
  failed : p.failed = false

end SitesPage

/-- The page as a system, over any backend. -/
def sitesPage {D : Type} (api : SitesApi D) : Lts.System (SitesPage D) SitesTurn where
  init := SitesPage.Initial
  next := SitesPage.next api

end OpenVHost.Window.Sites
