/-
# The tray's menu

What the menu says of the services, and the smallest change that brings a menu from
one model to the next.

* `trayModel` — the whole menu from the rows of a snapshot.
* `apply` — the calls on the menu where the model has changed.
* `apply_drawn` — a menu that shows the old model shows the new one afterwards.
-/

import Mathlib.Data.List.Pairwise
import Mathlib.Data.List.Sort
import Mathlib.Data.String.Basic
import OpenVHost.Proc.Supervisor

namespace OpenVHost.Tray

open Proc (ServiceId ServiceState ServiceStatus)

/-! ### The model -/

def demoTickerId : ServiceId := "demo-ticker"

inductive IconState where
  | stopped
  | running
  | starting
  | failed
  deriving DecidableEq, Repr

/-- What a click on a row does. -/
inductive Action where
  | start (id : ServiceId)
  | stop (id : ServiceId)
  | retry (id : ServiceId)
  | none
  deriving DecidableEq, Repr

inductive BulkState where
  | idle
  | busy
  deriving DecidableEq, Repr

structure ServiceRow where
  id : ServiceId
  label : String
  enabled : Bool
  deriving DecidableEq, Repr

structure TrayModel where
  summary : String
  rows : List ServiceRow
  startAllEnabled : Bool
  stopAllEnabled : Bool
  icon : IconState
  deriving DecidableEq, Repr

def verbAndStateName : ServiceState → String × String
  | .stopped => ("Start", "Stopped")
  | .starting => ("Stop", "Starting")
  | .running => ("Stop", "Running")
  | .failed _ _ => ("Retry", "Failed")

def serviceRow (status : ServiceStatus) : ServiceRow :=
  let (verb, stateName) := verbAndStateName status.state
  { id := status.id
    label := verb ++ " " ++ status.displayName ++ " — " ++ stateName
    enabled := match status.state with | .starting => false | _ => true }

def toggleAction (id : ServiceId) : ServiceState → Action
  | .stopped => .start id
  | .starting => .none
  | .running => .stop id
  | .failed _ _ => .retry id

def isPending (state : ServiceState) : Bool :=
  match state with
  | .stopped | .failed _ _ => false
  | _ => true

/-- The pass over the services that are not up, with the endpoints that are taken. -/
def claimEndpoints : List String → List ServiceStatus → List ServiceId
  | _, [] => []
  | seen, s :: rest =>
      if s.id = demoTickerId ∨ isPending s.state = true then claimEndpoints seen rest
      else
        match s.endpoint with
        | none => s.id :: claimEndpoints seen rest
        | some endpoint =>
            if endpoint ∈ seen then claimEndpoints seen rest
            else s.id :: claimEndpoints (endpoint :: seen) rest

/-- What "Start all" starts: no service whose endpoint another one has or claims. -/
def bulkStartIds (services : List ServiceStatus) : List ServiceId :=
  claimEndpoints ((services.filter fun s => isPending s.state).filterMap ServiceStatus.endpoint) services

def iconForState : ServiceState → IconState
  | .stopped => .stopped
  | .running => .running
  | .starting => .starting
  | .failed _ _ => .failed

def severity : IconState → Nat
  | .stopped => 0
  | .running => 1
  | .starting => 2
  | .failed => 3

/-- `max_by_key(severity)`: the last one of the highest. -/
def mostSevere : List IconState → Option IconState
  | [] => none
  | icon :: rest => some <|
      match mostSevere rest with
      | none => icon
      | some other => if severity icon ≤ severity other then other else icon

def aggregateIcon (services : List ServiceStatus) : IconState :=
  (mostSevere (services.map fun s => iconForState s.state)).getD .stopped

def summaryLine (services : List ServiceStatus) (icon : IconState) : String :=
  if services = [] then "No services registered"
  else
    let total := services.length
    let count := fun state => services.countP fun s => iconForState s.state = state
    match icon with
    | .failed => toString (count .failed) ++ " of " ++ toString total ++ " failed"
    | .starting => toString (count .starting) ++ " of " ++ toString total ++ " starting"
    | .running =>
        if count .running = total then "All running"
        else toString (count .running) ++ " of " ++ toString total ++ " running"
    | .stopped => "All stopped"

def trayModel (services : List ServiceStatus) (bulk : BulkState) : TrayModel :=
  let icon := aggregateIcon services
  { summary := summaryLine services icon
    rows := services.map serviceRow
    startAllEnabled := bulk = .idle ∧ bulkStartIds services ≠ []
    stopAllEnabled := bulk = .idle ∧ services.any fun s => isPending s.state
    icon := icon }

/-- A row but for its pid, which the menu does not show. -/
def face (row : ServiceStatus) : ServiceStatus := { row with pid := none }

section Faces

variable {services services' : List ServiceStatus}

theorem claimEndpoints_face (seen : List String) :
    claimEndpoints seen (services.map face) = claimEndpoints seen services := by
  induction services generalizing seen with
  | nil => rfl
  | cons s rest ih =>
      simp only [List.map_cons, claimEndpoints, ih]
      rfl

theorem bulkStartIds_face : bulkStartIds (services.map face) = bulkStartIds services := by
  rw [bulkStartIds, claimEndpoints_face, List.filter_map, List.filterMap_map]
  rfl

theorem aggregateIcon_face : aggregateIcon (services.map face) = aggregateIcon services := by
  rw [aggregateIcon, List.map_map]
  rfl

theorem summaryLine_face (icon : IconState) :
    summaryLine (services.map face) icon = summaryLine services icon := by
  simp only [summaryLine, List.map_eq_nil_iff, List.length_map, List.countP_map]
  rfl

/-- **The menu depends on the rows' faces alone.** -/
theorem trayModel_face (bulk : BulkState) : trayModel (services.map face) bulk = trayModel services bulk := by
  simp only [trayModel, aggregateIcon_face, summaryLine_face, bulkStartIds_face, List.map_map,
    List.any_map]
  rfl

theorem trayModel_congr (h : services.map face = services'.map face) (bulk : BulkState) :
    trayModel services bulk = trayModel services' bulk := by
  rw [← trayModel_face, h, trayModel_face]

theorem ids_trayModel (bulk : BulkState) :
    (trayModel services bulk).rows.map ServiceRow.id = services.map ServiceStatus.id := by
  simp only [trayModel, List.map_map]
  rfl

end Faces

/-! ### Changes to the menu -/

/-- The first row of an id. -/
def setRow (id : ServiceId) (f : ServiceRow → ServiceRow) : List ServiceRow → List ServiceRow
  | [] => []
  | row :: rest => if row.id = id then f row :: rest else row :: setRow id f rest

/-! The methods of `TraySink`, on a menu that shows a model. -/

namespace TrayModel

variable (menu : TrayModel)

def setSummary (text : String) : TrayModel := { menu with summary := text }

def setIcon (icon : IconState) : TrayModel := { menu with icon := icon }

def setStartAllEnabled (enabled : Bool) : TrayModel := { menu with startAllEnabled := enabled }

def setStopAllEnabled (enabled : Bool) : TrayModel := { menu with stopAllEnabled := enabled }

def setRowLabel (id : ServiceId) (label : String) : TrayModel :=
  { menu with rows := setRow id (fun row => { row with label := label }) menu.rows }

def setRowEnabled (id : ServiceId) (enabled : Bool) : TrayModel :=
  { menu with rows := setRow id (fun row => { row with enabled := enabled }) menu.rows }

/-- The rows from the model, then the rest. -/
def rebuild (model : TrayModel) : TrayModel :=
  ((({ menu with rows := model.rows }.setSummary model.summary).setIcon model.icon).setStartAllEnabled
    model.startAllEnabled).setStopAllEnabled model.stopAllEnabled

end TrayModel

/-- One row of the new model, against the old one's. -/
def applyRow (old : TrayModel) (menu : TrayModel) (newRow : ServiceRow) : TrayModel :=
  match old.rows.find? fun row => row.id = newRow.id with
  | none => menu
  | some oldRow =>
      let menu := if oldRow.label ≠ newRow.label then menu.setRowLabel newRow.id newRow.label else menu
      if oldRow.enabled ≠ newRow.enabled then menu.setRowEnabled newRow.id newRow.enabled else menu

def sortedIds (model : TrayModel) : List ServiceId :=
  (model.rows.map ServiceRow.id).mergeSort (· ≤ ·)

/-- The fields that have changed, the rows aside. -/
def applyFields (old new : TrayModel) (menu : TrayModel) : TrayModel :=
  let menu := if old.summary ≠ new.summary then menu.setSummary new.summary else menu
  let menu := if old.icon ≠ new.icon then menu.setIcon new.icon else menu
  let menu :=
    if old.startAllEnabled ≠ new.startAllEnabled then menu.setStartAllEnabled new.startAllEnabled else menu
  if old.stopAllEnabled ≠ new.stopAllEnabled then menu.setStopAllEnabled new.stopAllEnabled else menu

def apply (old new : TrayModel) (menu : TrayModel) : TrayModel :=
  if old = new then menu
  else if sortedIds old ≠ sortedIds new then menu.rebuild new
  else new.rows.foldl (applyRow old) (applyFields old new menu)

section Apply

variable {old new menu : TrayModel} {id : ServiceId}

theorem setRow_append {f : ServiceRow → ServiceRow} {before after : List ServiceRow} {row : ServiceRow}
    (hbefore : id ∉ before.map ServiceRow.id) (hrow : row.id = id) :
    setRow id f (before ++ row :: after) = before ++ f row :: after := by
  induction before with
  | nil => simp [setRow, hrow]
  | cons b rest ih =>
      rw [List.map_cons, List.mem_cons, not_or] at hbefore
      simp [setRow, Ne.symm hbefore.1, ih hbefore.2]

theorem find_append {before after : List ServiceRow} {row : ServiceRow}
    (hbefore : id ∉ before.map ServiceRow.id) (hrow : row.id = id) :
    (before ++ row :: after).find? (fun r => r.id = id) = some row := by
  induction before with
  | nil => simp [hrow]
  | cons b rest ih =>
      rw [List.map_cons, List.mem_cons, not_or] at hbefore
      simp [Ne.symm hbefore.1, ih hbefore.2]

/-- A row of the menu that shows the old row shows the new one afterwards. -/
theorem applyRow_drawn {before before' after : List ServiceRow} {o n : ServiceRow}
    (hold : old.rows = before ++ o :: after) (hmenu : menu.rows = before' ++ o :: after)
    (hid : o.id = n.id) (hids : before'.map ServiceRow.id = before.map ServiceRow.id)
    (hnew : n.id ∉ before.map ServiceRow.id) :
    applyRow old menu n = { menu with rows := before' ++ n :: after } := by
  have hnew' : n.id ∉ before'.map ServiceRow.id := by rwa [hids]
  have hfind : old.rows.find? (fun row => row.id = n.id) = some o := by
    rw [hold]
    exact find_append hnew hid
  obtain ⟨ni, nl, ne⟩ := n
  obtain ⟨oi, ol, oe⟩ := o
  have hid' : oi = ni := hid
  subst hid'
  simp only [applyRow, hfind]
  by_cases hl : ol = nl <;> by_cases he : oe = ne
  · subst hl he
    simp [← hmenu]
  · simp [hl, he, TrayModel.setRowEnabled, hmenu, setRow_append hnew']
  · simp [hl, he, TrayModel.setRowLabel, hmenu, setRow_append hnew']
  · simp [hl, he, TrayModel.setRowLabel, TrayModel.setRowEnabled, hmenu, setRow_append hnew']

/-- Row after row, over a menu whose remaining rows are the old ones. -/
theorem foldl_applyRow_drawn (before before' : List ServiceRow) {os ns : List ServiceRow}
    (hold : old.rows = before ++ os)
    (hmenu : menu.rows = before' ++ os) (hids : before'.map ServiceRow.id = before.map ServiceRow.id)
    (hsame : os.map ServiceRow.id = ns.map ServiceRow.id)
    (hnodup : (old.rows.map ServiceRow.id).Nodup) :
    ns.foldl (applyRow old) menu = { menu with rows := before' ++ ns } := by
  induction ns generalizing before before' os menu with
  | nil =>
      have hos : os = [] := by simpa using hsame
      subst hos
      rw [List.foldl_nil, ← hmenu]
  | cons n ns ih =>
      cases os with
      | nil => cases hsame
      | cons o os =>
          rw [List.map_cons, List.map_cons, List.cons.injEq] at hsame
          obtain ⟨hid, hsame⟩ := hsame
          have hnew : n.id ∉ before.map ServiceRow.id := by
            rw [hold, List.map_append, List.nodup_append] at hnodup
            intro hmem
            exact hnodup.2.2 n.id hmem o.id (by simp) hid.symm
          have hstep := applyRow_drawn hold hmenu hid hids hnew
          rw [List.foldl_cons, hstep]
          have happend : ∀ (l : List ServiceRow) (x : ServiceRow) (xs : List ServiceRow),
              l ++ x :: xs = (l ++ [x]) ++ xs := fun l x xs => by simp
          have hdrawn : ({ menu with rows := before' ++ n :: os } : TrayModel).rows =
              (before' ++ [n]) ++ os := happend _ _ _
          have hrest := ih (before ++ [o]) (before' ++ [n]) (hold.trans (happend _ _ _)) hdrawn
            (by simp [hids, hid]) hsame
          rw [hrest, ← happend]

theorem applyFields_drawn (old new : TrayModel) :
    applyFields old new old = { new with rows := old.rows } := by
  obtain ⟨os, orows, osa, oso, oi⟩ := old
  obtain ⟨ns, nrows, nsa, nso, ni⟩ := new
  by_cases h₁ : os = ns <;> by_cases h₂ : oi = ni <;> by_cases h₃ : osa = nsa <;>
    by_cases h₄ : oso = nso <;>
    simp [applyFields, h₁, h₂, h₃, h₄, TrayModel.setSummary, TrayModel.setIcon, TrayModel.setStartAllEnabled,
      TrayModel.setStopAllEnabled]

/-- **A menu that shows the old model shows the new one afterwards.** -/
theorem apply_drawn (hold : (old.rows.map ServiceRow.id).Pairwise (· < ·))
    (hnew : (new.rows.map ServiceRow.id).Pairwise (· < ·)) : apply old new old = new := by
  unfold apply
  split
  next heq => exact heq
  next =>
    split
    next => rfl
    next hids =>
      rw [not_not] at hids
      have hperm : (old.rows.map ServiceRow.id).Perm (new.rows.map ServiceRow.id) :=
        ((List.mergeSort_perm _ _).symm.trans (.of_eq hids)).trans (List.mergeSort_perm _ _)
      have hsame : old.rows.map ServiceRow.id = new.rows.map ServiceRow.id :=
        hperm.eq_of_pairwise (fun a b _ _ h h' => absurd (h.trans h') (lt_irrefl a)) hold hnew
      have hnodup : (old.rows.map ServiceRow.id).Nodup := hold.imp fun hlt => ne_of_lt hlt
      rw [applyFields_drawn]
      exact foldl_applyRow_drawn [] [] rfl rfl rfl hsame hnodup

end Apply

end OpenVHost.Tray
