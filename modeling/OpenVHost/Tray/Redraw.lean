/-
# Small changes and a full redraw

`apply` as the calls that it makes on a sink. A sink is known by what it shows: the fields
of the model, and the row of each id.

* `perform_applyCalls` — the calls do to a menu what `apply` does.
* `agrees_apply` — a sink that shows the old model shows the new one afterwards, whatever
  has changed of the rows and of their order.
* `redraws_agree` — so over any sequence of models, a sink that is only ever changed shows
  what a sink shows that is rebuilt.
-/

import OpenVHost.Tray.Model

namespace OpenVHost.Tray

open Proc (ServiceId ServiceStatus)

/-! ### The calls -/

/-- The methods of `TraySink`. -/
inductive SinkCall where
  | setSummary (text : String)
  | setIcon (state : IconState)
  | setStartAllEnabled (enabled : Bool)
  | setStopAllEnabled (enabled : Bool)
  | setRowLabel (id : ServiceId) (label : String)
  | setRowEnabled (id : ServiceId) (enabled : Bool)
  | rebuild (model : TrayModel)
  deriving DecidableEq, Repr

def SinkCall.perform (menu : TrayModel) : SinkCall → TrayModel
  | setSummary text => menu.setSummary text
  | setIcon state => menu.setIcon state
  | setStartAllEnabled enabled => menu.setStartAllEnabled enabled
  | setStopAllEnabled enabled => menu.setStopAllEnabled enabled
  | setRowLabel id label => menu.setRowLabel id label
  | setRowEnabled id enabled => menu.setRowEnabled id enabled
  | rebuild model => menu.rebuild model

def performAll (menu : TrayModel) (calls : List SinkCall) : TrayModel :=
  calls.foldl SinkCall.perform menu

def fieldCalls (old new : TrayModel) : List SinkCall :=
  (if old.summary ≠ new.summary then [.setSummary new.summary] else []) ++
  ((if old.icon ≠ new.icon then [.setIcon new.icon] else []) ++
  ((if old.startAllEnabled ≠ new.startAllEnabled then [.setStartAllEnabled new.startAllEnabled] else []) ++
  (if old.stopAllEnabled ≠ new.stopAllEnabled then [.setStopAllEnabled new.stopAllEnabled] else [])))

def rowCalls (old : TrayModel) (newRow : ServiceRow) : List SinkCall :=
  match old.rows.find? fun row => row.id = newRow.id with
  | none => []
  | some oldRow =>
      (if oldRow.label ≠ newRow.label then [.setRowLabel newRow.id newRow.label] else []) ++
      (if oldRow.enabled ≠ newRow.enabled then [.setRowEnabled newRow.id newRow.enabled] else [])

/-- What `apply` calls on its sink, in order. -/
def applyCalls (old new : TrayModel) : List SinkCall :=
  if old = new then []
  else if sortedIds old ≠ sortedIds new then [.rebuild new]
  else fieldCalls old new ++ new.rows.flatMap (rowCalls old)

section Calls

variable {old new menu : TrayModel} {calls calls' : List SinkCall}

theorem performAll_append :
    performAll menu (calls ++ calls') = performAll (performAll menu calls) calls' :=
  List.foldl_append

theorem performAll_ite {p : Prop} [Decidable p] {call : SinkCall} :
    performAll menu (if p then [call] else []) = if p then call.perform menu else menu := by
  split <;> rfl

theorem performAll_fieldCalls : performAll menu (fieldCalls old new) = applyFields old new menu := by
  simp only [fieldCalls, performAll_append, performAll_ite]
  rfl

theorem performAll_rowCalls (newRow : ServiceRow) :
    performAll menu (rowCalls old newRow) = applyRow old menu newRow := by
  unfold rowCalls applyRow
  cases old.rows.find? fun row => row.id = newRow.id with
  | none => rfl
  | some oldRow =>
      simp only [performAll_append, performAll_ite]
      rfl

/-- **The calls do what `apply` does.** -/
theorem perform_applyCalls : performAll menu (applyCalls old new) = apply old new menu := by
  unfold applyCalls apply
  split
  · rfl
  · split
    · rfl
    · have hrows : ∀ (rows : List ServiceRow) (m : TrayModel),
          performAll m (rows.flatMap (rowCalls old)) = rows.foldl (applyRow old) m := by
        intro rows
        induction rows with
        | nil => exact fun m => rfl
        | cons row rows ih =>
            intro m
            rw [List.flatMap_cons, performAll_append, performAll_rowCalls, List.foldl_cons, ih]
      rw [performAll_append, performAll_fieldCalls, hrows]

end Calls

/-! ### What a sink shows -/

/-- The row of an id. -/
def TrayModel.row (menu : TrayModel) (id : ServiceId) : Option ServiceRow :=
  menu.rows.find? fun row => row.id = id

/-- Two sinks that show the same. -/
structure Agrees (menu menu' : TrayModel) : Prop where
  summary : menu.summary = menu'.summary
  icon : menu.icon = menu'.icon
  startAllEnabled : menu.startAllEnabled = menu'.startAllEnabled
  stopAllEnabled : menu.stopAllEnabled = menu'.stopAllEnabled
  row : ∀ id, menu.row id = menu'.row id

theorem Agrees.refl (menu : TrayModel) : Agrees menu menu := ⟨rfl, rfl, rfl, rfl, fun _ => rfl⟩

section Rows

variable {old new menu : TrayModel} {id id' : ServiceId} {rows : List ServiceRow}

theorem row_eq_none : menu.row id = none ↔ id ∉ menu.rows.map ServiceRow.id := by
  simp [TrayModel.row]

theorem find_setRow {f : ServiceRow → ServiceRow} (hf : ∀ row, (f row).id = row.id) :
    (setRow id f rows).find? (fun row => row.id = id') =
      if id' = id then (rows.find? fun row => row.id = id).map f
      else rows.find? fun row => row.id = id' := by
  induction rows with
  | nil => simp [setRow]
  | cons row rest ih =>
      by_cases hrow : row.id = id
      · by_cases hid : id' = id
        · simp [setRow, hrow, hf, hid]
        · simp [setRow, hrow, hf, hid, Ne.symm hid]
      · by_cases hid : id' = id
        · subst hid
          simpa [setRow, hrow] using ih
        · by_cases hrow' : row.id = id'
          · simp [setRow, hrow', hid]
          · simpa [setRow, hrow, hrow', hid] using ih

theorem row_setRowLabel (label : String) :
    (menu.setRowLabel id label).row id' =
      if id' = id then (menu.row id).map fun row => { row with label := label } else menu.row id' :=
  find_setRow fun _ => rfl

theorem row_setRowEnabled (enabled : Bool) :
    (menu.setRowEnabled id enabled).row id' =
      if id' = id then (menu.row id).map fun row => { row with enabled := enabled }
      else menu.row id' :=
  find_setRow fun _ => rfl

/-- One row: it is brought from the old model to the new, and the others stay. -/
theorem row_applyRow {o n : ServiceRow} (hold : old.row n.id = some o)
    (hmenu : menu.row n.id = some o) :
    (applyRow old menu n).row id = if id = n.id then some n else menu.row id := by
  have hid : o.id = n.id := by simpa using List.find?_some hold
  have hfind : old.rows.find? (fun row => row.id = n.id) = some o := hold
  obtain ⟨ni, nl, ne⟩ := n
  obtain ⟨oi, ol, oe⟩ := o
  have hid' : oi = ni := hid
  subst hid'
  simp only [applyRow, hfind]
  by_cases hl : ol = nl <;> by_cases he : oe = ne <;> by_cases hi : id = oi <;>
    simp [hl, he, hi, row_setRowLabel, row_setRowEnabled, hmenu]

theorem applyRow_fields (n : ServiceRow) :
    applyRow old menu n = { menu with rows := (applyRow old menu n).rows } := by
  unfold applyRow
  cases old.rows.find? fun row => row.id = n.id with
  | none => rfl
  | some o =>
      dsimp only
      split <;> split <;> rfl

theorem foldl_applyRow_fields (ns : List ServiceRow) :
    ns.foldl (applyRow old) menu = { menu with rows := (ns.foldl (applyRow old) menu).rows } := by
  induction ns generalizing menu with
  | nil => rfl
  | cons n ns ih =>
      rw [List.foldl_cons, ih, applyRow_fields n]

/-- **Row after row**: a row that has come is the new one, the others are as before. -/
theorem row_foldl_applyRow {ns : List ServiceRow} (hnodup : (ns.map ServiceRow.id).Nodup)
    (hold : ∀ n ∈ ns, ∃ o, old.row n.id = some o)
    (hmenu : ∀ n ∈ ns, menu.row n.id = old.row n.id) :
    (ns.foldl (applyRow old) menu).row id =
      (ns.find? fun n => n.id = id).or (menu.row id) := by
  induction ns generalizing menu with
  | nil => rfl
  | cons n ns ih =>
      rw [List.map_cons, List.nodup_cons] at hnodup
      obtain ⟨hnew, hnodup⟩ := hnodup
      obtain ⟨o, ho⟩ := hold n List.mem_cons_self
      have hstep : ∀ id, (applyRow old menu n).row id = if id = n.id then some n else menu.row id :=
        fun id => row_applyRow ho ((hmenu n List.mem_cons_self).trans ho)
      have hrest : ∀ m ∈ ns, (applyRow old menu n).row m.id = old.row m.id := by
        intro m hm
        have hne : m.id ≠ n.id := fun heq => hnew (List.mem_map.mpr ⟨m, hm, heq⟩)
        rw [hstep, if_neg hne]
        exact hmenu m (List.mem_cons_of_mem n hm)
      rw [List.foldl_cons, ih hnodup (fun m hm => hold m (List.mem_cons_of_mem n hm)) hrest, hstep]
      by_cases hid : n.id = id
      · subst hid
        have hnone : ns.find? (fun m => m.id = n.id) = none := by
          simpa using hnew
        simp [hnone]
      · simp [hid, Ne.symm hid]

/-- The fields are brought from the old model to the new. -/
theorem applyFields_agrees (h : Agrees menu old) :
    applyFields old new menu = { new with rows := menu.rows } := by
  have hmenu : menu = { old with rows := menu.rows } := by
    obtain ⟨hs, hi, hsa, hso, -⟩ := h
    cases menu
    cases old
    simp_all
  have hfields : applyFields old new menu = { applyFields old new old with rows := menu.rows } := by
    rw [hmenu]
    unfold applyFields
    dsimp only
    split <;> split <;> split <;> split <;> rfl
  rw [hfields, applyFields_drawn]

/-- **A sink that shows the old model shows the new one afterwards.** -/
theorem agrees_apply (h : Agrees menu old) (hnew : (new.rows.map ServiceRow.id).Nodup) :
    Agrees (apply old new menu) new := by
  unfold apply
  split
  next heq => exact heq ▸ h
  next =>
    split
    next => exact Agrees.refl new
    next hids =>
      rw [not_not] at hids
      have hperm : (old.rows.map ServiceRow.id).Perm (new.rows.map ServiceRow.id) :=
        ((List.mergeSort_perm _ _).symm.trans (.of_eq hids)).trans (List.mergeSort_perm _ _)
      have hold : ∀ n ∈ new.rows, ∃ o, old.row n.id = some o := by
        intro n hn
        apply Option.ne_none_iff_exists'.mp
        intro hnone
        exact row_eq_none.mp hnone (hperm.mem_iff.mpr (List.mem_map.mpr ⟨n, hn, rfl⟩))
      have hfields : ({ new with rows := menu.rows } : TrayModel).row = menu.row := rfl
      rw [applyFields_agrees h, foldl_applyRow_fields]
      refine ⟨rfl, rfl, rfl, rfl, fun id => ?_⟩
      have hrow : (new.rows.foldl (applyRow old) { new with rows := menu.rows }).row id =
          (new.rows.find? fun n => n.id = id).or (menu.row id) :=
        row_foldl_applyRow hnew hold fun n _ => (congrFun hfields n.id).trans (h.row n.id)
      refine hrow.trans ?_
      cases hfind : new.row id with
      | some n =>
          have hsome : new.rows.find? (fun n => n.id = id) = some n := hfind
          rw [hsome, Option.some_or]
      | none =>
          -- an id that the new model does not have, the old one did not have either
          have hnone : new.rows.find? (fun n => n.id = id) = none := hfind
          have hgone : old.row id = none := row_eq_none.mpr fun hmem =>
            row_eq_none.mp hfind (hperm.mem_iff.mp hmem)
          rw [hnone, Option.none_or, h.row, hgone]

end Rows

/-! ### Sequences of models -/

/-- The menus that a sink shows which is brought from each model to the next. -/
def redraws (old menu : TrayModel) : List TrayModel → List TrayModel
  | [] => []
  | new :: rest =>
      let menu := performAll menu (applyCalls old new)
      menu :: redraws new menu rest

theorem redraws_agree_of {old menu : TrayModel} {models : List TrayModel} (h : Agrees menu old)
    (hnodup : ∀ model ∈ models, (model.rows.map ServiceRow.id).Nodup) :
    List.Forall₂ Agrees (redraws old menu models) models := by
  induction models generalizing old menu with
  | nil => exact .nil
  | cons new rest ih =>
      have hstep : Agrees (performAll menu (applyCalls old new)) new := by
        rw [perform_applyCalls]
        exact agrees_apply h (hnodup new List.mem_cons_self)
      exact .cons hstep (ih hstep fun model hmodel => hnodup model (List.mem_cons_of_mem new hmodel))

/-- **The tray's updates equal a full redraw.** After each step of any sequence of models of
services with distinct ids, a sink that began with the first model shows what a sink shows
that is rebuilt from the last one alone; and between equal models nothing is called. -/
theorem redraws_agree (first : List ServiceStatus × BulkState)
    (looks : List (List ServiceStatus × BulkState))
    (hdistinct : ∀ look ∈ looks, (look.1.map ServiceStatus.id).Nodup) :
    List.Forall₂ (fun menu look => ∀ blank : TrayModel,
        Agrees menu (blank.rebuild (trayModel look.1 look.2)))
      (redraws (trayModel first.1 first.2) (trayModel first.1 first.2)
        (looks.map fun look => trayModel look.1 look.2)) looks ∧
      ∀ model, applyCalls model model = [] := by
  constructor
  · have hnodup : ∀ model ∈ looks.map (fun look => trayModel look.1 look.2),
        (model.rows.map ServiceRow.id).Nodup := by
      intro model hmodel
      obtain ⟨look, hlook, rfl⟩ := List.mem_map.mp hmodel
      rw [ids_trayModel]
      exact hdistinct look hlook
    have hmodels := redraws_agree_of (Agrees.refl (trayModel first.1 first.2)) hnodup
    rw [List.forall₂_map_right_iff] at hmodels
    exact hmodels.imp fun menu look h blank => h
  · exact fun model => if_pos rfl

def stoppedRow (id : ServiceId) : ServiceStatus := ⟨id, id, none, none, .stopped⟩

/-- Two services change places, one of them comes up, and then the other one is gone. -/
def swapLooks : List (List ServiceStatus × BulkState) :=
  [([stoppedRow "mysql-8.4", { stoppedRow "nginx" with state := .running }], .busy),
    ([{ stoppedRow "nginx" with state := .running }], .idle)]

theorem redraws_agree_swap :
    List.Forall₂ (fun menu look => ∀ blank : TrayModel,
        Agrees menu (blank.rebuild (trayModel look.1 look.2)))
      (redraws (trayModel [stoppedRow "nginx", stoppedRow "mysql-8.4"] .idle)
        (trayModel [stoppedRow "nginx", stoppedRow "mysql-8.4"] .idle)
        (swapLooks.map fun look => trayModel look.1 look.2)) swapLooks :=
  (redraws_agree ([stoppedRow "nginx", stoppedRow "mysql-8.4"], .idle) swapLooks (by decide)).1

end OpenVHost.Tray
