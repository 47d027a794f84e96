/-
# The list of services

`snapshot` lists the rows of the registry by their ids. Which rows there are is
changed by `register` and `unregister` alone, and so is what a row says beside its
state, its pid and its log.

* `specs_next` — what a step does to the specs of the rows.
* `Listing` — a supervisor and the ids of its rows, in order.
* `rowsOf_snapshot` — the list says of every service what the registry has.
-/

import Mathlib.Data.String.Basic
import Mathlib.Data.List.Sort
import OpenVHost.Proc.Events

namespace OpenVHost.Proc

/-! ### Specs -/

/-- The specs of the rows. -/
def World.specs (w : World) : ServiceId → Option ServiceSpec := fun id =>
  (w.entries id).map Entry.spec

/-- What a step does to the specs. -/
inductive Respecs (w : World) (a : Action) (w' : World) : Prop where
  | same (h : w'.specs = w.specs)
  | register (spec : ServiceSpec) (hid : w.writes a = some spec.id) (howes : ∃ b, w'.owes b ≠ [])
      (h : w'.specs = Function.update w.specs spec.id (some spec))
  | unregister (id : ServiceId) (hid : w.writes a = some id) (howes : ∃ b, w'.owes b ≠ [])
      (h : w'.specs = Function.update w.specs id none)

section Specs

variable {w w' : World} {a : Action} {id : ServiceId}

theorem specs_modify {f : Entry → Entry} (hf : ∀ e, (f e).spec = e.spec) :
    (w.modify id f).specs = w.specs := by
  funext i
  rw [World.specs, World.entries_modify]
  split
  · next hi =>
      subst hi
      rw [Option.map_map, show Entry.spec ∘ f = Entry.spec from funext hf]
      rfl
  · rfl

theorem specs_setState (state : ServiceState) : (w.setState id state).specs = w.specs :=
  specs_modify fun e => by split <;> rfl

theorem specs_insert (e : Entry) :
    (w.insert id e).specs = Function.update w.specs id (some e.spec) := by
  funext i
  by_cases hi : i = id
  · subst hi
    simp [World.specs, World.insert]
  · simp [World.specs, World.insert, hi]

/-- A step of a call. -/
theorem specs_stepCall {k : CallId} {c : Call} {p : World × Call} (hc : w.calls k = some c)
    (h : w.stepCall c = some p) : Respecs w (.caller k) (p.1.setCall k p.2) := by
  cases c with
  | returned => cases h
  | emit event next =>
      cases h
      exact .same rfl
  | log i line next =>
      cases h
      exact .same (specs_modify fun _ => rfl)
  | register spec =>
      cases h
      unfold World.register
      split
      · exact .same rfl
      next hlive =>
        refine .register spec ?_ ⟨.caller k, ?_⟩ (specs_insert _)
        · simp only [World.writes, hc, World.liveAt, hlive]
          rfl
        · rw [World.owes_setCall, if_pos rfl]
          exact List.cons_ne_nil _ _
  | unregister i =>
      cases h
      unfold World.unregister
      split
      · exact .same rfl
      next e he =>
        split
        · exact .same rfl
        next hterminal =>
          have howes : ∃ b, ((w.remove i).setCall k
              (.emit (.unregistered i) (.returned (.ok ())))).owes b ≠ [] :=
            ⟨.caller k, by rw [World.owes_setCall, if_pos rfl]; exact List.cons_ne_nil _ _⟩
          refine .unregister i ?_ howes ?_
          · simp only [World.writes, hc, World.idleAt, he, Option.any_some]
            cases hs : e.state <;> simp [hs, World.checkTerminal, ServiceState.live] at hterminal ⊢
          · funext j
            by_cases hj : j = i
            · subst hj
              simp [World.specs, World.remove, World.setCall]
            · simp [World.specs, World.remove, World.setCall, hj]
  | start i =>
      cases h
      unfold World.start
      split
      · exact .same rfl
      next e he =>
        split
        · exact .same rfl
        · refine .same ((specs_insert _).trans ?_)
          show Function.update w.specs i (some e.spec) = w.specs
          rw [Function.update_eq_self_iff]
          simp [World.specs, he]
  | stop i =>
      cases h
      unfold World.stop
      split
      · exact .same rfl
      · split <;> exact .same rfl
  | spawn r =>
      cases h
      unfold World.spawnTask
      split
      · exact .same rfl
      · split <;> exact .same rfl
  | trySend control =>
      cases control with
      | none =>
          cases h
          exact .same rfl
      | some r =>
          cases h
          unfold World.trySend
          split
          · exact .same rfl
          · split <;> exact .same rfl

theorem specs_stepTask {r : RunId} {run : Run} {answer : Answer}
    (h : w.stepTask r run answer = some w') : w'.specs = w.specs := by
  have hexit : ∀ next, w.onExit r run next = some w' → w'.specs = w.specs := by
    intro next h
    unfold World.onExit at h
    split at h
    · cases h
      rfl
    · cases h
    · cases h
  unfold World.stepTask at h
  split at h
  case h_3 pid _ =>
    cases h
    exact specs_modify fun _ => rfl
  case h_25 source line _ _ =>
    cases h
    exact specs_modify fun _ => rfl
  case h_4 | h_23 =>
    cases h
    rfl
  case h_6 =>
    split at h
    · cases h
      rfl
    · exact hexit _ h
    · cases h
      rfl
    · cases h
  case h_9 | h_12 | h_14 | h_16 | h_18 => exact hexit _ h
  case h_13 | h_24 =>
    cases h
    exact specs_setState _
  case h_15 | h_19 =>
    split at h
    · cases h
      rfl
    · cases h
  case h_27 => cases h
  all_goals
    cases h
    rfl

/-- **What a step does to the specs of the rows.** -/
theorem specs_next (h : w.next a = some w') : Respecs w a w' := by
  cases a with
  | call c =>
      simp only [World.next, Option.ite_none_right_eq_some, Option.some.injEq] at h
      obtain ⟨-, rfl⟩ := h
      exact .same rfl
  | caller k =>
      obtain ⟨c, hc, h⟩ := Option.bind_eq_some_iff.mp h
      obtain ⟨⟨w₁, c'⟩, hstep, h⟩ := Option.bind_eq_some_iff.mp h
      cases h
      exact specs_stepCall hc hstep
  | task r answer =>
      obtain ⟨run, hr, h⟩ := Option.bind_eq_some_iff.mp h
      exact .same (specs_stepTask h)
  | exit r _ | eof r _ =>
      obtain ⟨run, hr, h⟩ := Option.bind_eq_some_iff.mp h
      simp only [Option.ite_none_right_eq_some, Option.some.injEq] at h
      obtain ⟨-, rfl⟩ := h
      exact .same rfl
  | read r source line =>
      obtain ⟨run, hr, h⟩ := Option.bind_eq_some_iff.mp h
      simp only [Option.ite_none_right_eq_some, Option.some.injEq] at h
      obtain ⟨-, rfl⟩ := h
      exact .same (specs_modify fun _ => rfl)
  | readerEmit r source =>
      obtain ⟨run, hr, h⟩ := Option.bind_eq_some_iff.mp h
      split at h
      · cases h
        exact .same rfl
      · cases h
  | tick =>
      cases h
      exact .same rfl

/-- Whether there is a row changes only where the row is written. -/
theorem isSome_next (h : w.next a = some w') (hid : w.writes a ≠ some id) :
    (w'.entries id).isSome = (w.entries id).isSome := by
  have hspec : w'.specs id = w.specs id := by
    cases specs_next h with
    | same h => rw [h]
    | register spec hwrites _ h =>
        have hne : id ≠ spec.id := fun hi => hid (hi ▸ hwrites)
        rw [h, Function.update_of_ne hne]
    | unregister i hwrites _ h =>
        have hne : id ≠ i := fun hi => hid (hi ▸ hwrites)
        rw [h, Function.update_of_ne hne]
  have hsome := congrArg Option.isSome hspec
  simpa [World.specs] using hsome

/-- **A step that changes what the rows say** leaves an event to broadcast. -/
theorem faces_next (hs : Sound w) (hcalls : CallsFresh w) (h : w.next a = some w') :
    w'.specs = w.specs ∧ w'.rows = w.rows ∨ ∃ b, w'.owes b ≠ [] := by
  cases specs_next h with
  | register spec _ howes _ => exact .inr howes
  | unregister id _ howes _ => exact .inr howes
  | same hspecs =>
      cases next_told hs hcalls h with
      | silent hrows _ _ => exact .inl ⟨hspecs, hrows⟩
      | emit b e later hrows _ _ _ => exact .inl ⟨hspecs, hrows⟩
      | write b e _ _ _ _ howes =>
          refine .inr ⟨b, ?_⟩
          rw [howes b, if_pos rfl]
          exact List.cons_ne_nil _ _

end Specs

/-! ### Rows and their services -/

/-- Each row is of the service that it stands under. -/
def World.Filed (w : World) : Prop := ∀ id spec, w.specs id = some spec → spec.id = id

theorem filed_next {w w' : World} {a : Action} (hw : w.Filed) (h : w.next a = some w') :
    w'.Filed := by
  intro id spec hs
  cases specs_next h with
  | same heq =>
      rw [heq] at hs
      exact hw id spec hs
  | register spec' hid _ heq =>
      rw [heq] at hs
      by_cases hi : id = spec'.id
      · subst hi
        rw [Function.update_self] at hs
        cases hs
        rfl
      · rw [Function.update_of_ne hi] at hs
        exact hw id spec hs
  | unregister i hid _ heq =>
      rw [heq] at hs
      by_cases hi : id = i
      · subst hi
        rw [Function.update_self] at hs
        cases hs
      · rw [Function.update_of_ne hi] at hs
        exact hw id spec hs

theorem filed_of_reachable {w : World} : supervisor.Reachable w → w.Filed := by
  apply Lts.System.Reaches.invariant
  · rintro w ⟨hentries, -⟩ id spec hs
    rw [World.specs, hentries id] at hs
    cases hs
  · exact fun w a w' hw _ hn => filed_next hw hn

/-! ### The list -/

/-- The supervisor, and the ids of its rows in their order. -/
structure Listing where
  world : World
  ids : List ServiceId

namespace Listing

/-- The ids after the row of one of them was written. -/
def refile (ids : List ServiceId) (id : ServiceId) (there : Bool) : List ServiceId :=
  if there then if id ∈ ids then ids else ids.orderedInsert (· ≤ ·) id else ids.erase id

def next (l : Listing) (a : Action) : Option Listing :=
  (l.world.next a).map fun w =>
    ⟨w, match l.world.writes a with
      | none => l.ids
      | some id => refile l.ids id (w.entries id).isSome⟩

/-- `snapshot` -/
def snapshot (l : Listing) : List ServiceStatus := l.ids.filterMap l.world.snapshot

/-- The ids are those of the rows, in order. -/
structure Sound (l : Listing) : Prop where
  sorted : l.ids.Pairwise (· < ·)
  ids : ∀ id, id ∈ l.ids ↔ (l.world.entries id).isSome = true
  filed : l.world.Filed

section Sound

variable {l l' : Listing} {a : Action} {id : ServiceId}

theorem next_world (h : l.next a = some l') : l.world.next a = some l'.world := by
  obtain ⟨w, hw, rfl⟩ := Option.map_eq_some_iff.mp h
  exact hw

theorem sorted_orderedInsert {ids : List ServiceId} (h : ids.Pairwise (· < ·)) (hid : id ∉ ids) :
    (ids.orderedInsert (· ≤ ·) id).Pairwise (· < ·) := by
  induction ids with
  | nil => exact List.pairwise_singleton _ _
  | cons x xs ih =>
      obtain ⟨hx, hxs⟩ := List.pairwise_cons.mp h
      rw [List.mem_cons, not_or] at hid
      rw [List.orderedInsert_cons]
      split
      next hle =>
        have hlt : id < x := lt_of_le_of_ne hle hid.1
        refine List.pairwise_cons.mpr ⟨fun y hy => ?_, h⟩
        rcases List.mem_cons.mp hy with rfl | hy
        · exact hlt
        · exact hlt.trans (hx y hy)
      next hle =>
        refine List.pairwise_cons.mpr ⟨fun y hy => ?_, ih hxs hid.2⟩
        rcases (List.mem_orderedInsert _).mp hy with rfl | hy
        · exact lt_of_not_ge hle
        · exact hx y hy

theorem sorted_refile {ids : List ServiceId} (h : ids.Pairwise (· < ·)) (there : Bool) :
    (refile ids id there).Pairwise (· < ·) := by
  unfold refile
  split
  · split
    · exact h
    next hid => exact sorted_orderedInsert h hid
  · exact h.sublist List.erase_sublist

theorem mem_refile {ids : List ServiceId} (h : ids.Pairwise (· < ·)) (there : Bool)
    (i : ServiceId) : i ∈ refile ids id there ↔ if i = id then there = true else i ∈ ids := by
  have hnodup : ids.Nodup := h.imp fun hlt => ne_of_lt hlt
  by_cases hi : i = id
  · subst hi
    cases there with
    | true =>
        unfold refile
        by_cases hid : i ∈ ids <;> simp [hid]
    | false => simp [refile, hnodup.not_mem_erase]
  · cases there with
    | true =>
        unfold refile
        by_cases hid : id ∈ ids <;> simp [hid, hi]
    | false => simp [refile, hi, List.mem_erase_of_ne hi]

theorem sound_next (hl : l.Sound) (h : l.next a = some l') : l'.Sound := by
  obtain ⟨w, hw, rfl⟩ := Option.map_eq_some_iff.mp h
  have hfiled := filed_next hl.filed hw
  cases hid : l.world.writes a with
  | none =>
      refine ⟨hl.sorted, fun id => ?_, hfiled⟩
      have hsome : (w.entries id).isSome = (l.world.entries id).isSome :=
        isSome_next hw (by simp [hid])
      exact (hl.ids id).trans (by rw [hsome])
  | some i =>
      refine ⟨sorted_refile hl.sorted _, fun id => (mem_refile hl.sorted _ id).trans ?_, hfiled⟩
      split
      next hi => rw [hi]
      next hi =>
        have hsome : (w.entries id).isSome = (l.world.entries id).isSome :=
          isSome_next hw (by simp [hid, Ne.symm hi])
        exact (hl.ids id).trans (by rw [hsome])

theorem sound_of_initial (hw : l.world.Initial) (hids : l.ids = []) : l.Sound := by
  obtain ⟨hentries, -⟩ := hw
  refine ⟨by rw [hids]; exact .nil, fun id => by simp [hids, hentries], fun id spec hs => ?_⟩
  rw [World.specs, hentries id] at hs
  cases hs

end Sound

end Listing

/-- What a list of rows says of each service: its state, or that there is none. -/
def rowsOf (rows : List ServiceStatus) : Rows := fun id =>
  (rows.find? fun row => row.id = id).map ServiceStatus.state

section RowsOf

variable {l : Listing} {row : ServiceStatus} {id : ServiceId}

theorem id_of_snapshot (hl : l.Sound) (h : l.world.snapshot id = some row) : row.id = id := by
  obtain ⟨e, he, rfl⟩ := Option.map_eq_some_iff.mp h
  exact hl.filed id e.spec (by rw [World.specs, he, Option.map_some])

theorem mem_snapshot (hl : l.Sound) :
    row ∈ l.snapshot ↔ l.world.snapshot row.id = some row := by
  rw [Listing.snapshot, List.mem_filterMap]
  constructor
  · rintro ⟨i, -, hrow⟩
    rw [id_of_snapshot hl hrow]
    exact hrow
  · intro hrow
    refine ⟨row.id, (hl.ids row.id).mpr ?_, hrow⟩
    have hsome := congrArg Option.isSome hrow
    simpa [World.snapshot] using hsome

/-- The list is in the order of the ids. -/
theorem ids_snapshot (hl : l.Sound) : l.snapshot.map ServiceStatus.id = l.ids := by
  have hrow : ∀ id ∈ l.ids, ∃ row, l.world.snapshot id = some row ∧ row.id = id := by
    intro id hid
    obtain ⟨e, he⟩ := Option.isSome_iff_exists.mp ((hl.ids id).mp hid)
    have hstatus : l.world.snapshot id = some e.status := by rw [World.snapshot, he, Option.map_some]
    exact ⟨e.status, hstatus, id_of_snapshot hl hstatus⟩
  have hmap : ∀ ids : List ServiceId,
      (∀ id ∈ ids, ∃ row, l.world.snapshot id = some row ∧ row.id = id) →
        (ids.filterMap l.world.snapshot).map ServiceStatus.id = ids := by
    intro ids h
    induction ids with
    | nil => rfl
    | cons id ids ih =>
        obtain ⟨row, hsome, hid⟩ := h id List.mem_cons_self
        rw [List.filterMap_cons_some hsome, List.map_cons, hid,
          ih fun i hi => h i (List.mem_cons_of_mem _ hi)]
  exact hmap l.ids hrow

theorem nodup_snapshot (hl : l.Sound) : (l.snapshot.map ServiceStatus.id).Nodup := by
  rw [ids_snapshot hl]
  exact hl.sorted.imp fun hlt => ne_of_lt hlt

/-- A list without repetitions gives each service the state of its row. -/
theorem rowsOf_eq_some {rows : List ServiceStatus} {state : ServiceState}
    (hnodup : (rows.map ServiceStatus.id).Nodup) :
    rowsOf rows id = some state ↔ ∃ row ∈ rows, row.id = id ∧ row.state = state := by
  rw [rowsOf, Option.map_eq_some_iff]
  constructor
  · rintro ⟨row, hfind, rfl⟩
    exact ⟨row, List.mem_of_find?_eq_some hfind, by simpa using List.find?_some hfind, rfl⟩
  · rintro ⟨row, hmem, rfl, rfl⟩
    cases hfind : rows.find? fun other => other.id = row.id with
    | none => exact absurd (decide_eq_true rfl) (List.find?_eq_none.mp hfind row hmem)
    | some other =>
        have hid : other.id = row.id := by simpa using List.find?_some hfind
        have heq := List.inj_on_of_nodup_map hnodup (List.mem_of_find?_eq_some hfind) hmem hid
        exact ⟨other, rfl, by rw [heq]⟩

/-- **The list says what the registry has.** -/
theorem rowsOf_snapshot (hl : l.Sound) : rowsOf l.snapshot = l.world.rows := by
  funext id
  have hrows : l.world.rows id = (l.world.snapshot id).map ServiceStatus.state := by
    rw [World.snapshot, Option.map_map]
    rfl
  rw [rowsOf, hrows]
  cases hfind : l.snapshot.find? fun row => row.id = id with
  | some row =>
      have hmem := (mem_snapshot hl).mp (List.mem_of_find?_eq_some hfind)
      have hid : row.id = id := by simpa using List.find?_some hfind
      rw [hid] at hmem
      rw [hmem]
  | none =>
      cases hrow : l.world.snapshot id with
      | none => rfl
      | some row =>
          have hid := id_of_snapshot hl hrow
          have hmem := (mem_snapshot hl).mpr (hid.symm ▸ hrow)
          have hne := List.find?_eq_none.mp hfind row hmem
          exact absurd (decide_eq_true hid) hne

end RowsOf

end OpenVHost.Proc
