/-
# When a rescan converges

* `Settled` — what a rescan is to leave: a row for each discovered runtime that is to have
  one, none of a major that has vanished, and every other row as it was.
* `settled_iff` — exactly when registering some of the discovered runtimes leaves it so,
  whatever the family.
* `rescans_converge_iff` — exactly when `reconcile_php` and `reconcile_mysql` do.
* `rescans_diverge` — a row that an uninstall removed, and a runtime that has moved.
-/

import OpenVHost.Datadir.Calls
import OpenVHost.Desktop.Rescan
import OpenVHost.Runtime.Merged

namespace OpenVHost.Desktop

open FileTree
open OpenVHost.Pkg (displayPath)
open OpenVHost.Proc
open OpenVHost.Runtime
open OpenVHost.Runtime.Php (PhpRuntime phpEngine discoverPhp)
open OpenVHost.Runtime.Mysql (MysqlRuntime mysqlEngine discoverMysql)

/-! ### Families -/

/-- A package family, as far as rescans tell one from another. -/
structure Family (ρ : Type) where
  idPrefix : String
  major : ρ → List Char
  /-- The binary that a runtime's row runs. -/
  program : ρ → String
  /-- Whether the runtime is to have a row. -/
  serves : ρ → Bool

def phpFamily : Family PhpRuntime where
  idPrefix := phpFpmIdPrefix
  major := PhpRuntime.major
  program rt := displayPath rt.fpmBin
  serves _ := true

def mysqlFamily (os : Datadir.Os) (home : Path) (t : Tree) : Family MysqlRuntime where
  idPrefix := mysqlIdPrefix
  major rt := rt.major.asStr
  program rt := displayPath rt.mysqld
  serves := mysqlDatadirIsInitialized os home t

namespace Family

variable {ρ : Type} (F : Family ρ)

def serviceId (rt : ρ) : ServiceId := F.idPrefix ++ String.ofList (F.major rt)

/-- **What a rescan is to leave.** -/
structure Settled (runtimes : List ρ) (before after : Services) : Prop where
  listed : ∀ rt ∈ runtimes, F.serves rt = true → ∃ r, after.get (F.serviceId rt) = some r ∧
    (r.live = false → r.program = F.program rt)
  tidy : ∀ r ∈ after.rows, r.live = false → ∀ major, familyMajor F.idPrefix r.id = some major →
    ∃ rt ∈ runtimes, F.major rt = major
  others : ∀ r ∈ before.rows, familyMajor F.idPrefix r.id = none → after.get r.id = some r
  right : ∀ r ∈ before.rows, ∀ rt ∈ runtimes, r.id = F.serviceId rt → r.program = F.program rt →
    after.get r.id = some r

/-- What the row of a runtime is before a rescan, given whether that will register it anew. -/
def RowFits (spec : ρ → ServiceSpec) (isNew : ρ → Bool) (s : Services) (rt : ρ) : Prop :=
  if isNew rt then
    ∀ r, s.get (F.serviceId rt) = some r → r.live = false → r.program = F.program rt →
      r = Row.fresh (spec rt)
  else
    F.serves rt = true → ∃ r, s.get (F.serviceId rt) = some r ∧
      (r.live = false → r.program = F.program rt)

end Family

/-! ### Ids -/

theorem familyMajor_eq_some {idPrefix : String} {id : ServiceId} {major : List Char} :
    familyMajor idPrefix id = some major ↔ id = idPrefix ++ String.ofList major := by
  rw [familyMajor, List.isPrefixOf?_eq_some_iff_append_eq, ← String.toList_inj,
    String.toList_append, String.toList_ofList]
  exact eq_comm

theorem ofList_append_inj {idPrefix : String} {m m' : List Char}
    (h : idPrefix ++ String.ofList m = idPrefix ++ String.ofList m') : m = m' := by
  have h := congrArg String.toList h
  simpa using h

/-! ### The two passes -/

namespace Services

variable {s : Services} {id : ServiceId}

theorem get_eq_some {r : Row} : s.get id = some r ↔ r ∈ s.rows ∧ r.id = id :=
  Merge.entry_eq_some s.nodup

theorem get_of_mem {r : Row} (h : r ∈ s.rows) : s.get r.id = some r := get_eq_some.mpr ⟨h, rfl⟩

theorem liveAt_of_get {r : Row} (h : s.get id = some r) : s.liveAt id = r.live := by
  show (s.get id).any Row.live = _
  rw [h]
  rfl

theorem mem_snapshot_ids : id ∈ s.snapshot.map ServiceStatus.id ↔ (s.get id).isSome := by
  rw [snapshot, Option.isSome_iff_exists]
  constructor
  · intro h
    obtain ⟨st, hst, rfl⟩ := List.mem_map.mp h
    obtain ⟨r, hr, rfl⟩ := List.mem_map.mp ((List.perm_insertionSort _ _).mem_iff.mp hst)
    exact ⟨r, get_of_mem hr⟩
  · rintro ⟨r, hr⟩
    obtain ⟨hmem, rfl⟩ := get_eq_some.mp hr
    exact List.mem_map.mpr ⟨r.status,
      (List.perm_insertionSort _ _).mem_iff.mpr (List.mem_map_of_mem hmem), rfl⟩

theorem rows_register (s : Services) (spec : ServiceSpec) :
    (s.register spec).rows = Merge.put Row.id Row.live s.rows (Row.fresh spec) := by
  unfold register
  split
  next h =>
    have hlock : Merge.lockedAt Row.id Row.live s.rows (Row.fresh spec).id = true := h
    simp [Merge.put, hlock]
  next => rfl

theorem checkTerminal_ok {state : ServiceState} :
    World.checkTerminal id state = .ok () ↔ state.live = false := by
  cases state <;> simp [World.checkTerminal, ServiceState.live]

/-- A call that refuses changes nothing. -/
theorem unregister_of_liveAt (h : s.liveAt id = true) : (s.unregister id).2 = s := by
  unfold unregister
  cases hg : s.get id with
  | none => rfl
  | some r =>
      rw [liveAt_of_get hg] at h
      dsimp only
      split
      next => rfl
      next hc =>
        have hlive : r.live = false := checkTerminal_ok.mp hc
        rw [hlive] at h
        cases h

theorem rows_unregister (s : Services) (id : ServiceId) :
    (s.unregister id).2.rows = Merge.drop Row.id Row.live s.rows id := by
  cases hl : s.liveAt id with
  | true =>
      have hlock : Merge.lockedAt Row.id Row.live s.rows id = true := hl
      simp [unregister_of_liveAt hl, Merge.drop, hlock]
  | false =>
      unfold unregister
      cases hg : s.get id with
      | none =>
          have hlock : Merge.lockedAt Row.id Row.live s.rows id = false := hl
          have hwithout : Merge.without Row.id s.rows id = s.rows := by
            refine List.filter_eq_self.mpr fun r hr => ?_
            have hne : r.id ≠ id := by
              rintro rfl
              rw [get_of_mem hr] at hg
              cases hg
            simpa using hne
          simp [Merge.drop, hlock, hwithout]
      | some r =>
          rw [liveAt_of_get hg] at hl
          have hc : World.checkTerminal id r.state = .ok () := checkTerminal_ok.mpr hl
          simp [hc]

theorem rows_foldl_register (specs : List ServiceSpec) : ∀ s : Services,
    (specs.foldl register s).rows =
      (specs.map Row.fresh).foldl (Merge.put Row.id Row.live) s.rows := by
  induction specs with
  | nil => exact fun _ => rfl
  | cons spec specs ih =>
      intro s
      rw [List.foldl_cons, ih, rows_register, List.map_cons, List.foldl_cons]

theorem rows_foldl_unregister (ids : List ServiceId) : ∀ s : Services,
    (ids.foldl (fun s id => (s.unregister id).2) s).rows =
      ids.foldl (Merge.drop Row.id Row.live) s.rows := by
  induction ids with
  | nil => exact fun _ => rfl
  | cons id ids ih =>
      intro s
      rw [List.foldl_cons, ih, rows_unregister, List.foldl_cons]

/-- A pass over ids whose rows are live changes nothing, and says nothing. -/
theorem foldl_unregister_of_live (ids : List ServiceId) (h : ∀ id ∈ ids, s.liveAt id = true) :
    ids.foldl (fun s id => (s.unregister id).2) s = s := by
  induction ids with
  | nil => rfl
  | cons id ids ih =>
      rw [List.forall_mem_cons] at h
      rw [List.foldl_cons, unregister_of_liveAt h.1]
      exact ih h.2

end Services

/-! ### Registering some, forgetting the vanished -/

section Reconciled

variable {ρ : Type} {F : Family ρ} {spec : ρ → ServiceSpec} {isNew : ρ → Bool}
  {runtimes : List ρ} {s : Services} {id : ServiceId}

/-- The id names a major of the family that was not found. -/
def Vanished (idPrefix : String) (found : List (List Char)) (id : ServiceId) : Prop :=
  ∃ major, familyMajor idPrefix id = some major ∧ major ∉ found

def registerNew (spec : ρ → ServiceSpec) (isNew : ρ → Bool) (runtimes : List ρ) (s : Services) :
    Services :=
  ((runtimes.filter isNew).map spec).foldl Services.register s

/-- What either family's rescan does to the rows. -/
def reconciled (F : Family ρ) (spec : ρ → ServiceSpec) (isNew : ρ → Bool) (runtimes : List ρ)
    (s : Services) : Services :=
  unregisterVanished (registerNew spec isNew runtimes s) F.idPrefix (runtimes.map F.major)

theorem mem_vanishedServiceIds {registered : List ServiceId} {idPrefix : String}
    {found : List (List Char)} : id ∈ vanishedServiceIds registered idPrefix found ↔
      id ∈ registered ∧ Vanished idPrefix found id := by
  rw [vanishedServiceIds, List.mem_filter, Option.any_eq_true]
  simp [Vanished]

/-- **What has vanished goes**, unless it is live; all else stays. -/
theorem get_unregisterVanished {idPrefix : String} {found : List (List Char)} :
    (Vanished idPrefix found id → s.liveAt id = false →
      (unregisterVanished s idPrefix found).get id = none) ∧
    (¬ (Vanished idPrefix found id ∧ s.liveAt id = false) →
      (unregisterVanished s idPrefix found).get id = s.get id) := by
  have hget : (unregisterVanished s idPrefix found).get id =
      if id ∈ vanishedServiceIds (s.snapshot.map ServiceStatus.id) idPrefix found ∧
        s.liveAt id = false then none else s.get id := by
    unfold unregisterVanished Services.get
    rw [Services.rows_foldl_unregister, Merge.entry_foldl_drop]
    rfl
  rw [hget]
  constructor
  · intro hv hl
    cases hg : s.get id with
    | none => exact ite_self _
    | some r =>
        refine if_pos ⟨mem_vanishedServiceIds.mpr ⟨Services.mem_snapshot_ids.mpr ?_, hv⟩, hl⟩
        rw [hg]
        rfl
  · intro h
    refine if_neg fun ⟨hmem, hl⟩ => h ⟨(mem_vanishedServiceIds.mp hmem).2, hl⟩

theorem nodup_fresh (hspec : ∀ rt, (spec rt).id = F.serviceId rt)
    (hnodup : (runtimes.map F.major).Nodup) :
    (((runtimes.filter isNew).map fun rt => Row.fresh (spec rt)).map Row.id).Nodup := by
  have hkeys : ((runtimes.filter isNew).map fun rt => Row.fresh (spec rt)).map Row.id =
      ((runtimes.filter isNew).map F.major).map fun m => F.idPrefix ++ String.ofList m := by
    rw [List.map_map, List.map_map]
    exact List.map_congr_left fun rt _ => hspec rt
  rw [hkeys]
  exact (hnodup.sublist (List.filter_sublist.map F.major)).map fun m m' h => ofList_append_inj h

theorem get_registerNew (hspec : ∀ rt, (spec rt).id = F.serviceId rt)
    (hnodup : (runtimes.map F.major).Nodup) :
    (registerNew spec isNew runtimes s).get id =
      if s.liveAt id then s.get id
      else (Merge.entry Row.id id ((runtimes.filter isNew).map fun rt => Row.fresh (spec rt))).or
        (s.get id) := by
  have hn := @nodup_fresh _ F spec isNew runtimes hspec hnodup
  unfold registerNew Services.get
  rw [Services.rows_foldl_register, List.map_map]
  exact Merge.entry_foldl_put _ _ hn

theorem liveAt_registerNew (hspec : ∀ rt, (spec rt).id = F.serviceId rt)
    (hnodup : (runtimes.map F.major).Nodup) :
    (registerNew spec isNew runtimes s).liveAt id = s.liveAt id := by
  show ((registerNew spec isNew runtimes s).get id).any Row.live = s.liveAt id
  rw [get_registerNew hspec hnodup]
  cases hl : s.liveAt id with
  | true => exact hl
  | false =>
      rw [if_neg (by simp)]
      cases he : Merge.entry Row.id id
          ((runtimes.filter isNew).map fun rt => Row.fresh (spec rt)) with
      | none => exact hl
      | some r =>
          have hmem := List.mem_of_find?_eq_some he
          obtain ⟨rt, -, rfl⟩ := List.mem_map.mp hmem
          rfl

/-- A row that stays is the one it was, or one that was registered anew. -/
theorem get_reconciled (hspec : ∀ rt, (spec rt).id = F.serviceId rt)
    (hnodup : (runtimes.map F.major).Nodup) :
    (Vanished F.idPrefix (runtimes.map F.major) id → s.liveAt id = false →
      (reconciled F spec isNew runtimes s).get id = none) ∧
    (¬ (Vanished F.idPrefix (runtimes.map F.major) id ∧ s.liveAt id = false) →
      (reconciled F spec isNew runtimes s).get id =
        (registerNew spec isNew runtimes s).get id) := by
  rw [← liveAt_registerNew hspec hnodup]
  exact get_unregisterVanished

theorem get_reconciled_of_mem (isNew : ρ → Bool) (s : Services) (hspec : ∀ rt, (spec rt).id = F.serviceId rt)
    (hnodup : (runtimes.map F.major).Nodup) {rt : ρ} (hrt : rt ∈ runtimes) :
    (reconciled F spec isNew runtimes s).get (F.serviceId rt) =
      if isNew rt = true ∧ s.liveAt (F.serviceId rt) = false then some (Row.fresh (spec rt))
      else s.get (F.serviceId rt) := by
  have hfound : ¬ (Vanished F.idPrefix (runtimes.map F.major) (F.serviceId rt) ∧
      s.liveAt (F.serviceId rt) = false) := by
    rintro ⟨⟨major, hmajor, hnot⟩, -⟩
    obtain rfl : F.major rt = major := ofList_append_inj (familyMajor_eq_some.mp hmajor)
    exact hnot (List.mem_map_of_mem hrt)
  rw [(get_reconciled hspec hnodup).2 hfound, get_registerNew hspec hnodup]
  cases hl : s.liveAt (F.serviceId rt) with
  | true => simp
  | false =>
      have hsame : ∀ rt' ∈ runtimes, F.serviceId rt' = F.serviceId rt → rt' = rt :=
        fun rt' hrt' heq => List.inj_on_of_nodup_map hnodup hrt' hrt (ofList_append_inj heq)
      cases hnew : isNew rt with
      | true =>
          have hentry : Merge.entry Row.id (F.serviceId rt)
              ((runtimes.filter isNew).map fun rt => Row.fresh (spec rt)) =
                some (Row.fresh (spec rt)) := by
            refine (Merge.entry_eq_some (nodup_fresh hspec hnodup)).mpr ⟨?_, hspec rt⟩
            exact List.mem_map.mpr ⟨rt, List.mem_filter.mpr ⟨hrt, hnew⟩, rfl⟩
          simp [hentry]
      | false =>
          have hentry : Merge.entry Row.id (F.serviceId rt)
              ((runtimes.filter isNew).map fun rt => Row.fresh (spec rt)) = none := by
            refine List.find?_eq_none.mpr fun r hr => ?_
            obtain ⟨rt', hrt', rfl⟩ := List.mem_map.mp hr
            obtain ⟨hmem, hnew'⟩ := List.mem_filter.mp hrt'
            have hne : (Row.fresh (spec rt')).id ≠ F.serviceId rt := by
              intro heq
              obtain rfl := hsame rt' hmem ((hspec rt').symm.trans heq)
              rw [hnew] at hnew'
              cases hnew'
            simpa using hne
          simp [hentry]

theorem get_reconciled_of_other (hspec : ∀ rt, (spec rt).id = F.serviceId rt)
    (hnodup : (runtimes.map F.major).Nodup) (hother : familyMajor F.idPrefix id = none) :
    (reconciled F spec isNew runtimes s).get id = s.get id := by
  have hfound : ¬ (Vanished F.idPrefix (runtimes.map F.major) id ∧ s.liveAt id = false) := by
    rintro ⟨⟨major, hmajor, -⟩, -⟩
    rw [hother] at hmajor
    cases hmajor
  have hentry : Merge.entry Row.id id
      ((runtimes.filter isNew).map fun rt => Row.fresh (spec rt)) = none := by
    refine List.find?_eq_none.mpr fun r hr => ?_
    obtain ⟨rt, -, rfl⟩ := List.mem_map.mp hr
    have hne : (Row.fresh (spec rt)).id ≠ id := by
      rintro rfl
      have hmajor : familyMajor F.idPrefix (Row.fresh (spec rt)).id = some (F.major rt) :=
        familyMajor_eq_some.mpr (hspec rt)
      rw [hother] at hmajor
      cases hmajor
    simpa using hne
  rw [(get_reconciled hspec hnodup).2 hfound, get_registerNew hspec hnodup, hentry, Option.none_or,
    ite_self]

theorem tidy_reconciled (hspec : ∀ rt, (spec rt).id = F.serviceId rt)
    (hnodup : (runtimes.map F.major).Nodup) {r : Row}
    (hr : r ∈ (reconciled F spec isNew runtimes s).rows) (hdead : r.live = false)
    {major : List Char} (hmajor : familyMajor F.idPrefix r.id = some major) :
    major ∈ runtimes.map F.major := by
  by_contra hnot
  have hget := Services.get_of_mem hr
  have hlive := Services.liveAt_of_get hget
  cases hl : s.liveAt r.id with
  | false =>
      rw [(get_reconciled hspec hnodup).1 ⟨major, hmajor, hnot⟩ hl] at hget
      cases hget
  | true =>
      -- a live row is the one that was there
      rw [(get_reconciled hspec hnodup).2 (by simp [hl]), get_registerNew hspec hnodup,
        if_pos hl] at hget
      rw [Services.liveAt_of_get hget, hdead] at hl
      cases hl

/-- **Exactly when registering the new ones settles the rows.** -/
theorem settled_iff (hspec : ∀ rt, (spec rt).id = F.serviceId rt)
    (hprogram : ∀ rt, (Row.fresh (spec rt)).program = F.program rt)
    (hnodup : (runtimes.map F.major).Nodup) :
    F.Settled runtimes s (reconciled F spec isNew runtimes s) ↔
      ∀ rt ∈ runtimes, F.RowFits spec isNew s rt := by
  constructor
  · intro h rt hrt
    have hget := get_reconciled_of_mem isNew s hspec hnodup hrt
    unfold Family.RowFits
    cases hnew : isNew rt with
    | true =>
        intro r hr hdead hright
        obtain ⟨hmem, hid⟩ := Services.get_eq_some.mp hr
        have hkept := h.right r hmem rt hrt hid hright
        have hl := Services.liveAt_of_get hr
        rw [hid, hget, if_pos ⟨hnew, hl.trans hdead⟩] at hkept
        exact (Option.some.inj hkept).symm
    | false =>
        intro hserves
        obtain ⟨r, hr, hright⟩ := h.listed rt hrt hserves
        rw [hget, if_neg (by simp [hnew])] at hr
        exact ⟨r, hr, hright⟩
  · intro h
    have hget : ∀ rt ∈ runtimes, (reconciled F spec isNew runtimes s).get (F.serviceId rt) = _ :=
      fun rt hrt => get_reconciled_of_mem isNew s hspec hnodup hrt
    refine ⟨fun rt hrt hserves => ?_, fun r hr hdead major hmajor => ?_, fun r hr hother => ?_,
      fun r hr rt hrt hid hright => ?_⟩
    · have hfits := h rt hrt
      unfold Family.RowFits at hfits
      rw [hget rt hrt]
      cases hnew : isNew rt with
      | false =>
          rw [hnew] at hfits
          simpa using hfits hserves
      | true =>
          cases hl : s.liveAt (F.serviceId rt) with
          | false => exact ⟨_, if_pos ⟨rfl, rfl⟩, fun _ => hprogram rt⟩
          | true =>
              obtain ⟨r, hr, hlive⟩ := (Option.any_eq_true _ _).mp
                (show (s.get (F.serviceId rt)).any Row.live = true from hl)
              refine ⟨r, by simpa using hr, fun hdead => ?_⟩
              rw [hlive] at hdead
              cases hdead
    · obtain ⟨rt, hrt, rfl⟩ := List.mem_map.mp (tidy_reconciled hspec hnodup hr hdead hmajor)
      exact ⟨rt, hrt, rfl⟩
    · rw [get_reconciled_of_other hspec hnodup hother]
      exact Services.get_of_mem hr
    · have hr := Services.get_of_mem hr
      have hfits := h rt hrt
      unfold Family.RowFits at hfits
      rw [hid] at hr ⊢
      rw [hget rt hrt]
      split
      next hnew =>
        rw [if_pos hnew.1] at hfits
        rw [hfits r hr ((Services.liveAt_of_get hr).symm.trans hnew.2) hright]
      next => exact hr

/-- **A second pass finds nothing to forget.** -/
theorem unregisterVanished_reconciled (hspec : ∀ rt, (spec rt).id = F.serviceId rt)
    (hnodup : (runtimes.map F.major).Nodup) :
    unregisterVanished (reconciled F spec isNew runtimes s) F.idPrefix (runtimes.map F.major) =
      reconciled F spec isNew runtimes s := by
  refine Services.foldl_unregister_of_live _ fun id hid => ?_
  obtain ⟨hmem, major, hmajor, hnot⟩ := mem_vanishedServiceIds.mp hid
  obtain ⟨r, hr⟩ := Option.isSome_iff_exists.mp (Services.mem_snapshot_ids.mp hmem)
  rw [Services.liveAt_of_get hr]
  cases hlive : r.live with
  | true => rfl
  | false =>
      obtain ⟨hrow, rfl⟩ := Services.get_eq_some.mp hr
      exact absurd (tidy_reconciled hspec hnodup hrow hlive hmajor) hnot

end Reconciled

/-! ### The two reconciliations -/

theorem nodup_seeded {ρ κ : Type} [DecidableEq κ] (E : Engine ρ κ) {d : Discovery ρ}
    (h : (d.runtimes.map E.major).Nodup) :
    ∀ seed, ((seeded E d seed).runtimes.map E.major).Nodup
  | none => h
  | some rt => by
      unfold seeded
      dsimp only
      split
      next => exact h
      next hnone =>
        have hperm : (E.sortRuntimes (d.runtimes ++ [rt])).Perm (d.runtimes ++ [rt]) :=
          List.perm_insertionSort _ _
        rw [(hperm.map E.major).nodup_iff, List.map_append, List.map_singleton]
        refine List.nodup_append.mpr ⟨h, List.nodup_singleton _, fun m hm m' hm' => ?_⟩
        obtain ⟨r, hr, rfl⟩ := List.mem_map.mp hm
        obtain rfl : m' = E.major rt := by simpa using hm'
        intro heq
        exact hnone (List.any_eq_true.mpr ⟨r, hr, decide_eq_true heq⟩)

theorem nodup_discover {ρ κ : Type} [DecidableEq κ] (E : Engine ρ κ) (t : Tree)
    (root : PackagesRoot) (prefixes : List Path) (probe : Path → Option (List Char)) :
    ((E.discover t root prefixes probe).runtimes.map E.major).Nodup := by
  refine List.pairwise_map.mpr ((E.ascending_discover t root prefixes probe).imp fun hlt heq => ?_)
  rw [heq] at hlt
  exact List.lt_irrefl _ hlt

/-- The managed list has a runtime of the major. -/
def PhpState.knows (s : PhpState) (major : List Char) : Bool :=
  match s.runtimes with
  | .poisoned => false
  | .holds known => (InstalledRuntimes.majors known).contains major

theorem reconcilePhp_ok {paths : StackPaths} {d d' : Discovery PhpRuntime} {s s' : PhpState}
    (hnodup : (d.runtimes.map PhpRuntime.major).Nodup)
    (h : reconcilePhp paths d s = (.ok d', s')) :
    d' = d ∧ s' =
      { runtimes := .holds (some ⟨paths.nginxBin, d.runtimes⟩)
        services := reconciled phpFamily (phpFpmSpec paths.home) (fun rt => !s.knows rt.major)
          d.runtimes s.services } := by
  unfold reconcilePhp at h
  cases hs : s.runtimes with
  | poisoned => simp [hs] at h
  | holds known =>
      simp only [hs, Prod.mk.injEq, Except.ok.injEq] at h
      obtain ⟨rfl, rfl⟩ := h
      refine ⟨rfl, ?_⟩
      have hnew : newlyInstalledMajors (InstalledRuntimes.majors known)
          (d.runtimes.map PhpRuntime.major) =
          (d.runtimes.filter fun rt => !s.knows rt.major).map PhpRuntime.major := by
        rw [newlyInstalledMajors, List.filter_map]
        simp only [PhpState.knows, hs]
        rfl
      congr 2
      rw [hnew, List.foldl_map, registerNew, List.foldl_map]
      refine List.foldl_ext _ _ _ fun services rt hrt => ?_
      have hmem := (List.mem_filter.mp hrt).1
      have hfind : (d.runtimes.find? fun rt' => decide (rt'.major = rt.major)) = some rt :=
        (Merge.entry_eq_some hnodup).mpr ⟨hmem, rfl⟩
      rw [hfind]

/-- The runtime has no row, and is to have one. -/
def MysqlState.isNew (os : Datadir.Os) (home : Path) (t : Tree) (s : MysqlState)
    (rt : MysqlRuntime) : Bool :=
  (s.services.get (mysqlServiceId rt.major.asStr)).isNone && mysqlDatadirIsInitialized os home t rt

theorem reconcileMysql_ok {os : Datadir.Os} {home : Path} {t : Tree}
    {d d' : Discovery MysqlRuntime} {s s' : MysqlState}
    (h : reconcileMysql os home t d s = (.ok d', s')) :
    d' = d ∧ s' =
      { runtimes := .holds (some d.runtimes)
        services := reconciled (mysqlFamily os home t) (mysqlSpec home) (s.isNew os home t)
          d.runtimes s.services } := by
  unfold reconcileMysql at h
  cases hs : s.runtimes with
  | poisoned => simp [hs] at h
  | holds known =>
      simp only [hs, Prod.mk.injEq, Except.ok.injEq] at h
      obtain ⟨rfl, rfl⟩ := h
      refine ⟨rfl, ?_⟩
      congr 2
      rw [registerNew, List.foldl_map, List.foldl_filter]
      refine List.foldl_ext _ _ _ fun services rt _ => ?_
      have hknown : (s.services.snapshot.map ServiceStatus.id).contains
          (mysqlServiceId rt.major.asStr) =
          (s.services.get (mysqlServiceId rt.major.asStr)).isSome := by
        rw [Bool.eq_iff_iff, List.contains_iff_mem, Services.mem_snapshot_ids]
      rw [hknown, MysqlState.isNew]
      cases s.services.get (mysqlServiceId rt.major.asStr) <;> simp

/-! ### Convergence -/

/-- A PHP rescan has settled the rows, and would change nothing if it were made again. -/
def PhpConverges (paths : StackPaths) (d : Discovery PhpRuntime) (s s' : PhpState) : Prop :=
  phpFamily.Settled d.runtimes s.services s'.services ∧ reconcilePhp paths d s' = (.ok d, s')

def MysqlConverges (os : Datadir.Os) (home : Path) (t : Tree) (d : Discovery MysqlRuntime)
    (s s' : MysqlState) : Prop :=
  (mysqlFamily os home t).Settled d.runtimes s.services s'.services ∧
    reconcileMysql os home t d s' = (.ok d, s')

/-- A runtime whose major the managed list knows has a row, and that is live or runs its
binary. One that is new has no row that has ended and runs its binary, except a blank one. -/
def PhpFits (home : Path) (runtimes : List PhpRuntime) (s : PhpState) : Prop :=
  ∀ rt ∈ runtimes,
    if s.knows rt.major then
      ∃ r, s.services.get (phpFpmServiceId rt.major) = some r ∧
        (r.live = false → r.program = displayPath rt.fpmBin)
    else
      ∀ r, s.services.get (phpFpmServiceId rt.major) = some r → r.live = false →
        r.program = displayPath rt.fpmBin → r = Row.fresh (phpFpmSpec home rt)

/-- A row that a runtime with an initialized datadir has is live or runs its binary. -/
def MysqlFits (os : Datadir.Os) (home : Path) (t : Tree) (runtimes : List MysqlRuntime)
    (s : MysqlState) : Prop :=
  ∀ rt ∈ runtimes, mysqlDatadirIsInitialized os home t rt = true →
    ∀ r, s.services.get (mysqlServiceId rt.major.asStr) = some r →
      r.live = false → r.program = displayPath rt.mysqld

theorem phpConverges_iff {paths : StackPaths} {d : Discovery PhpRuntime} {s s' : PhpState}
    (hnodup : (d.runtimes.map PhpRuntime.major).Nodup)
    (h : reconcilePhp paths d s = (.ok d, s')) :
    PhpConverges paths d s s' ↔ PhpFits paths.home d.runtimes s := by
  obtain ⟨-, rfl⟩ := reconcilePhp_ok hnodup h
  have hspec : ∀ rt, (phpFpmSpec paths.home rt).id = phpFamily.serviceId rt := fun _ => rfl
  -- a second pass knows every major
  have hagain : reconcilePhp paths d
      { runtimes := .holds (some ⟨paths.nginxBin, d.runtimes⟩)
        services := reconciled phpFamily (phpFpmSpec paths.home) (fun rt => !s.knows rt.major)
          d.runtimes s.services } = (.ok d,
      { runtimes := .holds (some ⟨paths.nginxBin, d.runtimes⟩)
        services := reconciled phpFamily (phpFpmSpec paths.home) (fun rt => !s.knows rt.major)
          d.runtimes s.services }) := by
    have hnone : newlyInstalledMajors
        (InstalledRuntimes.majors (some ⟨paths.nginxBin, d.runtimes⟩))
        (d.runtimes.map PhpRuntime.major) = [] := by
      refine List.filter_eq_nil_iff.mpr fun m hm => ?_
      simpa [InstalledRuntimes.majors] using hm
    simp only [reconcilePhp, hnone, List.foldl_nil]
    rw [show phpFpmIdPrefix = phpFamily.idPrefix from rfl,
      show d.runtimes.map PhpRuntime.major = d.runtimes.map phpFamily.major from rfl,
      unregisterVanished_reconciled hspec hnodup]
  rw [PhpConverges, settled_iff hspec (fun _ => rfl) hnodup, and_iff_left hagain]
  refine forall₂_congr fun rt _ => ?_
  unfold Family.RowFits
  cases hk : s.knows rt.major with
  | true => simp [hk, phpFamily, Family.serviceId, phpFpmServiceId]
  | false => simp [hk, phpFamily, Family.serviceId, phpFpmServiceId]

section Mysql

variable {os : Datadir.Os} {home : Path} {t : Tree} {d : Discovery MysqlRuntime}
  {s s' : MysqlState}

theorem rowFits_mysql {rt : MysqlRuntime} :
    (mysqlFamily os home t).RowFits (mysqlSpec home) (s.isNew os home t) s.services rt ↔
      (mysqlDatadirIsInitialized os home t rt = true →
        ∀ r, s.services.get (mysqlServiceId rt.major.asStr) = some r →
          r.live = false → r.program = displayPath rt.mysqld) := by
  have hid : (mysqlFamily os home t).serviceId rt = mysqlServiceId rt.major.asStr := rfl
  have hserves : (mysqlFamily os home t).serves rt = mysqlDatadirIsInitialized os home t rt := rfl
  unfold Family.RowFits MysqlState.isNew
  rw [hid, hserves]
  cases hg : s.services.get (mysqlServiceId rt.major.asStr) with
  | none => cases hi : mysqlDatadirIsInitialized os home t rt <;> simp
  | some r =>
      simp only [Option.isNone_some, Bool.false_and, Bool.false_eq_true, if_false,
        Option.some.injEq, exists_eq_left', forall_eq']
      rfl

/-- Every runtime with an initialized datadir has a row in the end. -/
theorem isSome_reconciled_mysql (hnodup : (d.runtimes.map (mysqlFamily os home t).major).Nodup)
    {rt : MysqlRuntime} (hrt : rt ∈ d.runtimes)
    (hi : mysqlDatadirIsInitialized os home t rt = true) :
    ((reconciled (mysqlFamily os home t) (mysqlSpec home) (s.isNew os home t) d.runtimes
      s.services).get (mysqlServiceId rt.major.asStr)).isSome = true := by
  have hget : (reconciled (mysqlFamily os home t) (mysqlSpec home) (s.isNew os home t) d.runtimes
      s.services).get ((mysqlFamily os home t).serviceId rt) = _ :=
    get_reconciled_of_mem (s.isNew os home t) s.services (fun _ => rfl) hnodup hrt
  refine (congrArg Option.isSome hget).trans ?_
  cases hg : s.services.get (mysqlServiceId rt.major.asStr) with
  | some r =>
      have hold : s.isNew os home t rt = false := by simp [MysqlState.isNew, hg]
      rw [if_neg (by simp [hold])]
      exact congrArg Option.isSome hg
  | none =>
      have hnew : s.isNew os home t rt = true := by simp [MysqlState.isNew, hg, hi]
      have hlive : s.services.liveAt (mysqlServiceId rt.major.asStr) = false := by
        show (s.services.get (mysqlServiceId rt.major.asStr)).any Row.live = false
        rw [hg]
        rfl
      rw [if_pos ⟨hnew, hlive⟩]
      rfl

theorem mysqlConverges_iff (hnodup : (d.runtimes.map MysqlRuntime.major).Nodup)
    (h : reconcileMysql os home t d s = (.ok d, s')) :
    MysqlConverges os home t d s s' ↔ MysqlFits os home t d.runtimes s := by
  obtain ⟨-, rfl⟩ := reconcileMysql_ok h
  have hspec : ∀ rt, (mysqlSpec home rt).id = (mysqlFamily os home t).serviceId rt :=
    fun _ => rfl
  have hmajors : (d.runtimes.map (mysqlFamily os home t).major).Nodup := by
    have hmap : (d.runtimes.map MysqlRuntime.major).map (fun m => m.asStr) =
        d.runtimes.map (mysqlFamily os home t).major := List.map_map
    rw [← hmap]
    exact hnodup.map fun m m' => mysqlEngine.asStr_inj
  have hagain : reconcileMysql os home t d
      { runtimes := .holds (some d.runtimes)
        services := reconciled (mysqlFamily os home t) (mysqlSpec home) (s.isNew os home t)
          d.runtimes s.services } = (.ok d,
      { runtimes := .holds (some d.runtimes)
        services := reconciled (mysqlFamily os home t) (mysqlSpec home) (s.isNew os home t)
          d.runtimes s.services }) := by
    simp only [reconcileMysql]
    rw [List.foldl_ext _ (fun services _ => services) _ fun services rt hrt => ?_,
      List.foldl_fixed]
    · rw [show mysqlIdPrefix = (mysqlFamily os home t).idPrefix from rfl,
        show (d.runtimes.map fun rt => rt.major.asStr) =
          d.runtimes.map (mysqlFamily os home t).major from rfl,
        unregisterVanished_reconciled hspec hmajors]
    · cases hi : mysqlDatadirIsInitialized os home t rt with
      | false => simp
      | true =>
          -- it has been given a row
          rw [if_pos]
          rw [List.contains_iff_mem, Services.mem_snapshot_ids]
          exact isSome_reconciled_mysql hmajors hrt hi
  rw [MysqlConverges, settled_iff hspec (fun _ => rfl) hmajors, and_iff_left hagain]
  exact forall₂_congr fun rt _ => rowFits_mysql

end Mysql

/-- What a PHP rescan works on: a discovery, with or without a seed. -/
def FoundPhp (d : Discovery PhpRuntime) : Prop :=
  ∃ t root prefixes probe seed, d = seededPhp (discoverPhp t root prefixes probe) seed

def FoundMysql (d : Discovery MysqlRuntime) : Prop :=
  ∃ t root prefixes probe seed, d = seededMysql (discoverMysql t root prefixes probe) seed

/-- **Exactly when a rescan converges**, for either family. -/
theorem rescans_converge_iff (paths : StackPaths) (os : Datadir.Os) (home : Path) (t : Tree) :
    (∀ (d d' : Discovery PhpRuntime) (s s' : PhpState), FoundPhp d →
      reconcilePhp paths d s = (.ok d', s') →
      (PhpConverges paths d s s' ↔ PhpFits paths.home d.runtimes s)) ∧
    ∀ (d d' : Discovery MysqlRuntime) (s s' : MysqlState), FoundMysql d →
      reconcileMysql os home t d s = (.ok d', s') →
      (MysqlConverges os home t d s s' ↔ MysqlFits os home t d.runtimes s) := by
  constructor
  · rintro d d' s s' ⟨t, root, prefixes, probe, seed, rfl⟩ h
    have hnodup := nodup_seeded phpEngine (nodup_discover phpEngine t root prefixes probe) seed
    obtain ⟨rfl, -⟩ := reconcilePhp_ok hnodup h
    exact phpConverges_iff hnodup h
  · rintro d d' s s' ⟨t', root, prefixes, probe, seed, rfl⟩ h
    have hnodup := nodup_seeded mysqlEngine (nodup_discover mysqlEngine t' root prefixes probe) seed
    obtain ⟨rfl, -⟩ := reconcileMysql_ok h
    exact mysqlConverges_iff hnodup h

/-! ### Samples -/

def Services.empty : Services := ⟨[], List.nodup_nil, []⟩

def sampleStack : StackPaths := ⟨Datadir.sampleHome, ["nginx".toList]⟩

def samplePhp (dir : Name) : PhpRuntime := ⟨"8.4".toList, [dir, "php-fpm".toList], .homebrew⟩

def sampleMysql (dir : Name) : MysqlRuntime :=
  ⟨Datadir.sampleMajor, [dir, "mysqld".toList], [dir, "mysql".toList], [dir, "mysqladmin".toList],
    .homebrew⟩

theorem foundPhp_sample (dir : Name) : FoundPhp ⟨[samplePhp dir], []⟩ :=
  ⟨Tree.empty, ⟨[]⟩, [], fun _ => none, some (samplePhp dir), rfl⟩

theorem foundMysql_sample (dir : Name) : FoundMysql ⟨[sampleMysql dir], []⟩ :=
  ⟨Tree.empty, ⟨[]⟩, [], fun _ => none, some (sampleMysql dir), rfl⟩

/-- The sample major's datadir is initialized here. -/
def initializedTree : Tree :=
  (Datadir.after Datadir.orderly Datadir.sampleCalls Datadir.stagedDisk).tree

/-- A row in some state. -/
def sampleRow (spec : ServiceSpec) (state : ServiceState) (pid : Option Nat) : Row :=
  { Row.fresh spec with state, pid }

/-- Two managed majors, of which one runs and the other has been removed, beside another family's
row. -/
def managedPhp : PhpState where
  runtimes := .holds (some ⟨sampleStack.nginxBin,
    [⟨"8.3".toList, ["old".toList, "php-fpm".toList], .homebrew⟩, samplePhp "brew".toList]⟩)
  services :=
    { rows :=
        [sampleRow (mysqlSpec Datadir.sampleHome (sampleMysql "brew".toList)) .running (some 7),
          sampleRow (phpFpmSpec sampleStack.home
            ⟨"8.3".toList, ["old".toList, "php-fpm".toList], .homebrew⟩) (.failed (some 78) []) none,
          sampleRow (phpFpmSpec sampleStack.home (samplePhp "brew".toList)) .running (some 8)]
      nodup := by decide
      events := [] }

/-- A managed major that has been removed, beside another family's row. -/
def managedMysql : MysqlState where
  runtimes := .holds (some [{ sampleMysql "old".toList with major := ⟨"8.0".toList, by decide⟩ }])
  services :=
    { rows :=
        [sampleRow (phpFpmSpec sampleStack.home (samplePhp "brew".toList)) .running (some 8),
          sampleRow (mysqlSpec Datadir.sampleHome
            { sampleMysql "old".toList with major := ⟨"8.0".toList, by decide⟩ }) .stopped none]
      nodup := by decide
      events := [] }

/-- In both families a major has vanished; one major's row is kept and the other's is new. -/
theorem rescans_converge_managed :
    PhpConverges sampleStack ⟨[samplePhp "brew".toList], []⟩ managedPhp
        (reconcilePhp sampleStack ⟨[samplePhp "brew".toList], []⟩ managedPhp).2 ∧
      MysqlConverges Datadir.orderly Datadir.sampleHome initializedTree
        ⟨[sampleMysql "brew".toList], []⟩ managedMysql
        (reconcileMysql Datadir.orderly Datadir.sampleHome initializedTree
          ⟨[sampleMysql "brew".toList], []⟩ managedMysql).2 := by
  have hknown : managedPhp.knows (samplePhp "brew".toList).major = true := by decide
  have hnew : managedMysql.services.get
      (mysqlServiceId (sampleMysql "brew".toList).major.asStr) = none := by decide
  constructor
  · refine ((rescans_converge_iff sampleStack Datadir.orderly Datadir.sampleHome initializedTree).1 _ _ _ _
      (foundPhp_sample _) rfl).mpr fun rt hrt => ?_
    obtain rfl := List.mem_singleton.mp hrt
    rw [if_pos hknown]
    exact ⟨sampleRow (phpFpmSpec sampleStack.home (samplePhp "brew".toList)) .running (some 8),
      by decide, fun _ => rfl⟩
  · refine ((rescans_converge_iff sampleStack Datadir.orderly Datadir.sampleHome initializedTree).2 _ _ _ _
      (foundMysql_sample _) rfl).mpr fun rt hrt _ r hr => ?_
    obtain rfl := List.mem_singleton.mp hrt
    rw [hnew] at hr
    cases hr

/-- The rows once an uninstall has removed the packaged runtime's. -/
def uninstalled : PhpState where
  runtimes := .holds (some ⟨sampleStack.nginxBin, [samplePhp "packages".toList]⟩)
  services := ((Services.empty.register
    (phpFpmSpec sampleStack.home (samplePhp "packages".toList))).unregister
      (phpFpmServiceId "8.4".toList)).2

/-- The row of a runtime that has moved since. -/
def moved : MysqlState where
  runtimes := .holds (some [sampleMysql "packages".toList])
  services := Services.empty.register
    (mysqlSpec Datadir.sampleHome (sampleMysql "packages".toList))

/-- **A rescan does not converge** after an uninstall has removed the row of a major that
Homebrew still provides, nor when a major's runtime has moved. -/
theorem rescans_diverge :
    (∃ d s', FoundPhp d ∧ reconcilePhp sampleStack d uninstalled = (.ok d, s') ∧
      ¬ PhpConverges sampleStack d uninstalled s') ∧
    ∃ d s', FoundMysql d ∧
      reconcileMysql Datadir.orderly Datadir.sampleHome initializedTree d moved = (.ok d, s') ∧
      ¬ MysqlConverges Datadir.orderly Datadir.sampleHome initializedTree d moved s' := by
  constructor
  · refine ⟨⟨[samplePhp "brew".toList], []⟩, _, foundPhp_sample _, rfl, fun h => ?_⟩
    obtain ⟨r, hr, -⟩ := h.1.listed _ (List.mem_singleton_self _) rfl
    have hnone : (reconcilePhp sampleStack ⟨[samplePhp "brew".toList], []⟩ uninstalled).2.services.get
        (phpFamily.serviceId (samplePhp "brew".toList)) = none := by decide
    exact absurd (hnone.symm.trans hr) (by simp)
  · refine ⟨⟨[sampleMysql "brew".toList], []⟩, _, foundMysql_sample _, rfl, fun h => ?_⟩
    have hserves : mysqlDatadirIsInitialized Datadir.orderly Datadir.sampleHome initializedTree
        (sampleMysql "brew".toList) = true := by decide
    obtain ⟨r, hr, hright⟩ := h.1.listed _ (List.mem_singleton_self _) hserves
    have hrow : (reconcileMysql Datadir.orderly Datadir.sampleHome initializedTree
        ⟨[sampleMysql "brew".toList], []⟩ moved).2.services.get
        (mysqlServiceId (sampleMysql "brew".toList).major.asStr) = some (Row.fresh
          (mysqlSpec Datadir.sampleHome (sampleMysql "packages".toList))) := by decide
    obtain rfl := Option.some.inj (hrow.symm.trans hr)
    exact absurd (hright rfl) (by decide)

end OpenVHost.Desktop
