/-
# Reaping orphans

What a start of the supervisor does with the processes that an earlier one left
running: each record of the registry passes the checks on its pid and service
id, then the process is looked up, and only one that started when the record
says is killed. What the process table answers may change from one record to
the next.

* `reap_iff` — only confirmed processes are signalled, each record is counted
  once, and the records that remain are those whose process could not be
  inspected: exactly if what the first removal writes fits the cap on the file,
  or no record has to remain.
* `uninspected_forgotten` — a file for which an uninspected record is lost.
-/

import OpenVHost.Orphan.Registry

namespace OpenVHost.Orphan

open Text Json

/-! ### Processes -/

/-- The process that reaps, and its process group. -/
structure Caller where
  pid : UInt32
  pgid : UInt32
  deriving DecidableEq, Repr

/-- What the system answers about processes. A process can always name its own group. -/
structure ProcessTable (me : Caller) where
  processStartTime : UInt32 → Except IoError (Option ProcStartTime)
  getpgid : UInt32 → Except IoError UInt32
  kill : Int → Nat → Except IoError Unit
  getpgid_self : getpgid me.pid = .ok me.pgid

/-- A call of `kill`: a negative target is a group, and signal 0 only probes. -/
structure Kill where
  target : Int
  signal : Nat
  deriving DecidableEq, Repr

def sigkill : Nat := 9

/-- `pid as libc::pid_t` -/
def asPid (pid : UInt32) : Int := pid.toInt32.toInt

inductive ReapKind where
  | group
  | singlePidFallback
  deriving DecidableEq, Repr

inductive ReapError where
  /-- "refusing to reap pid …: …" -/
  | refused (pid : UInt32) (reason : String)
  | os (e : IoError)
  deriving DecidableEq, Repr

def maxPid : Nat := 2 ^ 31 - 1

def reapPidFloorViolation (pid : UInt32) : Option String :=
  if pid.toNat ≤ 1 then
    some "pid <= 1 (would self-signal our own group or flip into kill(-1, SIGKILL))"
  else if maxPid < pid.toNat then
    some ("pid > i32::MAX (u32->pid_t cast goes negative, flipping a single-pid kill into a " ++
      "group kill; u32::MAX becomes kill(-1, ...))")
  else none

section Table

variable {me : Caller} (t : ProcessTable me)

def signalGroup (pgid : Int) (signal : Nat) : Except IoError Unit × List Kill :=
  (t.kill (-pgid) signal, [⟨-pgid, signal⟩])

/-- `UnixReaper::reap` -/
def reap (pid : UInt32) : Except ReapError ReapKind × List Kill :=
  match reapPidFloorViolation pid with
  | some reason => (.error (.refused pid reason), [])
  | none =>
      let group := match t.getpgid pid with
        | .ok pg => decide (pg = pid)
        | .error _ => false
      if group then
        match signalGroup t (asPid pid) sigkill with
        | (.ok _, kills) => (.ok .group, kills)
        | (.error e, kills) => (.error (.os e), kills)
      else
        match t.kill (asPid pid) sigkill with
        | .ok _ => (.ok .singlePidFallback, [⟨asPid pid, sigkill⟩])
        | .error e => (.error (.os e), [⟨asPid pid, sigkill⟩])

/-! ### Records -/

def safeServiceId (serviceId : List Char) : Bool :=
  !serviceId.isEmpty && serviceId.all fun c => c.isAlphanum || c == '-' || c == '_' || c == '.'

def rejectReason (rec : SupervisedRecord) : Option String :=
  let pid := rec.identity.pid
  if pid.toNat ≤ 1 then some "pid <= 1 (kill(-1) would signal every process the user can)"
  else if maxPid < pid.toNat then some "pid > i32::MAX (would flip kill(-pid) into kill(+pid))"
  else if pid = me.pid then some "pid is our own process"
  else if (match t.getpgid me.pid with
      | .ok ours => decide (pid = ours)
      | .error _ => false) then some "pid is our own process group"
  else if safeServiceId rec.serviceId then none
  else some "service_id has an unsafe charset"

inductive Decision where
  | rejected (reason : String)
  /-- The start time could not be read: the record is left. -/
  | uninspected (e : IoError)
  | leftHeadless
  | skippedDead
  | skippedReused
  | reaped (outcome : Except ReapError ReapKind)

/-- What becomes of a record, and the calls of `kill` on the way. -/
def consider (rec : SupervisedRecord) : Decision × List Kill :=
  let pid := rec.identity.pid
  match rejectReason t rec with
  | some reason => (.rejected reason, [])
  | none =>
      match t.processStartTime pid with
      | .error e => (.uninspected e, [])
      | .ok none =>
          -- the leader is gone, and its group is only probed
          match signalGroup t (asPid pid) 0 with
          | (.ok _, kills) => (.leftHeadless, kills)
          | (.error _, kills) => (.skippedDead, kills)
      | .ok (some now) =>
          if now ≠ rec.identity.startTime then (.skippedReused, [])
          else
            let (outcome, kills) := reap t pid
            (.reaped outcome, kills)

end Table

structure ReapReport where
  killedGroup : Nat
  killedSingle : Nat
  leftHeadless : Nat
  skippedDead : Nat
  skippedReused : Nat
  rejected : Nat
  errored : Nat
  deriving DecidableEq, Repr

namespace ReapReport

def empty : ReapReport := ⟨0, 0, 0, 0, 0, 0, 0⟩

def count (r : ReapReport) : Decision → ReapReport
  | .rejected _ => { r with rejected := r.rejected + 1 }
  | .uninspected _ => { r with errored := r.errored + 1 }
  | .leftHeadless => { r with leftHeadless := r.leftHeadless + 1 }
  | .skippedDead => { r with skippedDead := r.skippedDead + 1 }
  | .skippedReused => { r with skippedReused := r.skippedReused + 1 }
  | .reaped (.ok .group) => { r with killedGroup := r.killedGroup + 1 }
  | .reaped (.ok .singlePidFallback) => { r with killedSingle := r.killedSingle + 1 }
  | .reaped (.error _) => { r with errored := r.errored + 1 }

def total (r : ReapReport) : Nat :=
  r.killedGroup + r.killedSingle + r.leftHeadless + r.skippedDead + r.skippedReused + r.rejected +
    r.errored

/-- **A record is counted in one field.** -/
theorem total_count (r : ReapReport) (d : Decision) : (r.count d).total = r.total + 1 := by
  match d with
  | .rejected _ | .uninspected _ | .leftHeadless | .skippedDead | .skippedReused
  | .reaped (.ok .group) | .reaped (.ok .singlePidFallback) | .reaped (.error _) =>
      simp only [count, total]
      omega

end ReapReport

/-! ### The loop -/

/-- `dyn ProcessRegistry`, as far as reaping uses it. -/
structure ProcessRegistry (σ : Type) where
  listCurrentBoot : σ → Except IoError (List SupervisedRecord) × σ
  remove : List Char → σ → Except IoError Unit × σ

structure Reaped (σ : Type) where
  registry : σ
  report : ReapReport
  kills : List Kill

section Loop

variable {me : Caller} {σ : Type} (registry : ProcessRegistry σ)

/-- One record. A removal that fails is logged and no more. -/
def reapRecord (t : ProcessTable me) (rec : SupervisedRecord) (r : Reaped σ) : Reaped σ :=
  let decision := (consider t rec).1
  let s := match decision with
    | .uninspected _ => r.registry
    | _ => (registry.remove rec.serviceId r.registry).2
  ⟨s, r.report.count decision, r.kills ++ (consider t rec).2⟩

/-- The records one after the other, each with the process table it meets. -/
def reapEach : (Nat → ProcessTable me) → List SupervisedRecord → Reaped σ → Reaped σ
  | _, [], r => r
  | tables, rec :: recs, r =>
      reapEach (fun i => tables (i + 1)) recs (reapRecord registry (tables 0) rec r)

def reapOrphans (tables : Nat → ProcessTable me) (s : σ) : Reaped σ :=
  match registry.listCurrentBoot s with
  | (.error _, s) => ⟨s, .empty, []⟩
  | (.ok records, s) => reapEach registry tables records ⟨s, .empty, []⟩

end Loop

/-- The file registry: the disk, and what the system will answer in its calls. -/
def fileRegistry [SerdeJson] : ProcessRegistry (Disk × (Nat → Answers)) where
  listCurrentBoot s :=
    let (r, d) := FileRegistry.listCurrentBoot (s.2 0) s.1
    (r, d, fun i => s.2 (i + 1))
  remove serviceId s :=
    let (r, d) := FileRegistry.remove (s.2 0) serviceId s.1
    (r, d, fun i => s.2 (i + 1))

/-! ### Who is signalled -/

section Signals

variable {me : Caller} {t : ProcessTable me} {rec : SupervisedRecord} {k : Kill}

/-- A signal to the process of a record that passed every check. -/
structure Confirmed (t : ProcessTable me) (rec : SupervisedRecord) (k : Kill) : Prop where
  target : k.target = rec.identity.pid.toNat ∨ k.target = -rec.identity.pid.toNat
  above : 1 < rec.identity.pid.toNat
  below : rec.identity.pid.toNat ≤ maxPid
  notSelf : rec.identity.pid ≠ me.pid
  notGroup : rec.identity.pid ≠ me.pgid
  serviceId : safeServiceId rec.serviceId = true
  started : t.processStartTime rec.identity.pid = .ok (some rec.identity.startTime)

theorem asPid_eq {pid : UInt32} (h : pid.toNat ≤ maxPid) : asPid pid = pid.toNat := by
  have hlt : 2 * pid.toBitVec.toNat < 2 ^ 32 := by
    have heq : pid.toBitVec.toNat = pid.toNat := rfl
    unfold maxPid at h
    omega
  exact BitVec.toInt_eq_toNat_of_lt hlt

theorem rejectReason_eq_none (h : rejectReason t rec = none) :
    1 < rec.identity.pid.toNat ∧ rec.identity.pid.toNat ≤ maxPid ∧ rec.identity.pid ≠ me.pid ∧
      rec.identity.pid ≠ me.pgid ∧ safeServiceId rec.serviceId = true := by
  unfold rejectReason at h
  simp only [t.getpgid_self] at h
  split at h
  · cases h
  · split at h
    · cases h
    · split at h
      · cases h
      · split at h
        · cases h
        · split at h
          · next hlow hhigh hself hgroup hsafe =>
              exact ⟨Nat.lt_of_not_le hlow, Nat.le_of_not_lt hhigh, hself, by simpa using hgroup,
                hsafe⟩
          · cases h

theorem reap_kills {pid : UInt32} (hlow : 1 < pid.toNat) (hhigh : pid.toNat ≤ maxPid)
    (hk : k ∈ (reap t pid).2) : k.target = pid.toNat ∨ k.target = -pid.toNat := by
  have hfloor : reapPidFloorViolation pid = none := by
    rw [reapPidFloorViolation, if_neg (Nat.not_le.mpr hlow), if_neg (Nat.not_lt.mpr hhigh)]
  have hkills : (reap t pid).2 = [⟨-asPid pid, sigkill⟩] ∨ (reap t pid).2 = [⟨asPid pid, sigkill⟩] := by
    simp only [reap, hfloor, signalGroup]
    generalize (match t.getpgid pid with
      | .ok pg => decide (pg = pid)
      | .error _ => false) = group
    cases group with
    | true =>
      left
      cases t.kill (-asPid pid) sigkill <;> rfl
    | false =>
      right
      cases t.kill (asPid pid) sigkill <;> rfl
  rw [asPid_eq hhigh] at hkills
  rcases hkills with heq | heq
  · rw [heq, List.mem_singleton] at hk
    exact .inr (hk ▸ rfl)
  · rw [heq, List.mem_singleton] at hk
    exact .inl (hk ▸ rfl)

/-- **A signal is only sent to a confirmed process**; signal 0 is none. -/
theorem consider_kills (hk : k ∈ (consider t rec).2) (hsignal : k.signal ≠ 0) :
    Confirmed t rec k := by
  cases hreject : rejectReason t rec with
  | some reason =>
      simp only [consider, hreject] at hk
      cases hk
  | none =>
      obtain ⟨hlow, hhigh, hself, hgroup, hsafe⟩ := rejectReason_eq_none hreject
      cases hstart : t.processStartTime rec.identity.pid with
      | error e =>
          simp only [consider, hreject, hstart] at hk
          cases hk
      | ok now =>
          cases now with
          | none =>
              have hprobe : (consider t rec).2 = [⟨-asPid rec.identity.pid, 0⟩] := by
                simp only [consider, hreject, hstart, signalGroup]
                cases t.kill (-asPid rec.identity.pid) 0 <;> rfl
              rw [hprobe, List.mem_singleton] at hk
              subst hk
              exact absurd rfl hsignal
          | some now =>
              simp only [consider, hreject, hstart] at hk
              by_cases hsame : now = rec.identity.startTime
              · rw [if_neg (not_not.mpr hsame)] at hk
                exact ⟨reap_kills hlow hhigh hk, hlow, hhigh, hself, hgroup, hsafe, hsame ▸ hstart⟩
              · rw [if_pos hsame] at hk
                cases hk

variable {σ : Type} {registry : ProcessRegistry σ}

/-- **The loop**, whatever the registry answers: every signal is to a confirmed
process, and every record is counted. -/
theorem reapEach_spec (registry : ProcessRegistry σ) (recs : List SupervisedRecord) :
    ∀ (tables : Nat → ProcessTable me)
    (r : Reaped σ),
    (∀ k ∈ (reapEach registry tables recs r).kills, k ∈ r.kills ∨ (k.signal ≠ 0 →
        ∃ i rec, recs[i]? = some rec ∧ Confirmed (tables i) rec k)) ∧
      (reapEach registry tables recs r).report.total = r.report.total + recs.length := by
  induction recs with
  | nil => exact fun _ r => ⟨fun k hk => .inl hk, rfl⟩
  | cons rec recs ih =>
      intro tables r
      obtain ⟨hkills, htotal⟩ :=
        ih (fun i => tables (i + 1)) (reapRecord registry (tables 0) rec r)
      constructor
      · intro k hk
        rcases hkills k hk with hmem | hlater
        · rcases List.mem_append.mp hmem with hbefore | hnow
          · exact .inl hbefore
          · exact .inr fun hsignal => ⟨0, rec, rfl, consider_kills hnow hsignal⟩
        · refine .inr fun hsignal => ?_
          obtain ⟨i, rec', hi, hconfirmed⟩ := hlater hsignal
          exact ⟨i + 1, rec', hi, hconfirmed⟩
      · have hone : (reapRecord registry (tables 0) rec r).report.total = r.report.total + 1 :=
          ReapReport.total_count _ _
        rw [reapEach, htotal, hone, List.length_cons]
        omega

end Signals

/-! ### What remains -/

section Remaining

variable {me : Caller}

/-- A record that passes the checks and whose process could not be looked up. -/
def uninspected (t : ProcessTable me) (rec : SupervisedRecord) : Bool :=
  (rejectReason t rec).isNone && (match t.processStartTime rec.identity.pid with
    | .ok _ => false
    | .error _ => true)

/-- The service ids of the records that are removed. -/
def removedIds : (Nat → ProcessTable me) → List SupervisedRecord → List (List Char)
  | _, [] => []
  | tables, rec :: recs =>
      let later := removedIds (fun i => tables (i + 1)) recs
      if uninspected (tables 0) rec then later else rec.serviceId :: later

theorem consider_uninspected {t : ProcessTable me} {rec : SupervisedRecord} :
    (∃ e, (consider t rec).1 = .uninspected e) ↔ uninspected t rec = true := by
  unfold consider uninspected
  cases hreject : rejectReason t rec with
  | some reason => simp
  | none =>
      cases hstart : t.processStartTime rec.identity.pid with
      | error e => simp [hstart]
      | ok now =>
          cases now with
          | none =>
              cases hkill : t.kill (-asPid rec.identity.pid) 0 <;>
                simp [hstart, signalGroup, hkill]
          | some now => by_cases hsame : now = rec.identity.startTime <;> simp [hstart, hsame]

theorem mem_removedIds {id : List Char} : ∀ {recs : List SupervisedRecord}
    {tables : Nat → ProcessTable me}, id ∈ removedIds tables recs ↔
      ∃ i rec, recs[i]? = some rec ∧ rec.serviceId = id ∧ uninspected (tables i) rec = false
  | [], tables => by simp [removedIds]
  | rec :: recs, tables => by
      have hlater : id ∈ removedIds (fun i => tables (i + 1)) recs ↔ ∃ i rec', recs[i]? = some rec' ∧
          rec'.serviceId = id ∧ uninspected (tables (i + 1)) rec' = false := mem_removedIds
      constructor
      · intro h
        by_cases hu : uninspected (tables 0) rec = true
        · rw [removedIds, if_pos hu] at h
          obtain ⟨i, rec', hi, hid, hinspected⟩ := hlater.mp h
          exact ⟨i + 1, rec', hi, hid, hinspected⟩
        · rw [removedIds, if_neg hu] at h
          rcases List.mem_cons.mp h with rfl | h
          · exact ⟨0, rec, rfl, rfl, by simpa using hu⟩
          · obtain ⟨i, rec', hi, hid, hinspected⟩ := hlater.mp h
            exact ⟨i + 1, rec', hi, hid, hinspected⟩
      · rintro ⟨i, rec', hi, hid, hinspected⟩
        cases i with
        | zero =>
            cases hi
            rw [removedIds, if_neg (by simp [hinspected]), ← hid]
            exact List.mem_cons_self
        | succ i =>
            have hmem := hlater.mpr ⟨i, rec', hi, hid, hinspected⟩
            rw [removedIds]
            split
            · exact hmem
            · exact List.mem_cons_of_mem _ hmem

/-- Nothing fails in any call. -/
def quietly (boot : BootId) : Nat → Answers := fun _ => .quiet boot

/-- One record after the other is removed. -/
def removeAll [SerdeJson] (boot : BootId) (ids : List (List Char)) (d : Disk) : Disk :=
  ids.foldl (fun d id => (FileRegistry.remove (.quiet boot) id d).2) d

variable [SerdeJson] {boot : BootId} {d : Disk} {s : RegistrySnapshot}
  {tables : Nat → ProcessTable me}

/-- **What the loop does to the registry**: the records that are not left are removed. -/
theorem reapEach_registry : ∀ (recs : List SupervisedRecord) (tables : Nat → ProcessTable me)
    (d : Disk) (report : ReapReport) (kills : List Kill),
    (reapEach fileRegistry tables recs ⟨(d, quietly boot), report, kills⟩).registry =
      (removeAll boot (removedIds tables recs) d, quietly boot)
  | [], _, _, _, _ => rfl
  | rec :: recs, tables, d, report, kills => by
      by_cases hu : uninspected (tables 0) rec = true
      · obtain ⟨e, he⟩ := consider_uninspected.mpr hu
        have hrecord : (reapRecord fileRegistry (tables 0) rec
            ⟨(d, quietly boot), report, kills⟩).registry = (d, quietly boot) := by
          simp only [reapRecord, he]
        rw [reapEach, removedIds, if_pos hu]
        generalize reapRecord fileRegistry (tables 0) rec _ = r at hrecord
        obtain ⟨registry, report', kills'⟩ := r
        cases hrecord
        exact reapEach_registry recs _ d report' kills'
      · have hrecord : (reapRecord fileRegistry (tables 0) rec
            ⟨(d, quietly boot), report, kills⟩).registry =
              ((FileRegistry.remove (.quiet boot) rec.serviceId d).2, quietly boot) := by
          have hne : ∀ e, (consider (tables 0) rec).1 ≠ .uninspected e := fun e he =>
            hu (consider_uninspected.mp ⟨e, he⟩)
          show ((match (consider (tables 0) rec).1 with
            | .uninspected _ => (d, quietly boot)
            | _ => (fileRegistry.remove rec.serviceId (d, quietly boot)).2)) = _
          split
          · next e he => exact absurd he (hne e)
          · rfl
        rw [reapEach, removedIds, if_neg hu]
        generalize reapRecord fileRegistry (tables 0) rec _ = r at hrecord
        obtain ⟨registry, report', kills'⟩ := r
        cases hrecord
        exact reapEach_registry recs _ _ report' kills'

theorem removeAll_accepts (ids : List (List Char)) : ∀ {d : Disk} {s : RegistrySnapshot},
    d.Accepts boot s → s.Fits →
      (removeAll boot ids d).records boot =
        s.records.filter fun r => decide (r.serviceId ∉ ids) := by
  induction ids with
  | nil =>
      intro d s h _
      rw [removeAll, List.foldl_nil, records_of_accepts h]
      simp
  | cons id ids ih =>
      intro d s h hfits
      have hretain := fits_retain hfits id
      rw [removeAll, List.foldl_cons]
      refine (ih (remove_accepts h hretain) hretain).trans ?_
      simp only [RegistrySnapshot.retain, List.filter_filter]
      congr 1
      funext r
      by_cases hid : r.serviceId = id <;> simp [hid]

theorem removeAll_bare (ids : List (List Char)) : ∀ {d : Disk}, Bare d boot →
    (removeAll boot ids d).records boot = [] := by
  induction ids with
  | nil => exact fun h => h.records
  | cons id ids ih => exact fun h => ih (h.remove id)

/-- **The listing afterwards**: without the removed records if the first removal
fits, and empty if it does not. -/
theorem records_removeAll {id : List Char} (ids : List (List Char)) (h : d.Accepts boot s)
    (hmem : id ∈ s.records.map SupervisedRecord.serviceId) :
    ((s.retain id).Fits → (removeAll boot (id :: ids) d).records boot =
      s.records.filter fun r => decide (r.serviceId ∉ id :: ids)) ∧
    (¬ (s.retain id).Fits → (removeAll boot (id :: ids) d).records boot = []) := by
  rw [removeAll, List.foldl_cons]
  constructor
  · intro hfits
    refine (removeAll_accepts ids (remove_accepts h hfits) hfits).trans ?_
    simp only [RegistrySnapshot.retain, List.filter_filter]
    congr 1
    funext r
    by_cases hid : r.serviceId = id <;> simp [hid]
  · exact fun hfits => removeAll_bare ids (bare_of_remove h hmem hfits)

/-- **What reaping is for**: only confirmed processes of the current boot are
signalled, each record is counted once, and of records with distinct service ids
those remain whose process could not be inspected. -/
structure ReapLaw (tables : Nat → ProcessTable me) (boot : BootId) (d : Disk)
    (r : Reaped (Disk × (Nat → Answers))) : Prop where
  confirmed : ∀ k ∈ r.kills, k.signal ≠ 0 →
    ∃ s i rec, d.Accepts boot s ∧ s.records[i]? = some rec ∧ Confirmed (tables i) rec k
  counted : r.report.total = (d.records boot).length
  remain : ((d.records boot).map SupervisedRecord.serviceId).Nodup →
    ∀ i rec, (d.records boot)[i]? = some rec →
      (rec ∈ r.registry.1.records boot ↔ uninspected (tables i) rec = true)

/-- No record has to remain, or the snapshot without the first record that is
removed fits the cap on the file. -/
def Keeps (tables : Nat → ProcessTable me) (boot : BootId) (d : Disk) : Prop :=
  ∀ s, d.Accepts boot s → (s.records.map SupervisedRecord.serviceId).Nodup →
    (∃ i rec, s.records[i]? = some rec ∧ uninspected (tables i) rec = true) →
      ∀ id ∈ (removedIds tables s.records).head?, (s.retain id).Fits

/-- Reaping where the registry's calls do not fail. -/
def reapQuietly (tables : Nat → ProcessTable me) (boot : BootId) (d : Disk) : Reaped (Disk × (Nat → Answers)) :=
  reapOrphans fileRegistry tables (d, quietly boot)

theorem listCurrentBoot_quietly : fileRegistry.listCurrentBoot (d, quietly boot) =
    ((FileRegistry.listCurrentBoot (.quiet boot) d).1,
      ((FileRegistry.listCurrentBoot (.quiet boot) d).2, quietly boot)) := rfl

theorem reapQuietly_accepts (h : d.Accepts boot s) : reapQuietly tables boot d =
    reapEach fileRegistry tables s.records ⟨(d, quietly boot), .empty, []⟩ := by
  rw [reapQuietly, reapOrphans, listCurrentBoot_quietly]
  simp only [FileRegistry.listCurrentBoot, load_accepts h]

theorem reapQuietly_refuses (tables : Nat → ProcessTable me) (h : ∀ s, ¬ d.Accepts boot s) :
    (reapQuietly tables boot d).kills = [] ∧ (reapQuietly tables boot d).report = .empty := by
  obtain ⟨d', hload, -⟩ := load_refuses h
  rw [reapQuietly, reapOrphans, listCurrentBoot_quietly]
  simp only [FileRegistry.listCurrentBoot, hload, reapEach, and_self]

/-- Signals and counters, whatever the file holds. -/
theorem reapQuietly_spec : (∀ k ∈ (reapQuietly tables boot d).kills, k.signal ≠ 0 →
      ∃ s i rec, d.Accepts boot s ∧ s.records[i]? = some rec ∧ Confirmed (tables i) rec k) ∧
    (reapQuietly tables boot d).report.total = (d.records boot).length := by
  by_cases h : ∃ s, d.Accepts boot s
  · obtain ⟨s, hs⟩ := h
    obtain ⟨hkills, htotal⟩ := reapEach_spec fileRegistry s.records tables
      ⟨(d, quietly boot), .empty, []⟩
    rw [reapQuietly_accepts hs, records_of_accepts hs]
    constructor
    · intro k hk hsignal
      rcases hkills k hk with hnone | hsome
      · cases hnone
      · obtain ⟨i, rec, hi, hconfirmed⟩ := hsome hsignal
        exact ⟨s, i, rec, hs, hi, hconfirmed⟩
    · exact htotal.trans (Nat.zero_add _)
  · have hnone := not_exists.mp h
    have hbare : Bare d boot := fun s hs => absurd hs (hnone s)
    obtain ⟨hkills, hreport⟩ := reapQuietly_refuses tables hnone
    rw [hkills, hreport, hbare.records]
    exact ⟨by simp, rfl⟩

omit [SerdeJson] in
/-- A record is removed exactly if it is not left, where service ids are distinct. -/
theorem mem_removedIds_of_nodup (tables : Nat → ProcessTable me) {recs : List SupervisedRecord}
    {i : Nat} {rec : SupervisedRecord}
    (hnodup : (recs.map SupervisedRecord.serviceId).Nodup) (hi : recs[i]? = some rec) :
    rec.serviceId ∈ removedIds tables recs ↔ uninspected (tables i) rec = false := by
  constructor
  · intro h
    obtain ⟨j, rec', hj, hid, hinspected⟩ := mem_removedIds.mp h
    have hindex : j = i := by
      have hj' : (recs.map SupervisedRecord.serviceId)[j]? = some rec.serviceId := by
        rw [List.getElem?_map, hj, Option.map_some, hid]
      have hi' : (recs.map SupervisedRecord.serviceId)[i]? = some rec.serviceId := by
        rw [List.getElem?_map, hi, Option.map_some]
      have hlt := (List.getElem?_eq_some_iff.mp hj').1
      exact (List.getElem?_inj hlt hnodup).mp (hj'.trans hi'.symm)
    subst hindex
    rw [hi, Option.some.injEq] at hj
    exact hj ▸ hinspected
  · exact fun h => mem_removedIds.mpr ⟨i, rec, hi, rfl, h⟩

theorem law_of_keeps (h : Keeps tables boot d) :
    ReapLaw tables boot d (reapQuietly tables boot d) := by
  refine ⟨reapQuietly_spec.1, reapQuietly_spec.2, fun hnodup i rec hi => ?_⟩
  by_cases hs : ∃ s, d.Accepts boot s
  · obtain ⟨s, hs⟩ := hs
    rw [records_of_accepts hs] at hnodup hi
    have hremoved := mem_removedIds_of_nodup tables hnodup hi
    have hrec : rec ∈ s.records := List.mem_of_getElem? hi
    rw [reapQuietly_accepts hs, reapEach_registry]
    cases hids : removedIds tables s.records with
    | nil =>
        rw [hids] at hremoved
        show rec ∈ d.records boot ↔ _
        rw [records_of_accepts hs]
        simpa [hrec] using hremoved
    | cons id ids =>
        have hmem : id ∈ s.records.map SupervisedRecord.serviceId := by
          have hid : id ∈ removedIds tables s.records := hids ▸ List.mem_cons_self
          obtain ⟨j, r, hj, rfl, -⟩ := mem_removedIds.mp hid
          exact List.mem_map_of_mem (List.mem_of_getElem? hj)
        obtain ⟨hfit, hlost⟩ := records_removeAll ids hs hmem
        rw [hids] at hremoved
        by_cases hfits : (s.retain id).Fits
        · rw [hfit hfits, List.mem_filter, decide_eq_true_eq, hremoved]
          simp [hrec]
        · -- nothing has to remain then
          have hnone : uninspected (tables i) rec ≠ true := fun hu =>
            hfits (h s hs hnodup ⟨i, rec, hi, hu⟩ id (by rw [hids]; rfl))
          rw [hlost hfits]
          simp [hnone]
  · have hbare : Bare d boot := fun s h => absurd h (not_exists.mp hs s)
    rw [hbare.records] at hi
    cases hi

theorem keeps_of_law (h : ReapLaw tables boot d (reapQuietly tables boot d)) :
    Keeps tables boot d := by
  rintro s hs hnodup ⟨i, rec, hi, hu⟩ id hid
  have hids : ∃ ids, removedIds tables s.records = id :: ids := by
    cases hr : removedIds tables s.records with
    | nil =>
        rw [hr] at hid
        cases hid
    | cons id' ids =>
        rw [hr] at hid
        cases hid
        exact ⟨ids, rfl⟩
  obtain ⟨ids, hids⟩ := hids
  have hmem : id ∈ s.records.map SupervisedRecord.serviceId := by
    have hid : id ∈ removedIds tables s.records := hids ▸ List.mem_cons_self
    obtain ⟨j, r, hj, rfl, -⟩ := mem_removedIds.mp hid
    exact List.mem_map_of_mem (List.mem_of_getElem? hj)
  by_contra hfits
  have hremain := h.remain
  rw [records_of_accepts hs] at hremain
  have hlisted := (hremain hnodup i rec hi).mpr hu
  rw [reapQuietly_accepts hs, reapEach_registry, hids] at hlisted
  rw [(records_removeAll ids hs hmem).2 hfits] at hlisted
  cases hlisted

/-- **Reaping**, for every content of the file and every process table: its law holds
exactly if no record has to remain or the first removal fits. -/
theorem reap_iff (tables : Nat → ProcessTable me) (boot : BootId) (d : Disk) :
    ReapLaw tables boot d (reapQuietly tables boot d) ↔ Keeps tables boot d :=
  ⟨keeps_of_law, law_of_keeps⟩

end Remaining

section Sample

attribute [local instance] objectReader

def sampleSnapshot (id : List Char) : RegistrySnapshot :=
  ⟨.unix 0 0, [⟨"php".toList, ⟨401, .unix 0 0⟩, 0⟩, ⟨id, ⟨402, .unix 0 0⟩, 0⟩]⟩

/-- Process 401 is gone, and nothing else can be looked up. -/
def sampleTable : ProcessTable ⟨7, 7⟩ where
  processStartTime pid := if pid = 401 then .ok none else .error (.os 1)
  getpgid pid := if pid = 7 then .ok 7 else .error (.os 3)
  kill _ _ := .error (.os 3)
  getpgid_self := rfl

/-- A file of one line, as an editor or a script may leave it. -/
def sampleDisk (id : List Char) : Disk :=
  ⟨some (utf8 (print compact 0 (.obj (sampleSnapshot id).fields))), none⟩

theorem utf8Len_compact (id : List Char) :
    utf8Len (print compact 0 (.obj (sampleSnapshot id).fields)) =
      265 + utf8Len (id.flatMap escape) := by
  have hempty : utf8Len (print compact 0 (.obj (sampleSnapshot []).fields)) = 265 := by
    decide +kernel
  have hlast := utf8Len_last compact (.unix 0 0) [⟨"php".toList, ⟨401, .unix 0 0⟩, 0⟩]
    ⟨id, ⟨402, .unix 0 0⟩, 0⟩
  exact hlast.trans (congrArg (· + _) hempty)

theorem utf8Len_pretty_retain {id : List Char} (hid : id ≠ "php".toList) :
    utf8Len ((sampleSnapshot id).retain "php".toList).pretty =
      297 + utf8Len (id.flatMap escape) := by
  have hretain : (sampleSnapshot id).retain "php".toList =
      ⟨.unix 0 0, [⟨id, ⟨402, .unix 0 0⟩, 0⟩]⟩ := by
    rw [RegistrySnapshot.retain, sampleSnapshot,
      List.filter_cons_of_neg (by rw [decide_eq_true_eq]; exact fun h => h rfl),
      List.filter_cons_of_pos (by rw [decide_eq_true_eq]; exact hid), List.filter_nil]
  have hempty : utf8Len (RegistrySnapshot.mk (.unix 0 0) [⟨[], ⟨402, .unix 0 0⟩, 0⟩]).pretty =
      297 := by decide +kernel
  rw [hretain]
  exact (utf8Len_last Json.pretty (.unix 0 0) [] ⟨id, ⟨402, .unix 0 0⟩, 0⟩).trans
    (congrArg (· + _) hempty)

theorem utf8Len_escape_replicate (n : Nat) :
    utf8Len ((List.replicate n 'a').flatMap escape) = n := by
  have hone : escape 'a' = ['a'] := rfl
  have hsize : 'a'.utf8Size = 1 := rfl
  induction n with
  | zero => rfl
  | succ n ih =>
      rw [List.replicate_succ, List.flatMap_cons, utf8Len_append, ih, hone, utf8Len_cons, hsize,
        utf8Len_nil]
      omega

theorem safeServiceId_replicate {n : Nat} (h : 0 < n) :
    safeServiceId (List.replicate n 'a') = true := by
  obtain ⟨m, rfl⟩ := Nat.exists_eq_succ_of_ne_zero (Nat.ne_of_gt h)
  simp [safeServiceId, List.replicate_succ]

theorem sampleDisk_accepts {id : List Char} (h : utf8Len (id.flatMap escape) ≤ 65271) :
    (sampleDisk id).Accepts (.unix 0 0) (sampleSnapshot id) := by
  refine ⟨⟨_, rfl, ?_, ?_⟩, Nat.le_of_ble_eq_true rfl, rfl⟩
  · have hlen := utf8Len_compact id
    unfold utf8Len at hlen h
    unfold maxBytes
    omega
  · rw [decodeUtf8_utf8, Option.bind_some]
    show (parse _).bind RegistrySnapshot.ofJson = _
    rw [parse_print compact_blank (sampleSnapshot id).sound, Option.bind_some,
      RegistrySnapshot.ofJson_fields]

/-- **An uninspected record is lost**: the file is read, but what is left of it when
the first record is removed does not fit. -/
theorem uninspected_forgotten : ¬ ReapLaw (fun _ => sampleTable) (.unix 0 0)
    (sampleDisk (List.replicate 65250 'a'))
    (reapQuietly (fun _ => sampleTable) (.unix 0 0) (sampleDisk (List.replicate 65250 'a'))) := by
  have hall : ∀ id : List Char, id ≠ "php".toList → safeServiceId id = true →
      65240 ≤ utf8Len (id.flatMap escape) → utf8Len (id.flatMap escape) ≤ 65271 →
      ¬ ReapLaw (fun _ => sampleTable) (.unix 0 0) (sampleDisk id)
        (reapQuietly (fun _ => sampleTable) (.unix 0 0) (sampleDisk id)) := by
    intro id hne hsafe hlow hhigh hlaw
    have haccepts := sampleDisk_accepts hhigh
    have hdead : uninspected sampleTable ⟨"php".toList, ⟨401, .unix 0 0⟩, 0⟩ = false := rfl
    have hleft : uninspected sampleTable ⟨id, ⟨402, .unix 0 0⟩, 0⟩ = true := by
      simp [uninspected, rejectReason, hsafe, sampleTable, maxPid]
    have hnodup : ((sampleSnapshot id).records.map SupervisedRecord.serviceId).Nodup :=
      List.nodup_cons.mpr ⟨fun h => hne (List.mem_singleton.mp h).symm, List.nodup_singleton _⟩
    have hfirst : (removedIds (fun _ => sampleTable) (sampleSnapshot id).records).head? =
        some "php".toList := by
      simp only [sampleSnapshot, removedIds, hdead, hleft, Bool.false_eq_true, if_false, if_true,
        List.head?_cons]
    have hfits := keeps_of_law hlaw _ haccepts hnodup ⟨1, _, rfl, hleft⟩ _ hfirst
    have hlen := utf8Len_pretty_retain hne
    unfold RegistrySnapshot.Fits maxBytes at hfits
    omega
  have hlen := utf8Len_escape_replicate 65250
  refine hall _ ?_ ?_ (by omega) (by omega)
  · intro heq
    rw [heq] at hlen
    exact absurd hlen (by decide)
  · exact safeServiceId_replicate (by decide)

end Sample

end OpenVHost.Orphan
