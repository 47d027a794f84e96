/-
# The registry is a finite map

The calls on the registry against the operations of a finite map from service
ids to records. The cap on the number of records is checked before a record is
written; the cap on the file's bytes is checked only when the file is read.

* `registry_is_map` — the calls of one boot are those of the map, as long as
  what each recording writes fits the cap on bytes.
* `listed_after_record` — a record that was taken is listed until a later call is
  about its service.
* `record_discarded` — a recording that does not fit succeeds, and the next call
  moves the file aside.
-/

import OpenVHost.Orphan.Registry

namespace OpenVHost.Orphan

open Text Json

/-! ### The map -/

abbrev RecordMap := Finmap fun _ : List Char => SupervisedRecord

/-- A list of records with one record a service, as a map. -/
structure Represents (m : RecordMap) (rs : List SupervisedRecord) : Prop where
  nodup : (rs.map SupervisedRecord.serviceId).Nodup
  lookup : ∀ id, m.lookup id = rs.find? fun r => decide (r.serviceId = id)

def mapOf : List SupervisedRecord → RecordMap
  | [] => ∅
  | r :: rs => (mapOf rs).insert r.serviceId r

theorem represents_mapOf {rs : List SupervisedRecord}
    (h : (rs.map SupervisedRecord.serviceId).Nodup) : Represents (mapOf rs) rs := by
  refine ⟨h, fun id => ?_⟩
  clear h
  induction rs with
  | nil => rfl
  | cons r rs ih =>
      by_cases hid : r.serviceId = id
      · subst hid
        rw [mapOf, Finmap.lookup_insert, List.find?_cons_of_pos (by simp)]
      · rw [mapOf, Finmap.lookup_insert_of_ne _ (Ne.symm hid), List.find?_cons_of_neg (by simp [hid]),
          ih]

namespace Represents

variable {m : RecordMap} {rs : List SupervisedRecord}

theorem mem_iff (h : Represents m rs) (id : List Char) :
    id ∈ m ↔ id ∈ rs.map SupervisedRecord.serviceId := by
  rw [Finmap.mem_iff, h.lookup]
  constructor
  · rintro ⟨r, hr⟩
    exact List.mem_map.mpr ⟨r, List.mem_of_find?_eq_some hr, by simpa using List.find?_some hr⟩
  · intro hid
    obtain ⟨r, hr, rfl⟩ := List.mem_map.mp hid
    cases hf : rs.find? fun x => decide (x.serviceId = r.serviceId) with
    | some x => exact ⟨x, rfl⟩
    | none => exact absurd (List.find?_eq_none.mp hf r hr) (by simp)

theorem card (h : Represents m rs) : m.keys.card = rs.length := by
  have hkeys : m.keys = (rs.map SupervisedRecord.serviceId).toFinset := by
    ext id
    rw [Finmap.mem_keys, h.mem_iff, List.mem_toFinset]
  rw [hkeys, List.toFinset_card_of_nodup h.nodup, List.length_map]

theorem find?_filter {id id' : List Char} (hne : id' ≠ id) :
    (rs.filter fun r => decide (r.serviceId ≠ id)).find? (fun r => decide (r.serviceId = id')) =
      rs.find? fun r => decide (r.serviceId = id') := by
  rw [List.find?_filter]
  congr 1
  funext r
  by_cases hr : r.serviceId = id'
  · simp [hr, hne]
  · simp [hr]

theorem erase (h : Represents m rs) (id : List Char) :
    Represents (m.erase id) (rs.filter fun r => decide (r.serviceId ≠ id)) := by
  refine ⟨h.nodup.sublist (List.filter_sublist.map _), fun id' => ?_⟩
  by_cases heq : id' = id
  · subst heq
    rw [Finmap.lookup_erase]
    exact (List.find?_eq_none.mpr fun r hr => by simpa using (List.mem_filter.mp hr).2).symm
  · rw [Finmap.lookup_erase_ne heq, h.lookup, find?_filter heq]

theorem insert (h : Represents m rs) (rec : SupervisedRecord) :
    Represents (m.insert rec.serviceId rec)
      ((rs.filter fun r => decide (r.serviceId ≠ rec.serviceId)) ++ [rec]) := by
  have hkept := h.erase rec.serviceId
  have hnew : ∀ r ∈ rs.filter fun r => decide (r.serviceId ≠ rec.serviceId),
      r.serviceId ≠ rec.serviceId := fun r hr => of_decide_eq_true (List.mem_filter.mp hr).2
  refine ⟨?_, fun id => ?_⟩
  · rw [List.map_append, List.nodup_append]
    refine ⟨hkept.nodup, by simp, fun a ha b hb => ?_⟩
    obtain ⟨r, hr, rfl⟩ := List.mem_map.mp ha
    rw [List.map_singleton, List.mem_singleton] at hb
    exact hb ▸ hnew r hr
  · rw [List.find?_append]
    by_cases hid : id = rec.serviceId
    · subst hid
      have hnone : (rs.filter fun r => decide (r.serviceId ≠ rec.serviceId)).find?
          (fun r => decide (r.serviceId = rec.serviceId)) = none :=
        List.find?_eq_none.mpr fun r hr => by simpa using hnew r hr
      rw [Finmap.lookup_insert, hnone]
      simp
    · have hlast : [rec].find? (fun r => decide (r.serviceId = id)) = none :=
        List.find?_eq_none.mpr fun r hr => by
          rw [List.mem_singleton.mp hr]
          simpa using Ne.symm hid
      rw [Finmap.lookup_insert_of_ne _ hid, h.lookup, find?_filter hid, hlast, Option.or_none]

end Represents

/-! ### Calls -/

inductive Op where
  | record (rec : SupervisedRecord)
  | remove (serviceId : List Char)
  | listCurrentBoot
  deriving DecidableEq, Repr

/-- The service that a call is about. -/
def Op.serviceId : Op → Option (List Char)
  | record rec => some rec.serviceId
  | remove serviceId => some serviceId
  | listCurrentBoot => none

/-- A call in which nothing fails, and the boot id that the system answers in it. -/
structure Call where
  op : Op
  boot : BootId
  deriving DecidableEq, Repr

inductive Outcome where
  | done
  | listed (records : List SupervisedRecord)
  | failed (e : IoError)
  deriving DecidableEq, Repr

/-- A recording or a removal returned `Ok`. -/
def Outcome.isDone : Outcome → Bool
  | done => true
  | listed _ | failed _ => false

def Outcome.ofUnit : Except IoError Unit → Outcome
  | .ok _ => .done
  | .error e => .failed e

def Outcome.ofRecords : Except IoError (List SupervisedRecord) → Outcome
  | .ok rs => .listed rs
  | .error e => .failed e

section Calls

variable [SerdeJson]

def Call.exec (c : Call) (d : Disk) : Outcome × Disk :=
  match c.op with
  | .record rec =>
      let (r, d) := FileRegistry.record (.quiet c.boot) rec d
      (.ofUnit r, d)
  | .remove serviceId =>
      let (r, d) := FileRegistry.remove (.quiet c.boot) serviceId d
      (.ofUnit r, d)
  | .listCurrentBoot =>
      let (r, d) := FileRegistry.listCurrentBoot (.quiet c.boot) d
      (.ofRecords r, d)

/-- What each call of a sequence returns. -/
def trace : Disk → List Call → List (Op × Outcome)
  | _, [] => []
  | d, c :: cs => (c.op, (c.exec d).1) :: trace (c.exec d).2 cs

/-- The disk that a sequence of calls leaves. -/
def after (d : Disk) (calls : List Call) : Disk := calls.foldl (fun d c => (c.exec d).2) d

theorem trace_append (d : Disk) (calls more : List Call) :
    trace d (calls ++ more) = trace d calls ++ trace (after d calls) more := by
  induction calls generalizing d with
  | nil => rfl
  | cons c calls ih => exact congrArg (_ :: ·) (ih (c.exec d).2)

/-- The disks that sequences of calls leave, starting without a file. -/
inductive Produced : Disk → Prop
  | fresh {corrupt} : Produced ⟨none, corrupt⟩
  | call {d} (h : Produced d) (c : Call) : Produced (c.exec d).2

/-- **The specification**: each call that succeeds is the map's operation, a
listing returns the map, and nothing fails but the record of a new service when
the map is at capacity. -/
inductive Faithful : RecordMap → List (Op × Outcome) → Prop
  | nil {m} : Faithful m []
  | record {m rec rest} (h : Faithful (m.insert rec.serviceId rec) rest) :
      Faithful m ((.record rec, .done) :: rest)
  | refused {m rec e rest} (hnew : rec.serviceId ∉ m) (hfull : maxRecords ≤ m.keys.card)
      (h : Faithful m rest) : Faithful m ((.record rec, .failed e) :: rest)
  | remove {m serviceId rest} (h : Faithful (m.erase serviceId) rest) :
      Faithful m ((.remove serviceId, .done) :: rest)
  | listed {m rs rest} (hrs : Represents m rs) (h : Faithful m rest) :
      Faithful m ((.listCurrentBoot, .listed rs) :: rest)

/-- The calls are made within one boot: the boot ids are close to each other, and
the one that the file was written under is close to all of them or to none. -/
structure OneBoot (d : Disk) (boot : BootId) (calls : List Call) : Prop where
  close : Close (· ∈ boot :: calls.map Call.boot)
  same : ∀ b ∈ calls.map Call.boot, (∃ s, d.Accepts b s) ↔ ∃ s, d.Accepts boot s

/-- What a recording writes fits the cap on bytes, unless it is refused. -/
def Accommodates (d : Disk) (c : Call) : Prop :=
  match c.op, (FileRegistry.load (.quiet c.boot) d).1 with
  | .record rec, .ok s =>
      ((∀ r ∈ s.records, r.serviceId ≠ rec.serviceId) ∧ maxRecords ≤ s.records.length) ∨
        (s.upsert rec).Fits
  | _, _ => True

/-- Each recording of a sequence fits where it is made. -/
def Accommodated : Disk → List Call → Prop
  | _, [] => True
  | d, c :: cs => Accommodates d c ∧ Accommodated (c.exec d).2 cs

/-! ### What calls leave -/

/-- A disk with no file, or with a snapshot that has one record a service. -/
def WellStored (d : Disk) : Prop :=
  d.file = none ∨ ∃ s : RegistrySnapshot, d.file = some (utf8 s.pretty) ∧
    (s.records.map SupervisedRecord.serviceId).Nodup

variable {d : Disk} {boot : BootId}

theorem WellStored.accepts {s : RegistrySnapshot} (hw : WellStored d) (h : d.Accepts boot s) :
    s.Fits ∧ (s.records.map SupervisedRecord.serviceId).Nodup := by
  rcases hw with hnone | ⟨s', hfile, hnodup⟩
  · exact absurd h (not_accepts_none hnone)
  · obtain ⟨bytes, hbytes, hlen, hs⟩ := h.exists_file
    rw [hfile, Option.some.injEq] at hbytes
    subst hbytes
    rw [fromStr_stored, Option.some.injEq] at hs
    subst hs
    exact ⟨hlen, hnodup⟩

/-- What is loaded has one record a service, and leaves such a disk. -/
theorem WellStored.load (hw : WellStored d) (boot : BootId) :
    ∃ s d', FileRegistry.load (.quiet boot) d = (.ok s, d') ∧ WellStored d' ∧
      (s.records.map SupervisedRecord.serviceId).Nodup := by
  by_cases h : ∃ s, d.Accepts boot s
  · obtain ⟨s, hs⟩ := h
    exact ⟨s, d, load_accepts hs, hw, (hw.accepts hs).2⟩
  · obtain ⟨d', hload, hfile⟩ := load_refuses (not_exists.mp h)
    refine ⟨⟨boot, []⟩, d', hload, ?_, List.nodup_nil⟩
    rcases hfile with hnone | hpurged
    · exact .inl hnone
    · exact .inr ⟨_, hpurged, List.nodup_nil⟩

omit [SerdeJson] in
theorem nodup_upsert {s : RegistrySnapshot} (h : (s.records.map SupervisedRecord.serviceId).Nodup)
    (rec : SupervisedRecord) :
    ((s.upsert rec).records.map SupervisedRecord.serviceId).Nodup :=
  ((represents_mapOf h).insert rec).nodup

/-- **Every call** leaves such a disk. -/
theorem WellStored.exec (hw : WellStored d) (c : Call) : WellStored (c.exec d).2 := by
  obtain ⟨op, boot⟩ := c
  obtain ⟨s, d', hload, hd', hnodup⟩ := hw.load boot
  cases op with
  | record rec =>
      simp only [Call.exec, FileRegistry.record, hload]
      split
      · exact hd'
      · exact .inr ⟨_, rfl, nodup_upsert hnodup rec⟩
  | remove serviceId =>
      simp only [Call.exec, FileRegistry.remove, hload]
      split
      · exact .inr ⟨_, rfl, hnodup.sublist (List.filter_sublist.map _)⟩
      · exact hd'
  | listCurrentBoot =>
      simp only [Call.exec, FileRegistry.listCurrentBoot, hload]
      exact hd'

theorem Produced.wellStored (h : Produced d) : WellStored d := by
  induction h with
  | fresh => exact .inl rfl
  | call _ c ih => exact ih.exec c

/-! ### Refinement -/

variable {boots : BootId → Prop} {m : RecordMap} {rs : List SupervisedRecord}

/-- **One call**: it returns what the map's operation returns, and the file holds
the new map. -/
theorem exec_faithful (hclose : Close boots) (hw : WellStored d) (hd : Holds boots d rs)
    (hm : Represents m rs) {c : Call} (hc : boots c.boot) (hfit : Accommodates d c) :
    ∃ m' rs', Holds boots (c.exec d).2 rs' ∧ Represents m' rs' ∧
      ∀ rest, Faithful m' rest → Faithful m ((c.op, (c.exec d).1) :: rest) := by
  obtain ⟨op, boot⟩ := c
  cases op with
  | record rec =>
      obtain ⟨s, d', hload, hcases⟩ := hd.record hclose hc rec
      simp only [Accommodates, hload] at hfit
      rcases hcases with ⟨hnew, hfull, hrec, hd'⟩ | ⟨d'', hrec, -, hd''⟩
      · refine ⟨m, rs, ?_, hm, fun rest hrest => ?_⟩
        · simpa only [Call.exec, hrec] using hd'
        · simp only [Call.exec, hrec, Outcome.ofUnit]
          refine .refused ?_ (hm.card ▸ hfull) hrest
          rw [hm.mem_iff]
          intro hmem
          obtain ⟨r, hr, hid⟩ := List.mem_map.mp hmem
          exact hnew r hr hid
      · have hfits : (s.upsert rec).Fits := by
          rcases hfit with ⟨hnew, hfull⟩ | hfits
          · -- a recording that is refused does not succeed
            have hrefused : (!s.records.any fun r => decide (r.serviceId = rec.serviceId)) = true ∧
                maxRecords ≤ s.records.length := ⟨by simpa using hnew, hfull⟩
            simp only [FileRegistry.record, hload, if_pos hrefused] at hrec
            cases hrec
          · exact hfits
        refine ⟨_, _, ?_, hm.insert rec, fun rest hrest => ?_⟩
        · simpa only [Call.exec, hrec] using hd'' hfits
        · simpa only [Call.exec, hrec, Outcome.ofUnit] using Faithful.record hrest
  | remove serviceId =>
      obtain ⟨d', hrem, hd'⟩ := hd.remove hclose hc serviceId fun s hs _ =>
        fits_retain (hw.accepts hs).1 serviceId
      refine ⟨_, _, ?_, hm.erase serviceId, fun rest hrest => ?_⟩
      · simpa only [Call.exec, hrem] using hd'
      · simpa only [Call.exec, hrem, Outcome.ofUnit] using Faithful.remove hrest
  | listCurrentBoot =>
      obtain ⟨d', hlist, hd'⟩ := hd.listCurrentBoot hclose hc
      refine ⟨m, rs, ?_, hm, fun rest hrest => ?_⟩
      · simpa only [Call.exec, hlist] using hd'
      · simp only [Call.exec, hlist, Outcome.ofRecords]
        exact .listed hm hrest

theorem trace_faithful (hclose : Close boots) : ∀ {calls : List Call} {d : Disk} {m : RecordMap}
    {rs : List SupervisedRecord}, WellStored d → Holds boots d rs → Represents m rs →
      (∀ c ∈ calls, boots c.boot) → Accommodated d calls → Faithful m (trace d calls)
  | [], _, _, _, _, _, _, _, _ => .nil
  | c :: cs, d, m, rs, hw, hd, hm, hboots, ⟨hfit, hrest⟩ => by
      obtain ⟨m', rs', hd', hm', hcons⟩ :=
        exec_faithful hclose hw hd hm (hboots c List.mem_cons_self) hfit
      exact hcons _ (trace_faithful hclose (hw.exec c) hd' hm'
        (fun c hc => hboots c (List.mem_cons_of_mem _ hc)) hrest)

/-- What the file holds at the start of a boot's calls. -/
theorem OneBoot.holds {calls : List Call} (h : OneBoot d boot calls) :
    Holds (· ∈ boot :: calls.map Call.boot) d (d.records boot) := by
  by_cases hs : ∃ s, d.Accepts boot s
  · have hall : ∀ b ∈ boot :: calls.map Call.boot, ∃ s, d.Accepts b s := by
      intro b hb
      rcases List.mem_cons.mp hb with rfl | hb
      · exact hs
      · exact (h.same b hb).mpr hs
    obtain ⟨s, hs⟩ := hs
    rw [records_of_accepts hs]
    refine .kept s fun b hb => ?_
    obtain ⟨s', hs'⟩ := hall b hb
    exact hs'.unique hs ▸ hs'
  · have hnone : ∀ b ∈ boot :: calls.map Call.boot, ∀ s, ¬ d.Accepts b s := by
      intro b hb s hb'
      rcases List.mem_cons.mp hb with rfl | hb
      · exact hs ⟨s, hb'⟩
      · exact hs ((h.same b hb).mp ⟨s, hb'⟩)
    obtain ⟨d', hload, -⟩ := load_refuses (not_exists.mp hs)
    have hrecords : d.records boot = [] := by
      simp only [Disk.records, FileRegistry.listCurrentBoot, hload]
    rw [hrecords]
    exact .gone hnone

theorem OneBoot.faithful (hd : Produced d) {calls : List Call} (hboot : OneBoot d boot calls)
    (hfit : Accommodated d calls) : Faithful (mapOf (d.records boot)) (trace d calls) := by
  have hholds := hboot.holds
  have hnodup : ((d.records boot).map SupervisedRecord.serviceId).Nodup := by
    obtain ⟨s, d', hload, -, hnodup⟩ := hd.wellStored.load boot
    simpa only [Disk.records, FileRegistry.listCurrentBoot, hload] using hnodup
  exact trace_faithful hboot.close hd.wellStored hholds (represents_mapOf hnodup)
    (fun c hc => List.mem_cons_of_mem _ (List.mem_map_of_mem hc)) hfit

/-- **The registry is a finite map**, from whatever earlier calls left: within one
boot, as long as each recording fits, every call that succeeds has the effect of
the map's operation, and listings return the map. -/
theorem registry_is_map (hd : Produced d) {calls : List Call} (hboot : OneBoot d boot calls)
    (hfit : Accommodated d calls) : Faithful (mapOf (d.records boot)) (trace d calls) :=
  hboot.faithful hd hfit

/-! ### How long a record is listed -/

/-- The boot's calls, and a listing at their end. -/
theorem OneBoot.listing {calls : List Call} (h : OneBoot d boot calls) :
    OneBoot d boot (calls ++ [⟨.listCurrentBoot, boot⟩]) := by
  have hmem : ∀ b ∈ boot :: (calls ++ [(⟨.listCurrentBoot, boot⟩ : Call)]).map Call.boot,
      b ∈ boot :: calls.map Call.boot := by
    intro b hb
    rw [List.map_append, List.mem_cons, List.mem_append] at hb
    rcases hb with rfl | hb | hb
    · exact List.mem_cons_self
    · exact List.mem_cons_of_mem _ hb
    · exact List.mem_cons.mpr (.inl (List.mem_singleton.mp hb))
  constructor
  · exact fun b b' hb hb' => h.close b b' (hmem b hb) (hmem b' hb')
  · intro b hb
    rcases List.mem_cons.mp (hmem b (List.mem_cons_of_mem _ hb)) with rfl | hb
    · exact Iff.rfl
    · exact h.same b hb

theorem Accommodated.listing : ∀ {calls : List Call} {d : Disk}, Accommodated d calls →
    Accommodated d (calls ++ [⟨.listCurrentBoot, boot⟩])
  | [], d, _ => show Accommodates d _ ∧ True from ⟨trivial, trivial⟩
  | _ :: _, _, ⟨hfit, hrest⟩ => ⟨hfit, Accommodated.listing hrest⟩

omit [SerdeJson] in
/-- What the map has under an id is listed, unless a call before is about that id. -/
theorem Faithful.listed_lookup {rec : SupervisedRecord} {last : Outcome} :
    ∀ {post : List (Op × Outcome)} {m : RecordMap},
      Faithful m (post ++ [(.listCurrentBoot, last)]) →
      m.lookup rec.serviceId = some rec →
      (∀ x ∈ post, x.1.serviceId ≠ some rec.serviceId) →
      ∃ rs, last = .listed rs ∧ rs.find? (fun r => decide (r.serviceId = rec.serviceId)) = some rec ∧
        (rs.map SupervisedRecord.serviceId).Nodup
  | [], m, h, hlook, _ => by
      cases h with
      | @listed _ rs _ hrs _ => exact ⟨rs, rfl, by rw [← hrs.lookup, hlook], hrs.nodup⟩
  | (op, outcome) :: post, m, h, hlook, hother => by
      obtain ⟨hne, hpost⟩ := List.forall_mem_cons.mp hother
      cases h with
      | @record _ rec' _ h =>
          refine h.listed_lookup ?_ hpost
          rw [Finmap.lookup_insert_of_ne _ fun heq => hne (congrArg some heq.symm), hlook]
      | refused _ _ h => exact h.listed_lookup hlook hpost
      | @remove _ serviceId _ h =>
          refine h.listed_lookup ?_ hpost
          rw [Finmap.lookup_erase_ne fun heq => hne (congrArg some heq.symm), hlook]
      | listed _ h => exact h.listed_lookup hlook hpost

omit [SerdeJson] in
theorem Faithful.listed_record {rec : SupervisedRecord} {last : Outcome}
    {post : List (Op × Outcome)} (hother : ∀ x ∈ post, x.1.serviceId ≠ some rec.serviceId) :
    ∀ {pre : List (Op × Outcome)} {m : RecordMap},
      Faithful m (pre ++ (.record rec, .done) :: (post ++ [(.listCurrentBoot, last)])) →
      ∃ rs, last = .listed rs ∧ rs.find? (fun r => decide (r.serviceId = rec.serviceId)) = some rec ∧
        (rs.map SupervisedRecord.serviceId).Nodup
  | [], m, h => by
      cases h with
      | record h => exact h.listed_lookup (Finmap.lookup_insert _) hother
  | (op, outcome) :: pre, m, h => by
      cases h with
      | record h | refused _ _ h | remove h | listed _ h => exact Faithful.listed_record hother h

/-- **A record that was taken is listed** until a later call is about its service, as
the only one of that service: within one boot, as long as each recording fits. -/
theorem listed_after_record (hd : Produced d) {calls : List Call} (hboot : OneBoot d boot calls)
    (hfit : Accommodated d calls) {rec : SupervisedRecord} {pre post : List (Op × Outcome)}
    (htrace : trace d calls = pre ++ (.record rec, .done) :: post)
    (hother : ∀ x ∈ post, x.1.serviceId ≠ some rec.serviceId) :
    rec ∈ (after d calls).records boot ∧
      ∀ r ∈ (after d calls).records boot, r.serviceId = rec.serviceId → r = rec := by
  have hall := hboot.listing.faithful hd hfit.listing
  rw [trace_append, htrace, List.append_assoc, List.cons_append] at hall
  obtain ⟨rs, hlast, hfind, hnodup⟩ := Faithful.listed_record hother hall
  have hrecords : (after d calls).records boot = rs := by
    simp only [Call.exec] at hlast
    unfold Disk.records
    cases hlist : (FileRegistry.listCurrentBoot (.quiet boot) (after d calls)).1 with
    | error e =>
        rw [hlist] at hlast
        cases hlast
    | ok rs' =>
        rw [hlist] at hlast
        cases hlast
        rfl
  have hmem := List.mem_of_find?_eq_some hfind
  rw [hrecords]
  exact ⟨hmem, fun r hr hid => List.inj_on_of_nodup_map hnodup hr hmem hid⟩

/-- **A first recording that does not fit** succeeds, and the next listing has moved
the file aside. -/
theorem discarded_of_not_fits {rec : SupervisedRecord} (corrupt : Option (List UInt8))
    (h : ¬ (RegistrySnapshot.upsert ⟨boot, []⟩ rec).Fits) :
    trace ⟨none, corrupt⟩ [⟨.record rec, boot⟩, ⟨.listCurrentBoot, boot⟩] =
      [(.record rec, .done), (.listCurrentBoot, .listed [])] := by
  have hrecord : Call.exec ⟨.record rec, boot⟩ ⟨none, corrupt⟩ =
      (.done, ⟨some (utf8 (RegistrySnapshot.upsert ⟨boot, []⟩ rec).pretty), corrupt⟩) := rfl
  have hfile : (Call.exec ⟨.record rec, boot⟩ ⟨none, corrupt⟩).2.file =
      some (utf8 (RegistrySnapshot.upsert ⟨boot, []⟩ rec).pretty) := rfl
  obtain ⟨d', hload, -⟩ :=
    load_refuses fun s : RegistrySnapshot => (not_accepts_stored hfile h : ¬ Disk.Accepts _ boot s)
  simp only [trace, hrecord] at hload ⊢
  simp only [Call.exec, FileRegistry.listCurrentBoot, hload, Outcome.ofRecords]

/-- **A recording under another boot id** succeeds, and no earlier record is listed after it. -/
theorem dropped_of_shift {boot' : BootId} {rec rec' : SupervisedRecord}
    (corrupt : Option (List UInt8)) (hshift : boot.isBoot boot' = false)
    (hself : boot'.isBoot boot' = true) (hfits : (RegistrySnapshot.upsert ⟨boot', []⟩ rec').Fits) :
    trace ⟨none, corrupt⟩ [⟨.record rec, boot⟩, ⟨.record rec', boot'⟩] =
        [(.record rec, .done), (.record rec', .done)] ∧
      (after ⟨none, corrupt⟩ [⟨.record rec, boot⟩, ⟨.record rec', boot'⟩]).records boot' = [rec'] := by
  have hfirst : Call.exec ⟨.record rec, boot⟩ ⟨none, corrupt⟩ =
      (.done, ⟨some (utf8 (RegistrySnapshot.upsert ⟨boot, []⟩ rec).pretty), corrupt⟩) := rfl
  obtain ⟨d₁, hload, -⟩ : ∃ d₁, FileRegistry.load (.quiet boot')
      ⟨some (utf8 (RegistrySnapshot.upsert ⟨boot, []⟩ rec).pretty), corrupt⟩ =
        (.ok ⟨boot', []⟩, d₁) ∧ _ := by
    refine load_refuses fun s hs => ?_
    obtain ⟨bytes, hbytes, -, hread⟩ := hs.exists_file
    cases hbytes
    rw [fromStr_stored, Option.some.injEq] at hread
    subst hread
    have hboot := hs.boot
    rw [show (RegistrySnapshot.upsert ⟨boot, []⟩ rec).bootId = boot from rfl, hshift] at hboot
    cases hboot
  have hsecond : Call.exec ⟨.record rec', boot'⟩
      ⟨some (utf8 (RegistrySnapshot.upsert ⟨boot, []⟩ rec).pretty), corrupt⟩ =
        (.done, { d₁ with file := some (utf8 (RegistrySnapshot.upsert ⟨boot', []⟩ rec').pretty) }) := by
    simp only [Call.exec, FileRegistry.record, hload]
    rfl
  constructor
  · simp only [trace, hfirst, hsecond]
  · have hafter : (after ⟨none, corrupt⟩ [⟨.record rec, boot⟩, ⟨.record rec', boot'⟩]).file =
        some (utf8 (RegistrySnapshot.upsert ⟨boot', []⟩ rec').pretty) := by
      simp only [after, List.foldl_cons, List.foldl_nil, hfirst, hsecond]
    exact records_of_accepts (accepts_stored hafter hfits (by simp [RegistrySnapshot.upsert,
      RegistrySnapshot.retain, RegistrySnapshot.push, maxRecords]) hself)

end Calls

section Sample

attribute [local instance] objectReader

def sampleBoot : BootId := .unix 1758000000 0

/-- A record of a service of some id. -/
def sampleRecord (serviceId : List Char) : SupervisedRecord :=
  ⟨serviceId, ⟨4242, .unix 1758000100 0⟩, 1758000100000⟩

def sampleCalls : List Call :=
  [⟨.record (sampleRecord "nginx".toList), sampleBoot⟩, ⟨.listCurrentBoot, sampleBoot⟩,
    ⟨.remove "nginx".toList, sampleBoot⟩, ⟨.listCurrentBoot, sampleBoot⟩]

theorem registry_is_map_sample :
    Faithful (mapOf (Disk.records ⟨none, none⟩ sampleBoot)) (trace ⟨none, none⟩ sampleCalls) := by
  have hone : ∀ b ∈ sampleBoot :: sampleCalls.map Call.boot, b = sampleBoot := by
    simp [sampleCalls]
  have hself : sampleBoot.isBoot sampleBoot = true := by decide +kernel
  have hboot : OneBoot ⟨none, none⟩ sampleBoot sampleCalls := by
    constructor
    · intro b b' hb hb'
      rw [hone b hb, hone b' hb']
      exact hself
    · intro b hb
      rw [hone b (List.mem_cons_of_mem _ hb)]
  have hfits : (RegistrySnapshot.upsert ⟨sampleBoot, []⟩ (sampleRecord "nginx".toList)).Fits := by
    decide +kernel
  have hfit : Accommodated ⟨none, none⟩ sampleCalls := ⟨.inr hfits, trivial, trivial, trivial, trivial⟩
  exact registry_is_map .fresh hboot hfit

/-- A service id that is longer than the file may be. -/
def longId : List Char := List.replicate 70000 'a'

theorem upsert_longId_not_fits :
    ¬ (RegistrySnapshot.upsert ⟨sampleBoot, []⟩ (sampleRecord longId)).Fits := by
  have hlen : ∀ rec : SupervisedRecord, rec.serviceId.length ≤
      utf8Len (RegistrySnapshot.upsert ⟨sampleBoot, []⟩ rec).pretty := fun rec =>
    length_serviceId_le List.mem_cons_self
  have hlong : longId.length = 70000 := by rw [longId, List.length_replicate]
  have hle : longId.length ≤ _ := hlen (sampleRecord longId)
  unfold RegistrySnapshot.Fits maxBytes
  omega

/-- A recording with an admissible service id succeeds, and is lost. -/
theorem record_discarded :
    (∀ c ∈ longId, c.isAlphanum = true) ∧
      trace ⟨none, none⟩ [⟨.record (sampleRecord longId), sampleBoot⟩,
          ⟨.listCurrentBoot, sampleBoot⟩] =
        [(.record (sampleRecord longId), .done), (.listCurrentBoot, .listed [])] ∧
      ¬ Faithful (mapOf (Disk.records ⟨none, none⟩ sampleBoot))
        (trace ⟨none, none⟩ [⟨.record (sampleRecord longId), sampleBoot⟩,
          ⟨.listCurrentBoot, sampleBoot⟩]) := by
  have htrace := discarded_of_not_fits none upsert_longId_not_fits
  refine ⟨fun c hc => ?_, htrace, ?_⟩
  · rw [List.eq_of_mem_replicate hc]
    decide
  · rw [htrace]
    have hlost : ∀ rec : SupervisedRecord, ∀ m, ¬ Faithful m
        [(.record rec, .done), (.listCurrentBoot, .listed [])] := by
      intro rec m h
      cases h with
      | record h =>
        cases h with
        | listed hm _ =>
          have hnone := hm.lookup rec.serviceId
          rw [Finmap.lookup_insert] at hnone
          cases hnone
    exact hlost _ _

end Sample

end OpenVHost.Orphan
