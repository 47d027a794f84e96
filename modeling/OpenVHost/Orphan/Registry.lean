/-
# The process registry

The supervised processes of one boot, kept in one JSON file. Every call loads
the file, changes the snapshot in memory and stores it whole. Nothing is refused
for what the file holds: what is not understood is moved aside, what is of
another boot is purged, and either is read as no records.

* `registry_is_map` — as long as what is recorded fits the cap on the file, the
  calls of one boot are those of a finite map from service ids to records.
* `record_discarded` — a record that does not fit is accepted, and lost by the
  next call.
-/

import Mathlib.Data.Finmap
import OpenVHost.Json.Decode

namespace OpenVHost.Orphan

open Text Json

/-! ### Snapshots -/

/-- What tells a process from a later one of the same pid. -/
inductive ProcStartTime where
  | unix (sec usec : Int64)
  | windows (creationFiletime : UInt64)
  deriving DecidableEq, Repr

inductive BootId where
  | unix (sec usec : Int64)
  | windows (bootMs : UInt64)
  deriving DecidableEq, Repr

/-- `BootId::matches`: the boot time of one boot shifts a little as the clock is set. -/
def BootId.isBoot : BootId → BootId → Bool
  | .unix a _, .unix b _ => decide ((a.toInt - b.toInt).natAbs ≤ 5)
  | .windows a, .windows b => decide (((a.toNat : Int) - b.toNat).natAbs ≤ 5000)
  | _, _ => false

structure ProcIdentity where
  pid : UInt32
  startTime : ProcStartTime
  deriving DecidableEq, Repr

structure SupervisedRecord where
  serviceId : List Char
  identity : ProcIdentity
  recordedAtMs : UInt64
  deriving DecidableEq, Repr

structure RegistrySnapshot where
  bootId : BootId
  records : List SupervisedRecord
  deriving DecidableEq, Repr

def ProcStartTime.fields : ProcStartTime → List (List Char × Value)
  | .unix sec usec => [("os".toList, .str "unix".toList), ("sec".toList, .ofInt64 sec),
      ("usec".toList, .ofInt64 usec)]
  | .windows filetime => [("os".toList, .str "windows".toList),
      ("creation_filetime".toList, .ofUInt64 filetime)]

def BootId.fields : BootId → List (List Char × Value)
  | .unix sec usec => [("os".toList, .str "unix".toList), ("sec".toList, .ofInt64 sec),
      ("usec".toList, .ofInt64 usec)]
  | .windows ms => [("os".toList, .str "windows".toList), ("boot_ms".toList, .ofUInt64 ms)]

def ProcIdentity.fields (i : ProcIdentity) : List (List Char × Value) :=
  [("pid".toList, .ofUInt32 i.pid), ("start_time".toList, .obj i.startTime.fields)]

def SupervisedRecord.fields (r : SupervisedRecord) : List (List Char × Value) :=
  [("service_id".toList, .str r.serviceId), ("identity".toList, .obj r.identity.fields),
    ("recorded_at_ms".toList, .ofUInt64 r.recordedAtMs)]

def SupervisedRecord.toJson (r : SupervisedRecord) : Value := .obj r.fields

def RegistrySnapshot.fields (s : RegistrySnapshot) : List (List Char × Value) :=
  [("boot_id".toList, .obj s.bootId.fields),
    ("records".toList, .arr (s.records.map SupervisedRecord.toJson))]

namespace RegistrySnapshot

/-- `serde_json::to_vec_pretty`, as text. -/
def pretty (s : RegistrySnapshot) : List Char := print Json.pretty 0 (.obj s.fields)

/-- The snapshot without the records of a service. -/
def retain (s : RegistrySnapshot) (serviceId : List Char) : RegistrySnapshot :=
  { s with records := s.records.filter fun r => decide (r.serviceId ≠ serviceId) }

def push (s : RegistrySnapshot) (rec : SupervisedRecord) : RegistrySnapshot :=
  { s with records := s.records ++ [rec] }

def upsert (s : RegistrySnapshot) (rec : SupervisedRecord) : RegistrySnapshot :=
  (s.retain rec.serviceId).push rec

end RegistrySnapshot

/-- `serde_json::from_str` for snapshots: it accepts more than what is written,
and gives back what was. -/
class SerdeJson where
  fromStr : List Char → Option RegistrySnapshot
  fromStr_pretty : ∀ snap, fromStr snap.pretty = some snap

/-! ### The file -/

inductive IoError where
  | os (errno : Int)
  /-- "registry at capacity (64 records max); refusing new service_id …" -/
  | atCapacity (serviceId : List Char)
  deriving DecidableEq, Repr

def maxBytes : Nat := 64 * 1024

def maxRecords : Nat := 64

/-- `supervised.json`, and the file that it is moved aside to. -/
structure Disk where
  file : Option (List UInt8)
  corrupt : Option (List UInt8)
  deriving DecidableEq, Repr

/-- What the system answers during one call. -/
structure Answers where
  currentBootId : Except IoError BootId
  metadata : Option IoError
  read : Option IoError
  renamed : Bool
  purged : Option IoError
  stored : Option IoError

/-- The answers where nothing fails. -/
def Answers.quiet (boot : BootId) : Answers := ⟨.ok boot, none, none, true, none, none⟩

@[simp] theorem Answers.quiet_stored (boot : BootId) : (Answers.quiet boot).stored = none := rfl

namespace FileRegistry

def rotateCorrupt (a : Answers) (d : Disk) : Disk :=
  match d.file with
  | some bytes => if a.renamed then ⟨none, some bytes⟩ else d
  | none => d

def rotateAndEmpty (a : Answers) (boot : BootId) (d : Disk) : RegistrySnapshot × Disk :=
  (⟨boot, []⟩, rotateCorrupt a d)

/-- The text is written beside the file and renamed over it. -/
def store (failure : Option IoError) (snap : RegistrySnapshot) (d : Disk) :
    Except IoError Unit × Disk :=
  match failure with
  | some e => (.error e, d)
  | none => (.ok (), { d with file := some (utf8 snap.pretty) })

section Calls

variable [SerdeJson]

def load (a : Answers) (d : Disk) : Except IoError RegistrySnapshot × Disk :=
  match a.currentBootId with
  | .error e => (.error e, d)
  | .ok boot =>
      match a.metadata with
      | some e => (.error e, d)
      | none =>
          match d.file with
          | none => (.ok ⟨boot, []⟩, d)
          | some bytes =>
              if maxBytes < bytes.length then
                let (snap, d) := rotateAndEmpty a boot d
                (.ok snap, d)
              else
                match a.read with
                | some e => (.error e, d)
                | none =>
                    match (decodeUtf8 bytes).bind SerdeJson.fromStr with
                    | none =>
                        let (snap, d) := rotateAndEmpty a boot d
                        (.ok snap, d)
                    | some snap =>
                        if maxRecords < snap.records.length then
                          let (snap, d) := rotateAndEmpty a boot d
                          (.ok snap, d)
                        else if snap.bootId.isBoot boot then (.ok snap, d)
                        -- of another boot: the purge may fail, the records are gone anyway
                        else (.ok ⟨boot, []⟩, (store a.purged ⟨boot, []⟩ d).2)

def record (a : Answers) (rec : SupervisedRecord) (d : Disk) : Except IoError Unit × Disk :=
  match load a d with
  | (.error e, d) => (.error e, d)
  | (.ok snap, d) =>
      let isNew := !snap.records.any fun r => decide (r.serviceId = rec.serviceId)
      if isNew ∧ maxRecords ≤ snap.records.length then (.error (.atCapacity rec.serviceId), d)
      else store a.stored (snap.upsert rec) d

def remove (a : Answers) (serviceId : List Char) (d : Disk) : Except IoError Unit × Disk :=
  match load a d with
  | (.error e, d) => (.error e, d)
  | (.ok snap, d) =>
      let kept := snap.retain serviceId
      if kept.records.length ≠ snap.records.length then store a.stored kept d else (.ok (), d)

def listCurrentBoot (a : Answers) (d : Disk) : Except IoError (List SupervisedRecord) × Disk :=
  match load a d with
  | (.error e, d) => (.error e, d)
  | (.ok snap, d) => (.ok snap.records, d)

end Calls

end FileRegistry

/-! ### What the file holds -/

/-- A snapshot that fits the cap on the file. -/
def RegistrySnapshot.Fits (s : RegistrySnapshot) : Prop := utf8Len s.pretty ≤ maxBytes

instance (s : RegistrySnapshot) : Decidable s.Fits := Nat.decLe _ _

section Accepts

variable [SerdeJson]

/-- A file that is read as a snapshot, at a boot. -/
structure Disk.Accepts (d : Disk) (boot : BootId) (s : RegistrySnapshot) : Prop where
  exists_file : ∃ bytes, d.file = some bytes ∧ bytes.length ≤ maxBytes ∧
    (decodeUtf8 bytes).bind SerdeJson.fromStr = some s
  records : s.records.length ≤ maxRecords
  boot : s.bootId.isBoot boot = true

variable {d : Disk} {boot : BootId} {s s' : RegistrySnapshot}

theorem Disk.Accepts.unique {boot' : BootId} (h : d.Accepts boot s) (h' : d.Accepts boot' s') :
    s = s' := by
  obtain ⟨bytes, hfile, -, hs⟩ := h.exists_file
  obtain ⟨bytes', hfile', -, hs'⟩ := h'.exists_file
  rw [hfile, Option.some.injEq] at hfile'
  subst hfile'
  rw [hs] at hs'
  exact Option.some.inj hs'

theorem fromStr_stored (s : RegistrySnapshot) :
    (decodeUtf8 (utf8 s.pretty)).bind SerdeJson.fromStr = some s := by
  rw [decodeUtf8_utf8, Option.bind_some, SerdeJson.fromStr_pretty]

/-- **A snapshot that fits is accepted once it is stored.** -/
theorem accepts_stored (hfile : d.file = some (utf8 s.pretty)) (hfits : s.Fits)
    (hlen : s.records.length ≤ maxRecords) (hboot : s.bootId.isBoot boot = true) :
    d.Accepts boot s :=
  ⟨⟨_, hfile, hfits, fromStr_stored s⟩, hlen, hboot⟩

/-- A snapshot that does not fit is never accepted. -/
theorem not_accepts_stored (hfile : d.file = some (utf8 s.pretty)) (hfits : ¬ s.Fits) :
    ¬ d.Accepts boot s' := by
  intro h
  obtain ⟨bytes, hbytes, hlen, -⟩ := h.exists_file
  rw [hfile, Option.some.injEq] at hbytes
  rw [← hbytes] at hlen
  exact hfits hlen

theorem not_accepts_none (hfile : d.file = none) : ¬ d.Accepts boot s := by
  intro h
  obtain ⟨bytes, hbytes, -⟩ := h.exists_file
  rw [hfile] at hbytes
  cases hbytes

/-- The records that a listing at a boot returns. -/
def Disk.records (d : Disk) (boot : BootId) : List SupervisedRecord :=
  match (FileRegistry.listCurrentBoot (.quiet boot) d).1 with
  | .ok rs => rs
  | .error _ => []

theorem load_accepts (h : d.Accepts boot s) :
    FileRegistry.load (.quiet boot) d = (.ok s, d) := by
  obtain ⟨bytes, hfile, hlen, hs⟩ := h.exists_file
  have hrecords := h.records
  simp only [FileRegistry.load, Answers.quiet, hfile, hs, h.boot,
    if_neg (Nat.not_lt.mpr hlen), if_neg (Nat.not_lt.mpr hrecords), if_true]

theorem records_of_accepts (h : d.Accepts boot s) : d.records boot = s.records := by
  simp only [Disk.records, FileRegistry.listCurrentBoot, load_accepts h]

/-- A file that is not accepted is read as no records, and is moved aside or purged. -/
theorem load_refuses (h : ∀ s, ¬ d.Accepts boot s) :
    ∃ d', FileRegistry.load (.quiet boot) d = (.ok ⟨boot, []⟩, d') ∧
      (d'.file = none ∨ d'.file = some (utf8 (RegistrySnapshot.pretty ⟨boot, []⟩))) := by
  cases hfile : d.file with
  | none =>
      refine ⟨d, ?_, .inl hfile⟩
      simp only [FileRegistry.load, Answers.quiet, hfile]
  | some bytes =>
      have hrotate : (FileRegistry.rotateCorrupt (.quiet boot) d).file = none := by
        simp only [FileRegistry.rotateCorrupt, hfile, Answers.quiet, if_true]
      by_cases hlen : maxBytes < bytes.length
      · refine ⟨_, ?_, .inl hrotate⟩
        simp only [FileRegistry.load, Answers.quiet, hfile, if_pos hlen,
          FileRegistry.rotateAndEmpty]
      · cases hs : (decodeUtf8 bytes).bind SerdeJson.fromStr with
        | none =>
            refine ⟨_, ?_, .inl hrotate⟩
            simp only [FileRegistry.load, Answers.quiet, hfile, if_neg hlen, hs,
              FileRegistry.rotateAndEmpty]
        | some s =>
            by_cases hrecords : maxRecords < s.records.length
            · refine ⟨_, ?_, .inl hrotate⟩
              simp only [FileRegistry.load, Answers.quiet, hfile, if_neg hlen, hs,
                if_pos hrecords, FileRegistry.rotateAndEmpty]
            · by_cases hboot : s.bootId.isBoot boot = true
              · exact absurd ⟨⟨bytes, hfile, Nat.not_lt.mp hlen, hs⟩, Nat.not_lt.mp hrecords, hboot⟩
                  (h s)
              · refine ⟨{ d with file := some (utf8 (RegistrySnapshot.pretty ⟨boot, []⟩)) }, ?_,
                  .inr rfl⟩
                simp only [FileRegistry.load, Answers.quiet, hfile, if_neg hlen, hs,
                  if_neg hrecords, if_neg hboot, FileRegistry.store]

/-- A removal from an accepted file, if what it stores fits. -/
theorem remove_accepts (h : d.Accepts boot s) {serviceId : List Char}
    (hfits : (s.retain serviceId).Fits) :
    (FileRegistry.remove (.quiet boot) serviceId d).2.Accepts boot (s.retain serviceId) := by
  by_cases hsame : (s.retain serviceId).records.length = s.records.length
  · have heq : s.retain serviceId = s := by
      have hrecords : (s.retain serviceId).records = s.records :=
        List.filter_sublist.eq_of_length hsame
      cases s
      exact congrArg _ hrecords
    simp only [FileRegistry.remove, load_accepts h, hsame, ne_eq, not_true_eq_false, if_false]
    rw [heq]
    exact h
  · simp only [FileRegistry.remove, load_accepts h, ne_eq, hsame, not_false_eq_true, if_true,
      FileRegistry.store, Answers.quiet_stored]
    exact accepts_stored rfl hfits (Nat.le_trans (List.length_filter_le _ _) h.records) h.boot

/-- No record is listed. -/
def Bare (d : Disk) (boot : BootId) : Prop := ∀ s, d.Accepts boot s → s.records = []

theorem Bare.records (h : Bare d boot) : d.records boot = [] := by
  by_cases hs : ∃ s, d.Accepts boot s
  · obtain ⟨s, hs⟩ := hs
    rw [records_of_accepts hs, h s hs]
  · obtain ⟨d', hload, -⟩ := load_refuses (not_exists.mp hs)
    simp only [Disk.records, FileRegistry.listCurrentBoot, hload]

theorem Bare.remove (h : Bare d boot) (serviceId : List Char) :
    Bare (FileRegistry.remove (.quiet boot) serviceId d).2 boot := by
  by_cases hs : ∃ s, d.Accepts boot s
  · obtain ⟨s, hs⟩ := hs
    have hempty := h s hs
    simp only [FileRegistry.remove, load_accepts hs, RegistrySnapshot.retain, hempty,
      List.filter_nil, ne_eq, not_true_eq_false, if_false]
    exact h
  · obtain ⟨d', hload, hfile⟩ := load_refuses (not_exists.mp hs)
    simp only [FileRegistry.remove, hload, RegistrySnapshot.retain, List.filter_nil, ne_eq,
      not_true_eq_false, if_false]
    rcases hfile with hnone | hpurged
    · exact fun s hs => absurd hs (not_accepts_none hnone)
    · intro s hs
      obtain ⟨bytes, hbytes, -, hread⟩ := hs.exists_file
      rw [hpurged, Option.some.injEq] at hbytes
      rw [← hbytes, fromStr_stored, Option.some.injEq] at hread
      rw [← hread]

/-- A removal whose snapshot does not fit leaves no record to be listed. -/
theorem bare_of_remove (h : d.Accepts boot s) {serviceId : List Char}
    (hmem : serviceId ∈ s.records.map SupervisedRecord.serviceId)
    (hfits : ¬ (s.retain serviceId).Fits) :
    Bare (FileRegistry.remove (.quiet boot) serviceId d).2 boot := by
  obtain ⟨r, hr, rfl⟩ := List.mem_map.mp hmem
  have hlt : (s.retain r.serviceId).records.length < s.records.length :=
    List.length_filter_lt_length_iff_exists.mpr ⟨r, hr, by simp⟩
  simp only [FileRegistry.remove, load_accepts h, ne_eq, Nat.ne_of_lt hlt, not_false_eq_true,
    if_true, FileRegistry.store, Answers.quiet_stored]
  exact fun s hs => absurd hs (not_accepts_stored rfl hfits)

end Accepts

/-! ### How long a snapshot is -/

/-- What a snapshot's text has beside the texts of its parts. -/
theorem utf8Len_pretty (s : RegistrySnapshot) : utf8Len s.pretty =
    utf8Len (print Json.pretty 1 (.obj s.bootId.fields)) +
      utf8Len (print Json.pretty 1 (.arr (s.records.map SupervisedRecord.toJson))) + 32 := by
  have hboot : utf8Len (printStr "boot_id".toList) = 9 := by decide
  have hrecords : utf8Len (printStr "records".toList) = 9 := by decide
  have hgap : utf8Len (Json.pretty.gap 1) = 3 := by decide
  have hend : utf8Len (Json.pretty.gap 0) = 1 := by decide
  have hcolon : utf8Len Json.pretty.colon = 1 := by decide
  have hone : ∀ c ∈ [',', ':', '\x7b', '\x7d'], c.utf8Size = 1 := utf8Size_of_all (by decide)
  simp only [RegistrySnapshot.pretty, RegistrySnapshot.fields, print, printFields, utf8Len_append,
    utf8Len_cons, utf8Len_nil, hboot, hrecords, hgap, hend, hcolon, hone ',' (by decide),
    hone ':' (by decide), hone '\x7b' (by decide), hone '\x7d' (by decide), Nat.zero_add]
  omega

theorem fits_retain {s : RegistrySnapshot} (h : s.Fits) (serviceId : List Char) :
    (s.retain serviceId).Fits := by
  have hsub := utf8Len_arr_sublist Json.pretty 1
    ((List.filter_sublist (p := fun r => decide (r.serviceId ≠ serviceId))
      (l := s.records)).map SupervisedRecord.toJson)
  unfold RegistrySnapshot.Fits at h ⊢
  rw [utf8Len_pretty] at h ⊢
  simp only [RegistrySnapshot.retain]
  omega

theorem fits_empty (boot : BootId) : (RegistrySnapshot.mk boot []).Fits := by
  have hint : ∀ n : Int64, utf8Len (printInt n.toInt) ≤ 20 := by
    intro n
    have hlow := n.le_toInt
    have hhigh := n.toInt_lt
    exact utf8Len_printInt (by decide) (show n.toInt.natAbs < 10 ^ 19 by omega)
  have hnat : ∀ n : UInt64, utf8Len (printInt n.toNat) ≤ 21 := by
    intro n
    have h := n.toNat_lt
    exact utf8Len_printInt (by decide) (show (n.toNat : Int).natAbs < 10 ^ 20 by omega)
  have htexts : ∀ t ∈ [printStr "os".toList, printStr "unix".toList, printStr "windows".toList,
      printStr "sec".toList, printStr "usec".toList, printStr "boot_ms".toList, Json.pretty.gap 1,
      Json.pretty.gap 2, Json.pretty.colon], utf8Len t ≤ 9 := by decide
  have hchars : ∀ c ∈ [',', ':', '\x7b', '\x7d'], c.utf8Size = 1 := utf8Size_of_all (by decide)
  have hempty : utf8Len (print Json.pretty 1 (.arr [])) = 2 := by decide
  simp only [List.mem_cons, List.not_mem_nil, or_false, forall_eq_or_imp, forall_eq] at htexts hchars
  obtain ⟨hos, hunix, hwindows, hsec, husec, hms, hgap, hgap', hcolon⟩ := htexts
  obtain ⟨hcomma, hcol, hopen, hclose⟩ := hchars
  unfold RegistrySnapshot.Fits
  rw [utf8Len_pretty, List.map_nil, hempty]
  cases boot with
  | unix sec usec =>
      have hs := hint sec
      have hu := hint usec
      simp only [BootId.fields, Value.ofInt64, print, printFields, utf8Len_append, utf8Len_cons,
        utf8Len_nil, hcomma, hcol, hopen, hclose, maxBytes, Nat.reduceAdd]
      omega
  | windows ms =>
      have hm := hnat ms
      simp only [BootId.fields, Value.ofUInt64, print, printFields, utf8Len_append, utf8Len_cons,
        utf8Len_nil, hcomma, hcol, hopen, hclose, maxBytes, Nat.reduceAdd]
      omega

/-- A snapshot is longer than the service ids of its records. -/
theorem length_serviceId_le {s : RegistrySnapshot} {r : SupervisedRecord} (h : r ∈ s.records) :
    r.serviceId.length ≤ utf8Len s.pretty := by
  have harr := utf8Len_le_arr Json.pretty 1 (List.mem_map_of_mem (f := SupervisedRecord.toJson) h)
  have hid := length_le_utf8Len_printStr r.serviceId
  rw [utf8Len_pretty]
  simp only [SupervisedRecord.toJson, SupervisedRecord.fields, print, printFields, utf8Len_cons,
    utf8Len_append] at harr
  omega

/-- A service id counts in a record's text by its own text. -/
theorem utf8Len_record (l : Layout) (k : Nat) (r : SupervisedRecord) :
    utf8Len (print l k r.toJson) =
      utf8Len (print l k { r with serviceId := [] }.toJson) + utf8Len (r.serviceId.flatMap escape) := by
  simp only [SupervisedRecord.toJson, SupervisedRecord.fields, print, printFields, printStr,
    utf8Len_cons, utf8Len_append, List.flatMap_nil, utf8Len_nil]
  omega

/-- So it does in the text of a snapshot, for the last of its records. -/
theorem utf8Len_last (l : Layout) (boot : BootId) (rs : List SupervisedRecord)
    (r : SupervisedRecord) :
    utf8Len (print l 0 (.obj (RegistrySnapshot.mk boot (rs ++ [r])).fields)) =
      utf8Len (print l 0 (.obj (RegistrySnapshot.mk boot (rs ++ [{ r with serviceId := [] }])).fields)) +
        utf8Len (r.serviceId.flatMap escape) := by
  have hr := utf8Len_record l
  have helems : ∀ k (xs : List Value) x, utf8Len (printElems l k (xs ++ [x])) =
      utf8Len (printElems l k xs) + utf8Len (printElems l k [x]) := by
    intro k xs x
    induction xs with
    | nil => simp [printElems]
    | cons y ys ih =>
        simp only [List.cons_append, printElems, utf8Len_cons, utf8Len_append] at ih ⊢
        omega
  cases rs with
  | nil =>
      simp only [RegistrySnapshot.fields, List.nil_append, List.map_cons, List.map_nil, print,
        printElems, printFields, utf8Len_cons, utf8Len_append, hr _ r]
      omega
  | cons r' rs =>
      simp only [RegistrySnapshot.fields, List.cons_append, List.map_append, List.map_cons,
        List.map_nil, print, printFields, utf8Len_cons, utf8Len_append, helems]
      simp only [printElems, utf8Len_cons, utf8Len_append, hr _ r]
      omega

/-! ### One boot -/

section OneBoot

variable [SerdeJson] {boots : BootId → Prop} {boot : BootId} {d d' : Disk}
  {rs : List SupervisedRecord}

/-- The records that a file holds, whichever of some boot ids the system answers. -/
inductive Holds (boots : BootId → Prop) (d : Disk) : List SupervisedRecord → Prop
  | kept (s : RegistrySnapshot) (h : ∀ boot, boots boot → d.Accepts boot s) : Holds boots d s.records
  | gone (h : ∀ boot, boots boot → ∀ s, ¬ d.Accepts boot s) : Holds boots d []

/-- Boot ids of one boot: each is close to each. -/
def Close (boots : BootId → Prop) : Prop :=
  ∀ b b', boots b → boots b' → b.isBoot b' = true

theorem holds_stored {s : RegistrySnapshot} (hfile : d.file = some (utf8 s.pretty))
    (hfits : s.Fits) (hlen : s.records.length ≤ maxRecords)
    (hboot : ∀ b, boots b → s.bootId.isBoot b = true) : Holds boots d s.records :=
  .kept s fun b hb => accepts_stored hfile hfits hlen (hboot b hb)

/-- **What a call loads** is what the file holds, and the file holds it still. -/
theorem Holds.load (h : Holds boots d rs) (hclose : Close boots) (hboot : boots boot) :
    ∃ s d', FileRegistry.load (.quiet boot) d = (.ok s, d') ∧ s.records = rs ∧
      rs.length ≤ maxRecords ∧ (∀ b, boots b → s.bootId.isBoot b = true) ∧ Holds boots d' rs ∧
      (d.Accepts boot s ∨ s = ⟨boot, []⟩) := by
  cases h with
  | kept s h =>
      exact ⟨s, d, load_accepts (h boot hboot), rfl, (h boot hboot).records,
        fun b hb => (h b hb).boot, .kept s h, .inl (h boot hboot)⟩
  | gone h =>
      obtain ⟨d', hload, hfile⟩ := load_refuses (h boot hboot)
      have hb : ∀ b, boots b → (RegistrySnapshot.mk boot []).bootId.isBoot b = true :=
        fun b hb => hclose boot b hboot hb
      refine ⟨⟨boot, []⟩, d', hload, rfl, Nat.zero_le _, hb, ?_, .inr rfl⟩
      rcases hfile with hnone | hpurged
      · exact .gone fun _ _ _ => not_accepts_none hnone
      · exact holds_stored hpurged (fits_empty boot) (Nat.zero_le _) hb

theorem Holds.listCurrentBoot (h : Holds boots d rs) (hclose : Close boots) (hboot : boots boot) :
    ∃ d', FileRegistry.listCurrentBoot (.quiet boot) d = (.ok rs, d') ∧ Holds boots d' rs := by
  obtain ⟨s, d', hload, hrs, -, -, hd', -⟩ := h.load hclose hboot
  refine ⟨d', ?_, hd'⟩
  simp only [FileRegistry.listCurrentBoot, hload, hrs]

/-- **A removal** drops the service's records, if what it stores fits. -/
theorem Holds.remove (h : Holds boots d rs) (hclose : Close boots) (hboot : boots boot)
    (serviceId : List Char)
    (hfits : ∀ s, d.Accepts boot s → (s.retain serviceId).records.length ≠ s.records.length →
      (s.retain serviceId).Fits) :
    ∃ d', FileRegistry.remove (.quiet boot) serviceId d = (.ok (), d') ∧
      Holds boots d' (rs.filter fun r => decide (r.serviceId ≠ serviceId)) := by
  obtain ⟨s, d', hload, rfl, hlen, hb, hd', hs⟩ := h.load hclose hboot
  by_cases hsame : (s.retain serviceId).records.length = s.records.length
  · have heq : (s.retain serviceId).records = s.records :=
      List.filter_sublist.eq_of_length hsame
    refine ⟨d', ?_, ?_⟩
    · simp only [FileRegistry.remove, hload, hsame, ne_eq, not_true_eq_false, if_false]
    · exact (congrArg (Holds boots d') heq).mpr hd'
  · refine ⟨{ d' with file := some (utf8 (s.retain serviceId).pretty) }, ?_, ?_⟩
    · simp only [FileRegistry.remove, hload, ne_eq, hsame, not_false_eq_true, if_true,
        FileRegistry.store, Answers.quiet_stored]
    · rcases hs with hs | rfl
      · exact holds_stored rfl (hfits s hs hsame)
          (Nat.le_trans (List.length_filter_le _ _) hlen) hb
      · exact absurd rfl hsame

/-- **A recording** refuses a new service at capacity, and replaces or adds the
service's record otherwise, if what it stores fits. -/
theorem Holds.record (h : Holds boots d rs) (hclose : Close boots) (hboot : boots boot)
    (rec : SupervisedRecord) :
    ∃ s d', FileRegistry.load (.quiet boot) d = (.ok s, d') ∧
      (((∀ r ∈ rs, r.serviceId ≠ rec.serviceId) ∧ maxRecords ≤ rs.length ∧
          FileRegistry.record (.quiet boot) rec d = (.error (.atCapacity rec.serviceId), d') ∧
          Holds boots d' rs) ∨
        ∃ d'', FileRegistry.record (.quiet boot) rec d = (.ok (), d'') ∧
          d''.file = some (utf8 (s.upsert rec).pretty) ∧
          ((s.upsert rec).Fits →
            Holds boots d'' ((rs.filter fun r => decide (r.serviceId ≠ rec.serviceId)) ++ [rec]))) := by
  obtain ⟨s, d', hload, rfl, hlen, hb, hd', -⟩ := h.load hclose hboot
  refine ⟨s, d', hload, ?_⟩
  by_cases hfull : (!s.records.any fun r => decide (r.serviceId = rec.serviceId)) = true ∧
      maxRecords ≤ s.records.length
  · left
    have hnew : ∀ r ∈ s.records, r.serviceId ≠ rec.serviceId := by
      simpa using hfull.1
    refine ⟨hnew, hfull.2, ?_, hd'⟩
    simp only [FileRegistry.record, hload, if_pos hfull]
  · right
    refine ⟨{ d' with file := some (utf8 (s.upsert rec).pretty) }, ?_, rfl, fun hfits => ?_⟩
    · simp only [FileRegistry.record, hload, if_neg hfull, FileRegistry.store, Answers.quiet_stored]
    · refine holds_stored rfl hfits ?_ hb
      have hle := List.length_filter_le (fun r => decide (r.serviceId ≠ rec.serviceId)) s.records
      simp only [RegistrySnapshot.upsert, RegistrySnapshot.push, RegistrySnapshot.retain,
        List.length_append, List.length_singleton]
      by_cases hroom : maxRecords ≤ s.records.length
      · -- at capacity the service is there, so that its record leaves
        have hold : ∃ r ∈ s.records, r.serviceId = rec.serviceId := by
          by_contra hno
          push Not at hno
          exact hfull ⟨by simpa using hno, hroom⟩
        obtain ⟨r, hr, hid⟩ := hold
        have hlt : (s.records.filter fun r => decide (r.serviceId ≠ rec.serviceId)).length <
            s.records.length :=
          List.length_filter_lt_length_iff_exists.mpr ⟨r, hr, by simp [hid]⟩
        omega
      · omega

end OneBoot

/-! ### A reader

Snapshots as objects that have each of their fields once.
-/

namespace ProcStartTime

def ofTag (v : Value) (os : List Char) : Option ProcStartTime :=
  if os = "unix".toList then do
    let sec ← v.get "sec".toList Value.toInt64
    let usec ← v.get "usec".toList Value.toInt64
    some (.unix sec usec)
  else if os = "windows".toList then do
    let filetime ← v.get "creation_filetime".toList Value.toUInt64
    some (.windows filetime)
  else none

def ofJson (v : Value) : Option ProcStartTime := (v.get "os".toList Value.text).bind (ofTag v)

theorem names (t : ProcStartTime) : (t.fields.map Prod.fst).Nodup := by
  cases t with
  | unix =>
      show ["os".toList, "sec".toList, "usec".toList].Nodup
      decide
  | windows =>
      show ["os".toList, "creation_filetime".toList].Nodup
      decide

theorem ofTag_unix (v : Value) : ofTag v "unix".toList = (do
    let sec ← v.get "sec".toList Value.toInt64
    let usec ← v.get "usec".toList Value.toInt64
    some (.unix sec usec)) := if_pos rfl

theorem ofTag_windows (v : Value) : ofTag v "windows".toList = (do
    let filetime ← v.get "creation_filetime".toList Value.toUInt64
    some (.windows filetime)) := by
  have hne : "windows".toList ≠ "unix".toList := by decide
  rw [ofTag, if_neg hne, if_pos rfl]

theorem ofJson_fields (t : ProcStartTime) : ofJson (.obj t.fields) = some t := by
  have hnames := t.names
  cases t with
  | unix sec usec =>
      have hos := Value.get_of_mem hnames (.head _) Value.text rfl
      have hsec := Value.get_of_mem hnames (.tail _ (.head _)) _ (Value.toInt64_ofInt64 sec)
      have husec := Value.get_of_mem hnames (.tail _ (.tail _ (.head _))) _
        (Value.toInt64_ofInt64 usec)
      rw [ofJson, hos, Option.bind_some, ofTag_unix, hsec, husec]
      rfl
  | windows filetime =>
      have hos := Value.get_of_mem hnames (.head _) Value.text rfl
      have htime := Value.get_of_mem hnames (.tail _ (.head _)) _
        (Value.toUInt64_ofUInt64 filetime)
      rw [ofJson, hos, Option.bind_some, ofTag_windows, htime]
      rfl

theorem sound (t : ProcStartTime) : Sound 1 (.obj t.fields) := by
  cases t <;> exact .obj (by simp [fields, Sound.str, Sound.ofInt64, Sound.ofUInt64])

end ProcStartTime

namespace BootId

def ofTag (v : Value) (os : List Char) : Option BootId :=
  if os = "unix".toList then do
    let sec ← v.get "sec".toList Value.toInt64
    let usec ← v.get "usec".toList Value.toInt64
    some (.unix sec usec)
  else if os = "windows".toList then do
    let ms ← v.get "boot_ms".toList Value.toUInt64
    some (.windows ms)
  else none

def ofJson (v : Value) : Option BootId := (v.get "os".toList Value.text).bind (ofTag v)

theorem names (b : BootId) : (b.fields.map Prod.fst).Nodup := by
  cases b with
  | unix =>
      show ["os".toList, "sec".toList, "usec".toList].Nodup
      decide
  | windows =>
      show ["os".toList, "boot_ms".toList].Nodup
      decide

theorem ofTag_unix (v : Value) : ofTag v "unix".toList = (do
    let sec ← v.get "sec".toList Value.toInt64
    let usec ← v.get "usec".toList Value.toInt64
    some (.unix sec usec)) := if_pos rfl

theorem ofTag_windows (v : Value) : ofTag v "windows".toList = (do
    let ms ← v.get "boot_ms".toList Value.toUInt64
    some (.windows ms)) := by
  have hne : "windows".toList ≠ "unix".toList := by decide
  rw [ofTag, if_neg hne, if_pos rfl]

theorem ofJson_fields (b : BootId) : ofJson (.obj b.fields) = some b := by
  have hnames := b.names
  cases b with
  | unix sec usec =>
      have hos := Value.get_of_mem hnames (.head _) Value.text rfl
      have hsec := Value.get_of_mem hnames (.tail _ (.head _)) _ (Value.toInt64_ofInt64 sec)
      have husec := Value.get_of_mem hnames (.tail _ (.tail _ (.head _))) _
        (Value.toInt64_ofInt64 usec)
      rw [ofJson, hos, Option.bind_some, ofTag_unix, hsec, husec]
      rfl
  | windows ms =>
      have hos := Value.get_of_mem hnames (.head _) Value.text rfl
      have hms := Value.get_of_mem hnames (.tail _ (.head _)) _ (Value.toUInt64_ofUInt64 ms)
      rw [ofJson, hos, Option.bind_some, ofTag_windows, hms]
      rfl

theorem sound (b : BootId) : Sound 1 (.obj b.fields) := by
  cases b <;> exact .obj (by simp [fields, Sound.str, Sound.ofInt64, Sound.ofUInt64])

end BootId

namespace ProcIdentity

def ofJson (v : Value) : Option ProcIdentity := do
  let pid ← v.get "pid".toList Value.toUInt32
  let startTime ← v.get "start_time".toList ProcStartTime.ofJson
  some ⟨pid, startTime⟩

theorem ofJson_fields (i : ProcIdentity) : ofJson (.obj i.fields) = some i := by
  have hnames : (i.fields.map Prod.fst).Nodup := by
    show ["pid".toList, "start_time".toList].Nodup
    decide
  have hpid := Value.get_of_mem hnames (.head _) _ (Value.toUInt32_ofUInt32 i.pid)
  have htime := Value.get_of_mem hnames (.tail _ (.head _)) _ i.startTime.ofJson_fields
  rw [ofJson, hpid, htime]
  rfl

theorem sound (i : ProcIdentity) : Sound 2 (.obj i.fields) :=
  .obj (by simp [fields, Sound.ofUInt32, i.startTime.sound])

end ProcIdentity

namespace SupervisedRecord

def ofJson (v : Value) : Option SupervisedRecord := do
  let serviceId ← v.get "service_id".toList Value.text
  let identity ← v.get "identity".toList ProcIdentity.ofJson
  let recordedAtMs ← v.get "recorded_at_ms".toList Value.toUInt64
  some ⟨serviceId, identity, recordedAtMs⟩

theorem ofJson_toJson (r : SupervisedRecord) : ofJson r.toJson = some r := by
  have hnames : (r.fields.map Prod.fst).Nodup := by
    show ["service_id".toList, "identity".toList, "recorded_at_ms".toList].Nodup
    decide
  have hid := Value.get_of_mem hnames (.head _) Value.text rfl
  have hidentity := Value.get_of_mem hnames (.tail _ (.head _)) _ r.identity.ofJson_fields
  have hms := Value.get_of_mem hnames (.tail _ (.tail _ (.head _))) _
    (Value.toUInt64_ofUInt64 r.recordedAtMs)
  rw [ofJson, toJson, hid, hidentity, hms]
  rfl

theorem sound (r : SupervisedRecord) : Sound 3 r.toJson :=
  .obj (by simp [fields, Sound.str, Sound.ofUInt64, r.identity.sound])

end SupervisedRecord

namespace RegistrySnapshot

def ofJson (v : Value) : Option RegistrySnapshot := do
  let bootId ← v.get "boot_id".toList BootId.ofJson
  let records ← v.get "records".toList fun v => v.elems.bind (·.mapM SupervisedRecord.ofJson)
  some ⟨bootId, records⟩

theorem ofJson_fields (s : RegistrySnapshot) : ofJson (.obj s.fields) = some s := by
  have hnames : (s.fields.map Prod.fst).Nodup := by
    show ["boot_id".toList, "records".toList].Nodup
    decide
  have hboot := Value.get_of_mem hnames (.head _) _ s.bootId.ofJson_fields
  have hmap : (s.records.map SupervisedRecord.toJson).mapM SupervisedRecord.ofJson =
      some s.records := by
    induction s.records with
    | nil => rfl
    | cons r rs ih => simp [SupervisedRecord.ofJson_toJson, ih]
  have hrecords := Value.get_of_mem hnames (.tail _ (.head _))
    (fun v => v.elems.bind (·.mapM SupervisedRecord.ofJson)) hmap
  rw [ofJson, hboot, hrecords]
  rfl

theorem sound (s : RegistrySnapshot) : Sound maxDepth (.obj s.fields) := by
  have hrecords : Sound 4 (.arr (s.records.map SupervisedRecord.toJson)) := by
    refine .arr fun v hv => ?_
    obtain ⟨r, -, rfl⟩ := List.mem_map.mp hv
    exact r.sound.mono (by decide)
  have hs : Sound 5 (.obj s.fields) :=
    .obj (by simpa [fields] using ⟨s.bootId.sound.mono (by decide), hrecords.mono (by decide)⟩)
  exact hs.mono (by decide)

end RegistrySnapshot

/-- A reader of snapshots, whatever their layout. -/
@[reducible] def objectReader : SerdeJson where
  fromStr s := (parse s).bind RegistrySnapshot.ofJson
  fromStr_pretty s := by
    rw [RegistrySnapshot.pretty, parse_print pretty_blank s.sound, Option.bind_some,
      RegistrySnapshot.ofJson_fields]

end OpenVHost.Orphan
