/-
# The second pass writes what the first one planned

Pass 2 derives each entry's destination from the raw stream again. On an archive
that pass 1 accepted it makes the same decisions: `writeFiles` is `writeAll` over
the archive's regular entries, each under its planned name and mode, in order
(`writeFiles_eq_writeAll`).

* `wp_copyHardlinks` — what the hard links leave.
* `wp_materialize` — the whole of pass 2 into an empty directory.
* `materialize_agrees` — every planned file is written once, under its own path,
  with its own entry's bytes and mode, and nothing else is written.
-/

import OpenVHost.Pkg.Phases
import OpenVHost.Pkg.Plan

namespace OpenVHost.Pkg

open FileTree FileTree.Tree FileTree.Io

/-! ### The files a plan has -/

def PlannedEntry.isFile (item : PlannedEntry) : Bool :=
  match item.kind with
  | .file _ => true
  | _ => false

/-- A regular entry. -/
def TarEntry.isFile (e : TarEntry) : Bool := e.entryType.isRegular

/-- The mode a regular entry's file is given. -/
def TarEntry.fileMode (e : TarEntry) : Nat := clampMode (e.mode.getD 0o644)

theorem plannedKind_file {entry : TarEntry} {kind : PlannedKind} {mode : Nat}
    (h : plannedKind entry = .ok kind) :
    kind = .file mode ↔ entry.isFile = true ∧ mode = entry.mode.getD 0o644 := by
  unfold plannedKind at h
  cases ht : entry.entryType <;> simp only [ht, bind_eq_ok, reduceCtorEq, Except.ok.injEq] at h
  case regular | continuous => simp [← h, ht, TarEntry.isFile, EntryType.isRegular, eq_comm]
  case directory => simp [← h, ht, TarEntry.isFile, EntryType.isRegular]
  case symlink =>
    obtain ⟨-, -, rfl⟩ := h
    simp [ht, TarEntry.isFile, EntryType.isRegular]
  case link =>
    obtain ⟨-, -, -, -, rfl⟩ := h
    simp [ht, TarEntry.isFile, EntryType.isRegular]

theorem retarget_file {strip : StripInfo} {rel : Str} {kind kind' : PlannedKind} {mode : Nat}
    (h : retarget strip rel kind = .ok kind') : kind' = .file mode ↔ kind = .file mode := by
  cases kind with
  | dir => simp [← Except.ok.inj h]
  | file mode' => simp [← Except.ok.inj h]
  | symlink target =>
      simp only [retarget, bind_eq_ok] at h
      obtain ⟨-, -, h⟩ := h
      simp [← Except.ok.inj h]
  | hardlink target =>
      simp only [retarget] at h
      split at h <;> simp [← Except.ok.inj h]

section Items

variable {strip : StripInfo} {entry : TarEntry} {item : PlannedEntry}

theorem PlansAs.file_iff (h : PlansAs strip entry item) {mode : Nat} :
    item.kind = .file mode ↔ entry.isFile = true ∧ mode = entry.mode.getD 0o644 := by
  obtain ⟨kind, hk, hr⟩ := h.kind
  rw [retarget_file hr, plannedKind_file hk]

theorem PlansAs.isFile_iff (h : PlansAs strip entry item) :
    item.isFile = entry.isFile := by
  have hf : ∀ mode, item.kind = .file mode ↔ entry.isFile = true ∧ mode = entry.mode.getD 0o644 :=
    fun _ => h.file_iff
  unfold PlannedEntry.isFile
  cases hr : entry.isFile with
  | true =>
      have := (hf (entry.mode.getD 0o644)).mpr ⟨hr, rfl⟩
      simp [this]
  | false =>
      split
      next mode hk =>
        have := (hf mode).mp hk
        simp [hr] at this
      next => rfl

/-- **The planned files are the regular entries**, in order. -/
theorem Accounts.regular {before plan : List PlannedEntry} {entries : List TarEntry}
    (h : Accounts strip before entries plan) :
    List.Forall₂ (PlansAs strip) (entries.filter TarEntry.isFile)
      (plan.filter PlannedEntry.isFile) := by
  induction h with
  | nil => exact .nil
  | @metadata _ e _ _ hm _ ih =>
      have : e.isFile = false := by
        unfold TarEntry.isFile
        cases ht : e.entryType <;> simp_all [EntryType.isMetadata, EntryType.isRegular]
      simpa [this] using ih
  | root hd _ _ _ ih | repeated hd _ _ _ ih => simpa [hd, TarEntry.isFile, EntryType.isRegular] using ih
  | @planned _ e _ _ item _ hi _ ih =>
      cases hr : e.isFile with
      | true =>
          rw [List.filter_cons_of_pos hr, List.filter_cons_of_pos (hi.isFile_iff.trans hr)]
          exact .cons hi ih
      | false =>
          have hf : item.isFile = false := hi.isFile_iff.trans hr
          rw [List.filter_cons_of_neg (by simp [hr]), List.filter_cons_of_neg (by simp [hf])]
          exact ih

end Items

/-! ### Pass 2 as a list of files -/

/-- The file an entry and its item stand for. -/
def fileJob (entry : TarEntry) (item : PlannedEntry) : FileJob :=
  ⟨item.rel, entry.fileMode, entry.reads⟩

/-- The wording of a pass changes no name. -/
theorem entryRel_eq_ok {a b : String} {entry : TarEntry} {rel : Str}
    (h : entryRel a entry = .ok rel) : entryRel b entry = .ok rel := by
  unfold entryRel at h ⊢
  cases hp : entry.path with
  | error e => simp [hp] at h
  | ok p =>
      cases p with
      | none => simp [hp] at h
      | some p => simpa [hp] using h

theorem finalRel_eq_some {strip : StripInfo} {entry : TarEntry} {rel : Str} :
    finalRel strip entry = some rel ↔
      ∃ name, tarName entry = .ok name ∧ strippedRel name strip = some rel := by
  unfold finalRel
  cases tarName entry <;> simp

/-- The lookup of a list with distinct keys. -/
theorem lookup_of_mem {α β : Type} [BEq α] [LawfulBEq α] {xs : List (α × β)} {a : α} {b : β}
    (hnd : (xs.map Prod.fst).Nodup) (h : (a, b) ∈ xs) : xs.lookup a = some b := by
  induction xs with
  | nil => simp at h
  | cons x xs ih =>
      rw [List.map_cons, List.nodup_cons] at hnd
      rcases List.mem_cons.mp h with rfl | h
      · simp
      · have hne : a ≠ x.1 := by
          rintro rfl
          exact hnd.1 (List.mem_map.mpr ⟨_, h, rfl⟩)
        have hne' : (a == x.1) = false := by simpa using hne
        rw [show x = (x.1, x.2) from rfl, List.lookup_cons, hne']
        exact ih hnd.2 h

/-- **Pass 2 makes the decisions of pass 1**: it writes the regular entries, each
under its planned name and mode, in order. -/
theorem writeFiles_eq_writeAll {pf : Platform} {strip : StripInfo} {dest : Path}
    {modes : List (Str × Nat)} :
    ∀ {entries : List TarEntry} {items : List PlannedEntry} {written : Nat},
      List.Forall₂ (PlansAs strip) (entries.filter TarEntry.isFile) items →
      (∀ item ∈ items, ∀ mode, item.kind = .file mode →
        modes.lookup item.rel = some (clampMode mode)) →
      writeFiles pf strip modes dest written (entries.map .ok) =
        writeAll pf dest written
          (List.zipWith fileJob (entries.filter TarEntry.isFile) items)
  | [], _, _, h, _ => by
      cases h
      rfl
  | e :: rest, items, written, h, hm => by
      rw [List.map_cons, writeFiles]
      cases hr : e.isFile with
      | false =>
          have hr' : e.entryType.isRegular = false := hr
          rw [List.filter_cons_of_neg (by simp [hr])] at h ⊢
          simpa [hr'] using writeFiles_eq_writeAll h hm
      | true =>
          rw [List.filter_cons_of_pos hr] at h ⊢
          cases h with
          | @cons _ item _ items hi hrest =>
              obtain ⟨name, hname, hstrip⟩ := finalRel_eq_some.mp hi.rel
              have hname' : entryRel "path not utf-8" e = .ok name := entryRel_eq_ok hname
              have hlookup : modes.lookup item.rel = some e.fileMode :=
                hm item (by simp) _ (hi.file_iff.mpr ⟨hr, rfl⟩)
              have hih : ∀ w, writeFiles pf strip modes dest w (rest.map .ok) = _ := fun w =>
                writeFiles_eq_writeAll hrest fun i hmem =>
                  hm i (List.mem_cons_of_mem _ hmem)
              have hr' : e.entryType.isRegular = true := hr
              rw [List.zipWith_cons_cons, writeAll]
              simp only [hr', Bool.not_true, Bool.false_eq_true, if_false, hname', Io.ofExcept,
                pure_bind, hstrip, hlookup, hih]
              rfl

/-! ### The account of the files -/

/-- One line of the account of pass 2: an entry, its item, and its bytes as they
were read. -/
structure FileRecord where
  entry : TarEntry
  item : PlannedEntry
  chunks : List Bytes

namespace FileRecord

/-- The writes of the record's file. -/
def writes (dest : Path) (r : FileRecord) : List Write :=
  fileWrites (dest ++ splitPath r.item.rel) r.chunks

/-- The record is true of a tree: the item is the entry's, and its file has the
entry's bytes and mode. -/
structure Holds (strip : StripInfo) (dest : Path) (t : Tree) (r : FileRecord) : Prop where
  planned : PlansAs strip r.entry r.item
  kind : r.item.kind = .file (r.entry.mode.getD 0o644)
  read : readAll r.entry.reads = some r.chunks
  written : t.node (dest ++ splitPath r.item.rel) =
    some (.file r.chunks.flatten (some r.entry.fileMode))

theorem Holds.stays {strip : StripInfo} {dest : Path} {t t' : Tree} {r : FileRecord}
    (h : r.Holds strip dest t) (hs : Stays t t') : r.Holds strip dest t' :=
  ⟨h.planned, h.kind, h.read, hs _ _ h.written⟩

end FileRecord

/-- What writing the planned files leaves. -/
structure AllWritten (strip : StripInfo) (dest : Path) (dirs : List Str) (regs : List TarEntry)
    (items : List PlannedEntry) (d d' : Disk) : Prop where
  records : ∃ records : List FileRecord, records.map FileRecord.entry = regs ∧
    records.map FileRecord.item = items ∧
    d'.writes = d.writes ++ records.flatMap (FileRecord.writes dest) ∧
    ∀ r ∈ records, r.Holds strip dest d'.tree
  laid : Laid dest dirs (items.map PlannedEntry.rel) d'.tree

section Writing

variable {strip : StripInfo} {dest : Path}

theorem zipWith_fileJob_rel {regs : List TarEntry} {items : List PlannedEntry}
    (h : List.Forall₂ (PlansAs strip) regs items) :
    (List.zipWith fileJob regs items).map FileJob.rel = items.map PlannedEntry.rel := by
  induction h with
  | nil => rfl
  | cons _ _ ih =>
      rw [List.zipWith_cons_cons, List.map_cons, List.map_cons, ih]
      rfl

/-- The jobs that were done are the records of the entries and items they are for. -/
theorem exists_records {t : Tree} :
    ∀ {regs : List TarEntry} {items : List PlannedEntry} {chunkss : List (List Bytes)},
      List.Forall₂ (PlansAs strip) regs items → (∀ e ∈ regs, e.isFile = true) →
      List.Forall₂ (FileJob.Done dest t) (List.zipWith fileJob regs items) chunkss →
      ∃ records : List FileRecord, records.map FileRecord.entry = regs ∧
        records.map FileRecord.item = items ∧
        (List.zipWith (FileJob.writes dest) (List.zipWith fileJob regs items) chunkss).flatten =
          records.flatMap (FileRecord.writes dest) ∧
        ∀ r ∈ records, r.Holds strip dest t
  | [], _, _, .nil, _, .nil => ⟨[], rfl, rfl, rfl, by simp⟩
  | e :: regs, item :: items, cs :: chunkss, .cons hi hrest, hreg, .cons hdone hall => by
      obtain ⟨records, hentry, hitem, hw, hholds⟩ :=
        exists_records hrest (fun e' he' => hreg e' (by simp [he'])) hall
      refine ⟨⟨e, item, cs⟩ :: records, by simp [hentry], by simp [hitem], ?_, ?_⟩
      · rw [List.zipWith_cons_cons, List.zipWith_cons_cons, List.flatten_cons, hw,
          List.flatMap_cons]
        rfl
      · rw [List.forall_mem_cons]
        exact ⟨⟨hi, hi.file_iff.mpr ⟨hreg e (by simp), rfl⟩, hdone.read, hdone.written⟩, hholds⟩

end Writing

/-! ### Copying the hard links -/

/-- The write of one planned hard link. -/
def PlannedEntry.copyWrite (dest : Path) (item : PlannedEntry) : Option Write :=
  match item.kind with
  | .hardlink target => some (.copy (dest ++ splitPath target) (dest ++ splitPath item.rel))
  | _ => none

/-- The path of a planned hard link. -/
def PlannedEntry.linkRel (item : PlannedEntry) : Option Str :=
  match item.kind with
  | .hardlink _ => some item.rel
  | _ => none

section Copying

variable {dest : Path} {dirs files : List Str} {D : Str → Bytes → Prop}

/-- Every one of `files` is there, with content that means what `D` says. -/
def Means (dest : Path) (D : Str → Bytes → Prop) (files : List Str) (t : Tree) : Prop :=
  ∀ r ∈ files, ∃ content mode,
    t.node (dest ++ splitPath r) = some (.file content mode) ∧ D r content

/-- What copying the hard links of a plan leaves: each is a copy of a file that
was there before it. -/
structure AllCopied (dest : Path) (D : Str → Bytes → Prop) (dirs files : List Str)
    (plan : List PlannedEntry) (d d' : Disk) : Prop where
  copies : ∀ item ∈ plan, ∀ target, item.kind = .hardlink target → ∃ content mode,
    D target content ∧ d'.tree.node (dest ++ splitPath item.rel) = some (.file content mode)
  stays : Stays d.tree d'.tree
  laid : Laid dest dirs (files ++ plan.filterMap PlannedEntry.linkRel) d'.tree
  writes : d'.writes = d.writes ++ plan.filterMap (PlannedEntry.copyWrite dest)

/-- **Phase 3**: each hard link in turn. Where a copy means what its target
means, every file there keeps its meaning. -/
theorem wp_copyHardlinks (hdest : Plain dest) :
    ∀ {plan : List PlannedEntry} {files : List Str} {written : Nat} {d : Disk},
      Laid dest dirs files d.tree → Means dest D files d.tree →
      (∀ item ∈ plan, ValidName item.rel) →
      (∀ item ∈ plan, ∀ target, item.kind = .hardlink target → ValidName target ∧
        ∀ content, D target content → D item.rel content) →
      (plan.filterMap PlannedEntry.linkRel).Nodup →
      (∀ r ∈ plan.filterMap PlannedEntry.linkRel, r ∉ files) →
      wp (copyHardlinks dest written plan) (fun _ d' => AllCopied dest D dirs files plan d d')
        (fun _ _ => True) d
  | [], files, written, d, hl, _, _, _, _, _ =>
      ⟨by simp, .refl _, by simpa using hl, by simp⟩
  | ⟨rel, kind⟩ :: rest, files, written, d, hl, hmeans, hv, ht, hnd, hdis => by
      have hv' : ∀ item ∈ rest, ValidName item.rel := fun item h => hv item (by simp [h])
      have ht' : ∀ item ∈ rest, ∀ target, item.kind = .hardlink target → ValidName target ∧
          ∀ content, D target content → D item.rel content :=
        fun item h => ht item (by simp [h])
      by_cases hk : ∃ target, kind = .hardlink target
      · obtain ⟨target, rfl⟩ := hk
        obtain ⟨hvt, hD⟩ := ht ⟨rel, .hardlink target⟩ (by simp) target rfl
        have hrel : ValidName rel := hv ⟨rel, .hardlink target⟩ (by simp)
        have hlinks : (⟨rel, .hardlink target⟩ :: rest : List PlannedEntry).filterMap
            PlannedEntry.linkRel = rel :: rest.filterMap PlannedEntry.linkRel := rfl
        rw [hlinks, List.nodup_cons] at hnd
        rw [hlinks, List.forall_mem_cons] at hdis
        obtain ⟨hfresh, hdis⟩ := hdis
        have hdis₁ : ∀ r ∈ rest.filterMap PlannedEntry.linkRel, r ∉ files ++ [rel] := by
          intro r hr hm
          rcases List.mem_append.mp hm with hm | hm
          · exact hdis r hr hm
          · cases List.mem_singleton.mp hm
            exact hnd.1 hr
        rw [copyHardlinks, wp_bind]
        refine wp_mono (wp_copyHardlink hdest hl hrel hvt hfresh written) (fun w d₁ h₁ => ?_)
          fun _ _ _ => trivial
        obtain ⟨content, mode, hsrc, hdst⟩ := h₁.content
        -- the source is one of the files that are there, so its content means its name
        have hDt : D target content := by
          obtain ⟨r, hr, heq⟩ := hl.file _ _ _ hsrc
          have hr' : target = r := splitPath_injective heq
          obtain ⟨content', mode', hn, hD'⟩ := hmeans r hr
          rw [hr'] at hsrc ⊢
          rw [hsrc] at hn
          cases hn
          exact hD'
        have hmeans₁ : Means dest D (files ++ [rel]) d₁.tree := by
          intro r hr
          rcases List.mem_append.mp hr with hr | hr
          · obtain ⟨content', mode', hn, hD'⟩ := hmeans r hr
            exact ⟨content', mode', h₁.stays _ _ hn, hD'⟩
          · cases List.mem_singleton.mp hr
            exact ⟨content, mode, hdst, hD content hDt⟩
        refine wp_mono (wp_copyHardlinks hdest h₁.laid hmeans₁ hv' ht' hnd.2 hdis₁)
          (fun _ d₂ h₂ => ?_) fun _ _ _ => trivial
        refine ⟨?_, h₁.stays.trans h₂.stays, by simpa [hlinks] using h₂.laid, ?_⟩
        · rw [List.forall_mem_cons]
          refine ⟨fun target' heq => ?_, h₂.copies⟩
          cases heq
          exact ⟨content, mode, hDt, h₂.stays _ _ hdst⟩
        · rw [h₂.writes, h₁.writes, List.append_assoc]
          rfl
      · have hskip : copyHardlinks dest written (⟨rel, kind⟩ :: rest) =
            copyHardlinks dest written rest := by
          cases kind with
          | hardlink target => exact absurd ⟨target, rfl⟩ hk
          | _ => rfl
        have hlinks : (⟨rel, kind⟩ :: rest : List PlannedEntry).filterMap PlannedEntry.linkRel =
            rest.filterMap PlannedEntry.linkRel := by
          cases kind with
          | hardlink target => exact absurd ⟨target, rfl⟩ hk
          | _ => rfl
        have hwrites : (⟨rel, kind⟩ :: rest : List PlannedEntry).filterMap
            (PlannedEntry.copyWrite dest) = rest.filterMap (PlannedEntry.copyWrite dest) := by
          cases kind with
          | hardlink target => exact absurd ⟨target, rfl⟩ hk
          | _ => rfl
        rw [hlinks] at hnd hdis
        rw [hskip]
        refine wp_mono (wp_copyHardlinks hdest hl hmeans hv' ht' hnd hdis) (fun _ d₁ h₁ => ?_)
          fun _ _ _ => trivial
        refine ⟨?_, h₁.stays, hlinks ▸ h₁.laid, hwrites ▸ h₁.writes⟩
        rw [List.forall_mem_cons]
        exact ⟨fun target heq => absurd ⟨target, heq⟩ hk, h₁.copies⟩

end Copying

/-! ### The whole of pass 2 -/

section Materialize

variable {pf : Platform} {strip : StripInfo} {dest : Path} {archive : TarArchive}
  {plan : List PlannedEntry} {d d' : Disk}

theorem Accounts.valid {before : List PlannedEntry} {entries : List TarEntry}
    (h : Accounts strip before entries plan) : ∀ item ∈ plan, ValidName item.rel := by
  intro item hitem
  obtain ⟨e, -, -, hp⟩ := h.exists_entry item hitem
  exact hp.valid

/-- Two names with one collision key apart are two names. -/
theorem rels_nodup (h : plan.Pairwise (KeysDiffer pf)) : (plan.map PlannedEntry.rel).Nodup := by
  rw [List.nodup_iff_pairwise_ne, List.pairwise_map]
  exact h.imp fun hne heq => hne (by rw [heq])

/-- Each planned file's mode is found under its name. -/
theorem fileModes_lookup (h : plan.Pairwise (KeysDiffer pf)) {item : PlannedEntry}
    (hitem : item ∈ plan) {mode : Nat} (hk : item.kind = .file mode) :
    (fileModes plan).lookup item.rel = some (clampMode mode) := by
  refine lookup_of_mem ?_ ?_
  · unfold fileModes
    rw [List.map_reverse, List.nodup_reverse]
    have hmap : (plan.filterMap PlannedEntry.fileMode).map Prod.fst =
        (plan.filter PlannedEntry.isFile).map PlannedEntry.rel := by
      clear h hitem
      induction plan with
      | nil => rfl
      | cons a rest ih =>
          obtain ⟨rel, kind⟩ := a
          cases kind <;>
            simp [List.filterMap_cons, List.filter_cons, PlannedEntry.fileMode, PlannedEntry.isFile, ih]
    rw [hmap]
    exact (rels_nodup h).sublist (List.filter_sublist.map _)
  · unfold fileModes
    rw [List.mem_reverse, List.mem_filterMap]
    exact ⟨item, hitem, by simp [PlannedEntry.fileMode, hk]⟩

theorem dirRels_valid (hv : ∀ item ∈ plan, ValidName item.rel) :
    ∀ r ∈ plan.filterMap PlannedEntry.dirRel, ValidName r := by
  intro r hr
  obtain ⟨item, hitem, heq⟩ := List.mem_filterMap.mp hr
  unfold PlannedEntry.dirRel at heq
  split at heq
  · cases heq
    exact hv item hitem
  · cases heq

theorem mem_linkRels {r : Str} (h : r ∈ plan.filterMap PlannedEntry.linkRel) :
    ∃ item ∈ plan, item.rel = r ∧ item.isFile = false := by
  obtain ⟨item, hitem, heq⟩ := List.mem_filterMap.mp h
  unfold PlannedEntry.linkRel at heq
  split at heq
  next target hk =>
    cases heq
    exact ⟨item, hitem, rfl, by simp [PlannedEntry.isFile, hk]⟩
  · cases heq

theorem linkRels_nodup (h : plan.Pairwise (KeysDiffer pf)) :
    (plan.filterMap PlannedEntry.linkRel).Nodup := by
  have hmap : (plan.filterMap PlannedEntry.linkRel).Sublist (plan.map PlannedEntry.rel) := by
    clear h
    induction plan with
    | nil => exact List.Sublist.refl _
    | cons a rest ih =>
        obtain ⟨rel, kind⟩ := a
        cases kind with
        | hardlink target => exact ih.cons_cons rel
        | dir | file _ | symlink _ => exact ih.cons rel
  exact (rels_nodup h).sublist hmap

/-- The paths of planned files. -/
def FileRels (plan : List PlannedEntry) (files : List Str) : Prop :=
  ∀ f ∈ files, ∃ item ∈ plan, item.rel = f ∧ item.isFile = true

theorem linkRels_disjoint (h : plan.Pairwise (KeysDiffer pf)) {files : List Str}
    (hf : FileRels plan files) : ∀ r ∈ plan.filterMap PlannedEntry.linkRel, r ∉ files := by
  intro r hr hm
  obtain ⟨item, hitem, rfl, hfile⟩ := mem_linkRels hr
  obtain ⟨item', hitem', heq, hfile'⟩ := hf _ hm
  have := Accounts.eq_of_key_eq h hitem' hitem (by rw [heq])
  rw [this, hfile] at hfile'
  cases hfile'

/-- What is left once the files are written: `d₂` is the disk then, `d'` the
disk at the end. -/
structure Finished (dest : Path) (D : Str → Bytes → Prop) (plan : List PlannedEntry)
    (d₂ d' : Disk) : Prop where
  stays : Stays d₂.tree d'.tree
  writes : d'.writes = d₂.writes ++ plan.filterMap (PlannedEntry.copyWrite dest)
  copies : ∀ item ∈ plan, ∀ target, item.kind = .hardlink target → ∃ content mode,
    D target content ∧ d'.tree.node (dest ++ splitPath item.rel) = some (.file content mode)
  isDir : d'.tree.isDir dest = true
  links : ∀ s target, d'.tree.node (dest ++ s) = some (.symlink target) →
    ∃ item ∈ plan, item.kind = .symlink target ∧ s = splitPath item.rel

/-- **Pass 2**, phase after phase, for whatever the writing of the files leaves. -/
theorem wp_materialize (archive : TarArchive) (strip : StripInfo) (D : Str → Bytes → Prop)
    (P : Disk → Prop) (he : EmptyDir dest d.tree) (hv : ∀ item ∈ plan, ValidName item.rel)
    (hkeys : plan.Pairwise (KeysDiffer pf))
    (hD : ∀ item ∈ plan, ∀ target, item.kind = .hardlink target → ValidName target ∧
      ∀ content, D target content → D item.rel content)
    (hfiles : ∀ items d₁, archive.rewind "tar reread: " = .ok items →
      Laid dest (plan.filterMap PlannedEntry.dirRel) [] d₁.tree → d₁.writes = d.writes →
      wp (writeFiles pf strip (fileModes plan) dest 0 items)
        (fun _ d₂ => P d₂ ∧ ∃ files, FileRels plan files ∧ Means dest D files d₂.tree ∧
          Laid dest (plan.filterMap PlannedEntry.dirRel) files d₂.tree)
        (fun _ _ => True) d₁) :
    wp (materialize pf archive plan strip dest)
      (fun _ d' => ∃ d₂, P d₂ ∧ Finished dest D plan d₂ d') (fun _ _ => True) d := by
  rw [materialize, wp_bind]
  refine wp_mono (wp_createDirs he rfl _ (dirRels_valid hv)) (fun _ d₁ h₁ => ?_)
    fun _ _ _ => trivial
  obtain ⟨hl₁, hw₁, -, -⟩ := h₁
  rw [wp_bind, wp_ofExcept]
  cases hr : archive.rewind "tar reread: " with
  | error e => trivial
  | ok items =>
      show wp _ _ _ d₁
      rw [wp_bind]
      refine wp_mono (hfiles items d₁ hr hl₁ hw₁) (fun w d₂ h₂ => ?_) fun _ _ _ => trivial
      obtain ⟨hP, files, hrels, hmeans, hl₂⟩ := h₂
      rw [wp_bind]
      refine wp_mono (wp_copyHardlinks he.plain hl₂ hmeans hv hD (linkRels_nodup hkeys)
        (linkRels_disjoint hkeys hrels)) (fun _ d₃ h₃ => ?_) fun _ _ _ => trivial
      refine wp_mono (wp_createSymlinks he.plain h₃.laid.isDir hv) (fun _ d₄ h₄ => ?_)
        fun _ _ _ => trivial
      obtain ⟨hstays, hw₄, hlinks, -⟩ := h₄
      refine ⟨d₂, hP, h₃.stays.trans hstays, hw₄.trans h₃.writes, fun item hitem target hk => ?_,
        hstays.isDir h₃.laid.isDir, fun s target hn => ?_⟩
      · obtain ⟨content, mode, hDt, hn⟩ := h₃.copies item hitem target hk
        exact ⟨content, mode, hDt, hstays _ _ hn⟩
      · rcases hlinks _ target hn with hn | ⟨item, hitem, hk, heq⟩
        · exact absurd hn (h₃.laid.noLink s target)
        · exact ⟨item, hitem, hk, List.append_cancel_left heq⟩

/-- The jobs of an archive that was planned. -/
def planJobs (entries : List TarEntry) (plan : List PlannedEntry) : List FileJob :=
  List.zipWith fileJob (entries.filter TarEntry.isFile) (plan.filter PlannedEntry.isFile)

/-- Writing the files of the archive that was planned. -/
theorem wp_writeFiles {entries : List TarEntry} {items : List (Except String TarEntry)}
    {d₁ : Disk} {dirs : List Str} (hdest : Plain dest) (hacc : Accounts strip [] entries plan)
    (hkeys : plan.Pairwise (KeysDiffer pf)) (hitems : items = entries.map .ok)
    (hl : Laid dest dirs [] d₁.tree) :
    wp (writeFiles pf strip (fileModes plan) dest 0 items)
      (fun _ d₂ => AllWritten strip dest dirs (entries.filter TarEntry.isFile)
        (plan.filter PlannedEntry.isFile) d₁ d₂)
      (fun _ _ => d₁.faults = [] → ¬ Writable dirs [] 0 (planJobs entries plan)) d₁ := by
  subst hitems
  have hreg := hacc.regular
  have hrels := zipWith_fileJob_rel hreg
  rw [writeFiles_eq_writeAll hreg fun item hitem mode hk =>
    fileModes_lookup hkeys (List.mem_of_mem_filter hitem) hk]
  have hv : ∀ job ∈ planJobs entries plan, ValidName job.rel := by
    intro job hjob
    have hmem : job.rel ∈ (planJobs entries plan).map FileJob.rel := List.mem_map_of_mem hjob
    rw [planJobs, hrels] at hmem
    obtain ⟨item, hitem, heq⟩ := List.mem_map.mp hmem
    exact heq ▸ hacc.valid item (List.mem_of_mem_filter hitem)
  apply wp_mono (wp_writeAll hdest hv hl)
  · intro _ d₂ h₂
    obtain ⟨chunkss, hdone, hw⟩ := h₂.done
    obtain ⟨records, hentry, hitem, hflat, hholds⟩ :=
      exists_records hreg (fun e he => (List.mem_filter.mp he).2) hdone
    refine ⟨⟨records, hentry, hitem, ?_, hholds⟩, ?_⟩
    · rw [hw, ← hflat]
      rfl
    · have hl₂ := h₂.laid
      rwa [List.nil_append, planJobs, hrels] at hl₂
  · intro _ _ h
    exact h

theorem rewind_ok {label : String} {items : List (Except String TarEntry)}
    (h : archive.rewind label = .ok items) : items = archive.entries := by
  unfold TarArchive.rewind at h
  split at h
  · cases h
  · split at h
    · cases h
    · exact (Except.ok.inj h).symm

theorem fileRels_items : FileRels plan ((plan.filter PlannedEntry.isFile).map PlannedEntry.rel) := by
  intro f hf
  obtain ⟨item, hitem, rfl⟩ := List.mem_map.mp hf
  obtain ⟨hmem, hfile⟩ := List.mem_filter.mp hitem
  exact ⟨item, hmem, rfl, hfile⟩

/-- Every planned hard link has a valid target. -/
theorem Accounts.target_valid {before : List PlannedEntry} {entries : List TarEntry}
    (h : Accounts strip before entries plan) {item : PlannedEntry} (hitem : item ∈ plan)
    {target : Str} (hk : item.kind = .hardlink target) : ValidName target := by
  obtain ⟨e, -, -, hp⟩ := h.exists_entry item hitem
  obtain ⟨kind, hkind, hr⟩ := hp.kind
  rw [hk] at hr
  cases kind with
  | dir => cases Except.ok.inj hr
  | file mode => cases Except.ok.inj hr
  | symlink t =>
      simp only [retarget, bind_eq_ok] at hr
      obtain ⟨-, -, hr⟩ := hr
      cases Except.ok.inj hr
  | hardlink t =>
      have ht : ValidName t := by
        unfold plannedKind at hkind
        cases hty : e.entryType <;>
          simp only [hty, bind_eq_ok, reduceCtorEq, Except.ok.injEq] at hkind
        case symlink => obtain ⟨-, -, hc⟩ := hkind; cases hc
        case link =>
          obtain ⟨raw, -, t', ht', heq⟩ := hkind
          cases heq
          exact validName_of_ok ht'
      simp only [retarget] at hr
      split at hr
      · cases hs : strippedRel t strip with
        | none =>
            rw [hs] at hr
            cases Except.ok.inj hr
            exact ht
        | some t' =>
            rw [hs] at hr
            cases Except.ok.inj hr
            exact strippedRel_valid ht hs
      · cases Except.ok.inj hr
        exact ht

/-- **The two passes agree**: the planned files are the archive's regular
entries, in order, each written once, under its own path, with its own bytes
and mode; the only other writes are the copies of the planned hard links. -/
theorem materialize_agrees (hplan : planTargz pf archive = .ok (plan, strip))
    (he : EmptyDir dest d.tree) (hm : materialize pf archive plan strip dest d = .ok () d') :
    ∃ entries : List TarEntry, archive.entries = entries.map .ok ∧
      ∃ records : List FileRecord,
        records.map FileRecord.entry = entries.filter TarEntry.isFile ∧
        records.map FileRecord.item = plan.filter PlannedEntry.isFile ∧
        (records.map fun r => r.item.rel).Nodup ∧
        d'.writes = d.writes ++ records.flatMap (FileRecord.writes dest) ++
          plan.filterMap (PlannedEntry.copyWrite dest) ∧
        ∀ r ∈ records, r.Holds strip dest d'.tree := by
  obtain ⟨entries, hentries, hacc, hkeys⟩ := accounts_of_planTargz hplan
  refine ⟨entries, hentries, ?_⟩
  have hwp := wp_materialize archive strip (fun _ _ => True)
    (fun d₂ => ∃ d₁ : Disk, d₁.writes = d.writes ∧
      AllWritten strip dest (plan.filterMap PlannedEntry.dirRel)
        (entries.filter TarEntry.isFile) (plan.filter PlannedEntry.isFile) d₁ d₂)
    he hacc.valid hkeys
    (fun item hitem target hk => ⟨hacc.target_valid hitem hk, fun _ _ => trivial⟩)
    (fun items d₁ hr hl hw => ?_)
  · obtain ⟨d₂, ⟨d₁, hw₁, hall⟩, hfin⟩ := wp_ok hwp hm
    obtain ⟨records, hentry, hitem, hwrites, hholds⟩ := hall.records
    refine ⟨records, hentry, hitem, ?_, ?_, fun r hr => (hholds r hr).stays hfin.stays⟩
    · have hmap : records.map (fun r => r.item.rel) =
          (plan.filter PlannedEntry.isFile).map PlannedEntry.rel := by
        rw [← hitem, List.map_map]
        rfl
      rw [hmap]
      exact (rels_nodup hkeys).sublist (List.filter_sublist.map _)
    · rw [hfin.writes, hwrites, hw₁]
  · have hitems : items = entries.map .ok := (rewind_ok hr).trans hentries
    refine wp_mono (wp_writeFiles he.plain hacc hkeys hitems hl) (fun _ d₂ h₂ => ?_)
      fun _ _ _ => trivial
    refine ⟨⟨d₁, hw, h₂⟩, _, fileRels_items, fun r hr => ?_, h₂.laid⟩
    obtain ⟨records, -, hitem, -, hholds⟩ := h₂.records
    obtain ⟨item, hmem, rfl⟩ := List.mem_map.mp hr
    rw [← hitem] at hmem
    obtain ⟨rec, hrec, rfl⟩ := List.mem_map.mp hmem
    exact ⟨_, _, (hholds rec hrec).written, trivial⟩

/-- A disk with an empty directory `out` and no faults to come. -/
def sampleDisk : Disk :=
  { tree := Tree.empty.put ["out".toList] (.dir none), faults := [], writes := [] }

theorem sampleDisk_emptyDir : EmptyDir ["out".toList] sampleDisk.tree := by
  have hcan : Tree.empty.CanPut ["out".toList] (.dir none) := by decide
  refine ⟨by simp [Plain, special], by decide, fun s hs => ?_⟩
  rw [sampleDisk, node_put hcan]
  simp [hs, Tree.empty]

theorem materialize_agrees_sample :
    ∃ d', materialize asciiPlatform samplePackage samplePlan sampleStrip ["out".toList] sampleDisk
        = .ok () d' ∧
      ∃ records : List FileRecord,
        records.map FileRecord.item = samplePlan.filter PlannedEntry.isFile ∧
        ∀ r ∈ records, r.Holds sampleStrip ["out".toList] d'.tree := by
  obtain ⟨⟨⟩, d', hm⟩ := exists_of_returns (d := sampleDisk)
    (x := materialize asciiPlatform samplePackage samplePlan sampleStrip ["out".toList])
    (by decide +kernel)
  obtain ⟨_, -, records, -, hitems, -, -, hholds⟩ :=
    materialize_agrees planTargz_sample sampleDisk_emptyDir hm
  exact ⟨d', hm, records, hitems, hholds⟩

end Materialize

end OpenVHost.Pkg
