/-
# One listing, two formats

The zip walk and the tar walk keep their own books: their own collision sets,
their own directory tests, their own totals. Both come down to `layOut`, which
creates directories and then writes files, so the formats differ only where
their first passes do.

* `wp_layOut` — in an empty directory, `layOut` succeeds exactly when no file is
  in the way of another path, and leaves exactly what it was given.
* `TarLayout` — what a tar writer adds to the contents; `LimitedReader` counts
  that against the cap too.
* `extractTargz_run`, `extractZip_run` — when each format takes a listing, and
  what it leaves.
* `formats_agree_iff` — the formats agree on every listing but two kinds of
  otherwise acceptable ones: those that name a directory twice, once with
  backslashes, and those whose tar stream is over the cap; not on both at once.
-/

import OpenVHost.Pkg.Reread
import OpenVHost.Pkg.Zip

namespace OpenVHost.Pkg

open FileTree FileTree.Tree FileTree.Io

/-! ### A listing and the archives that hold it -/

/-- What an archive holds under one name. -/
structure Item where
  name : Str
  isDir : Bool
  perm : Nat
  content : Bytes
  deriving DecidableEq, Repr

/-- The bytes an item counts against the cap. -/
def Item.bytes (i : Item) : Nat := if i.isDir then 0 else i.content.length

/-- A list that both formats can hold and that is inside the caps. -/
structure Listing where
  items : List Item
  names : (items.map Item.name).Nodup
  slash : ∀ i ∈ items, Zip.endsWithSlash i.name = i.isDir
  perms : ∀ i ∈ items, i.perm < 0o10000
  count : items.length ≤ maxEntries
  bytes : (items.map Item.bytes).sum ≤ maxTotalBytes

/-- A decoder: it hands out a stored content in chunks of its own choice, the
whole of it. -/
structure Reader where
  reads : Bytes → List (Except String Bytes)
  whole : ∀ content, (readAll (reads content)).map List.flatten = some content

/-- How a tar writer lays out its items: the bytes of an item's header, with what
stands before it for a long name, and the bytes at the end that the tar reader
takes to see that it is the end. -/
structure TarLayout where
  header : Item → Nat
  trailer : Nat
  block : ∀ i, 512 ≤ header i

variable {pf : Platform} {dest : Path} {d : Disk} {tr zr : Reader} {lay : TarLayout}

def Item.tarEntry (tr : Reader) (i : Item) : TarEntry :=
  { entryType := if i.isDir then .directory else .regular
    path := .ok (some i.name)
    linkName := .ok none
    size := i.content.length
    mode := some i.perm
    reads := tr.reads i.content }

/-- A zip stores the file type with the permission bits. -/
def Item.zipMode (i : Item) : Nat := (if i.isDir then 0o040000 else 0o100000) ||| i.perm

def Item.zipEntry (zr : Reader) (i : Item) : ZipEntry :=
  { rawError := none
    encrypted := false
    name := some i.name
    unixMode := some i.zipMode
    size := i.content.length
    openError := none
    reads := zr.reads i.content }

/-- A content in a tar stream is filled up to whole blocks. -/
def padded (n : Nat) : Nat := (n + 511) / 512 * 512

/-- What the tar reader hands out where `LimitedReader` has `remaining` bytes to
give: before each header it skips what it is owed of the entry before. -/
def tarFrom (lay : TarLayout) (tr : Reader) : Nat → Nat → List Item →
    List (Except String TarEntry)
  | remaining, owed, [] =>
      if remaining < owed + lay.trailer then
        [.error "decompressed stream exceeds the total-bytes cap"]
      else []
  | remaining, owed, i :: items =>
      if remaining < owed + lay.header i then
        [.error "decompressed stream exceeds the total-bytes cap"]
      else .ok (i.tarEntry tr) ::
        tarFrom lay tr (remaining - (owed + lay.header i)) (padded i.content.length) items

/-- Both passes read the stream through a `LimitedReader` of their own. -/
def tarOf (lay : TarLayout) (tr : Reader) (items : List Item) : TarArchive :=
  { seekError := none, entriesError := none, entries := tarFrom lay tr maxTotalBytes 0 items }

def zipOf (zr : Reader) (items : List Item) : ZipArchive :=
  { seekError := none, openError := none, entries := items.map (Item.zipEntry zr) }

/-! ### What a listing means -/

/-- An item's name, cleaned. -/
def Item.rel (i : Item) : Str := trimSlash (slashed i.name)

/-- The strip decision for a listing. -/
def itemStrip (items : List Item) : StripInfo :=
  (stripSingleRoot (items.map fun i => ⟨i.rel, i.isDir⟩)).2

/-- The final path of an item, with the item; the stripped root has none. -/
def Item.final (strip : StripInfo) (i : Item) : Option (Str × Item) :=
  (strippedRel i.rel strip).map fun rel => (rel, i)

/-- The items of a listing under their final paths. -/
def finals (items : List Item) : List (Str × Item) :=
  items.filterMap (Item.final (itemStrip items))

def dirsOf (fs : List (Str × Item)) : List Str := (fs.filter fun f => f.2.isDir).map Prod.fst

def filesOf (fs : List (Str × Item)) : List (Str × Item) := fs.filter fun f => !f.2.isDir

/-- Two paths with one collision key are one directory. -/
def OneDirectory (pf : Platform) (a b : Str × Item) : Prop :=
  collisionKey pf a.1 = collisionKey pf b.1 →
    a.2.isDir = true ∧ b.2.isDir = true ∧ a.1 = b.1

/-- A listing that can be laid out: its names are valid, what collides is one
directory, and no file is in the way of another path. -/
structure Extractable (pf : Platform) (items : List Item) : Prop where
  names : ∀ i ∈ items, validateEntryName (slashed i.name) = .ok i.rel
  collide : (finals items).Pairwise (OneDirectory pf)
  fits : Compatible (dirsOf (finals items)) ((filesOf (finals items)).map Prod.fst)

/-- The bytes of an item in the tar stream. -/
def TarLayout.span (lay : TarLayout) (i : Item) : Nat := lay.header i + padded i.content.length

/-- The whole tar stream, headers and padding included, is inside the cap. -/
def TarLayout.Fits (lay : TarLayout) (items : List Item) : Prop :=
  (items.map lay.span).sum + lay.trailer ≤ maxTotalBytes

/-- Two different names that replacing the backslashes makes one directory's. -/
def SpelledTwice (items : List Item) : Prop :=
  ∃ i ∈ items, ∃ j ∈ items, i.isDir = true ∧ j.isDir = true ∧
    i.name ≠ j.name ∧ slashed i.name = slashed j.name

/-- A tree has these items beneath `dest`, and nothing else: the files with
their contents and clamped modes, and the directories and what is above. -/
structure Extracted (dest : Path) (fs : List (Str × Item)) (t : Tree) : Prop where
  isDir : t.isDir dest = true
  has : ∀ s, s ≠ [] → (t.has (dest ++ s) = true ↔ ∃ f ∈ fs, s <+: splitPath f.1)
  file : ∀ s content mode, t.node (dest ++ s) = some (.file content mode) ↔
    ∃ f ∈ filesOf fs, s = splitPath f.1 ∧ content = f.2.content ∧
      mode = some (clampMode f.2.perm)

/-- The same paths beneath `dest`, and the same files with the same modes. -/
def SameTree (dest : Path) (t t' : Tree) : Prop :=
  ∀ s, t.has (dest ++ s) = t'.has (dest ++ s) ∧ ∀ content mode,
    t.node (dest ++ s) = some (.file content mode) ↔ t'.node (dest ++ s) = some (.file content mode)

theorem Extracted.sameTree {fs : List (Str × Item)} {t t' : Tree} (h : Extracted dest fs t)
    (h' : Extracted dest fs t') : SameTree dest t t' := by
  intro s
  constructor
  · by_cases hs : s = []
    · subst hs
      rw [List.append_nil, has_of_isDir h.isDir, has_of_isDir h'.isDir]
    · exact Bool.eq_iff_iff.mpr ((h.has s hs).trans (h'.has s hs).symm)
  · intro content mode
    exact (h.file s content mode).trans (h'.file s content mode).symm

/-! ### Directories, then files -/

/-- What both formats come down to. -/
def layOut (pf : Platform) (dest : Path) (dirs : List Str) (jobs : List FileJob) :
    Io PkgError Nat := do
  createDirs dest dirs
  writeAll pf dest 0 jobs

/-- The job of a file under its final path. -/
def jobOf (r : Reader) (f : Str × Item) : FileJob :=
  ⟨f.1, clampMode f.2.perm, r.reads f.2.content⟩

section LayOut

variable {r : Reader} {fs : List (Str × Item)} {dirs : List Str}

theorem mem_dirsOf {rel : Str} : rel ∈ dirsOf fs ↔ ∃ f ∈ fs, f.2.isDir = true ∧ f.1 = rel := by
  simp [dirsOf, and_assoc]

theorem mem_filesOf {f : Str × Item} : f ∈ filesOf fs ↔ f ∈ fs ∧ f.2.isDir = false := by
  simp [filesOf]

theorem readAll_reads (r : Reader) (content : Bytes) :
    ∃ chunks, readAll (r.reads content) = some chunks ∧ chunks.flatten = content :=
  Option.map_eq_some_iff.mp (r.whole content)

/-- The chunks of a list of files: as many bytes as the files have. -/
theorem exists_chunkss (r : Reader) (files : List (Str × Item)) :
    ∃ chunkss, List.Forall₂ (fun job cs => readAll job.reads = some cs) (files.map (jobOf r))
      chunkss ∧ chunkss.flatten.flatten.length = (files.map fun f => f.2.content.length).sum := by
  induction files with
  | nil => exact ⟨[], .nil, rfl⟩
  | cons f files ih =>
      obtain ⟨chunkss, hall, hlen⟩ := ih
      obtain ⟨cs, hcs, hflat⟩ := readAll_reads r f.2.content
      refine ⟨cs :: chunkss, .cons hcs hall, ?_⟩
      rw [List.flatten_cons, List.flatten_append, List.length_append, hlen, hflat]
      rfl

theorem forall₂_left {α β : Type} {R : α → β → Prop} {xs : List α} {ys : List β}
    (h : List.Forall₂ R xs ys) : ∀ x ∈ xs, ∃ y, R x y := by
  induction h with
  | nil => simp
  | cons hr _ ih => exact List.forall_mem_cons.mpr ⟨⟨_, hr⟩, ih⟩

/-- Each file is there at the end, with its content and mode. -/
theorem JobsDone.file {files : List (Str × Item)} {d' : Disk}
    (h : JobsDone dest dirs [] (files.map (jobOf r)) d d') :
    ∀ f ∈ files, d'.tree.node (dest ++ splitPath f.1) =
      some (.file f.2.content (some (clampMode f.2.perm))) := by
  intro f hf
  obtain ⟨chunkss, hdone, -⟩ := h.done
  obtain ⟨cs, hread, hnode⟩ := forall₂_left hdone _ (List.mem_map_of_mem hf)
  obtain ⟨cs', hread', hflat⟩ := readAll_reads r f.2.content
  rw [jobOf] at hread hnode
  cases hread.symm.trans hread'
  rw [hnode, hflat]

/-- Above a path that is there nothing is a file. -/
theorem not_file_above {t : Tree} {p q : Path} (hq : t.has q = true) (hpq : p <+: q) (hne : p ≠ q)
    (content : Bytes) (mode : Option Nat) : t.node p ≠ some (.file content mode) := by
  intro hn
  have hd := isDir_of_above hpq hne hq
  simp [Tree.isDir, hn, Node.isDir] at hd

theorem has_above {t : Tree} {p q : Path} (hpq : p <+: q) (hq : t.has q = true) :
    t.has p = true := by
  by_cases hne : p = q
  · exact hne ▸ hq
  · exact has_of_isDir (isDir_of_above hpq hne hq)

/-- Files and directories that sit in one tree together fit together. -/
theorem compatible_of_tree {t : Tree} (hnd : ((filesOf fs).map Prod.fst).Nodup)
    (hfile : ∀ f ∈ filesOf fs, t.node (dest ++ splitPath f.1) =
      some (.file f.2.content (some (clampMode f.2.perm))))
    (hdir : ∀ rel ∈ dirsOf fs, t.isDir (dest ++ splitPath rel) = true) :
    Compatible (dirsOf fs) ((filesOf fs).map Prod.fst) := by
  have hbelow : ∀ a b, a ∈ (filesOf fs).map Prod.fst → b ∈ (filesOf fs).map Prod.fst → a ≠ b →
      ¬ splitPath a <+: splitPath b := by
    intro a b ha hb hne hpre
    obtain ⟨f, hf, rfl⟩ := List.mem_map.mp ha
    obtain ⟨g, hg, rfl⟩ := List.mem_map.mp hb
    have hdiff : dest ++ splitPath f.1 ≠ dest ++ splitPath g.1 := fun heq =>
      hne (splitPath_injective (List.append_cancel_left heq))
    exact not_file_above (has_of_node (hfile g hg)) ((List.prefix_append_right_inj dest).mpr hpre)
      hdiff _ _ (hfile f hf)
  constructor
  · intro path hpath rel hrel hpre
    obtain ⟨f, hf, rfl⟩ := List.mem_map.mp hpath
    have hd := isDir_above ((List.prefix_append_right_inj dest).mpr hpre) (hdir rel hrel)
    simp [Tree.isDir, hfile f hf, Node.isDir] at hd
  · apply List.Pairwise.imp_of_mem _ hnd
    intro a b ha hb hne
    exact ⟨hbelow a b ha hb hne, hbelow b a hb ha hne.symm⟩

/-- A tree with nothing but what was laid out has just the items. -/
theorem extracted_of_laid {t : Tree} (hdirs : ∀ rel, rel ∈ dirs ↔ rel ∈ dirsOf fs)
    (hl : Laid dest dirs ((filesOf fs).map Prod.fst) t)
    (hfile : ∀ f ∈ filesOf fs, t.node (dest ++ splitPath f.1) =
      some (.file f.2.content (some (clampMode f.2.perm))))
    (hdir : ∀ rel ∈ dirsOf fs, t.isDir (dest ++ splitPath rel) = true) :
    Extracted dest fs t := by
  have hhas : ∀ f ∈ fs, t.has (dest ++ splitPath f.1) = true := by
    intro f hf
    cases hd : f.2.isDir with
    | true => exact has_of_isDir (hdir f.1 (mem_dirsOf.mpr ⟨f, hf, hd, rfl⟩))
    | false => exact has_of_node (hfile f (mem_filesOf.mpr ⟨hf, hd⟩))
  refine ⟨hl.isDir, fun s hs => ⟨fun h => ?_, fun h => ?_⟩, fun s content mode => ⟨fun h => ?_, ?_⟩⟩
  · obtain ⟨rel, hrel, hpre⟩ := hl.beneath s hs h
    rcases List.mem_append.mp hrel with hrel | hrel
    · obtain ⟨f, hf, -, rfl⟩ := mem_dirsOf.mp ((hdirs rel).mp hrel)
      exact ⟨f, hf, hpre⟩
    · obtain ⟨f, hf, rfl⟩ := List.mem_map.mp hrel
      exact ⟨f, (mem_filesOf.mp hf).1, hpre⟩
  · obtain ⟨f, hf, hpre⟩ := h
    exact has_above ((List.prefix_append_right_inj dest).mpr hpre) (hhas f hf)
  · obtain ⟨rel, hrel, rfl⟩ := hl.file s content mode h
    obtain ⟨f, hf, rfl⟩ := List.mem_map.mp hrel
    rw [hfile f hf] at h
    cases h
    exact ⟨f, hf, rfl, rfl, rfl⟩
  · rintro ⟨f, hf, rfl, rfl, rfl⟩
    exact hfile f hf

/-- **Laying out succeeds exactly when the paths fit together**, and leaves just
what it was given. -/
theorem wp_layOut (he : EmptyDir dest d.tree) (hq : d.faults = []) (hv : ∀ f ∈ fs, ValidName f.1)
    (hnd : ((filesOf fs).map Prod.fst).Nodup)
    (hcap : ((filesOf fs).map fun f => f.2.content.length).sum ≤ maxTotalBytes)
    (hdirs : ∀ rel, rel ∈ dirs ↔ rel ∈ dirsOf fs) :
    wp (layOut pf dest dirs ((filesOf fs).map (jobOf r)))
      (fun _ d' => Compatible (dirsOf fs) ((filesOf fs).map Prod.fst) ∧ Extracted dest fs d'.tree)
      (fun _ _ => ¬ Compatible (dirsOf fs) ((filesOf fs).map Prod.fst)) d := by
  have hrels : ((filesOf fs).map (jobOf r)).map FileJob.rel = (filesOf fs).map Prod.fst := by
    rw [List.map_map]
    rfl
  have hvd : ∀ rel ∈ dirs, ValidName rel := by
    intro rel hrel
    obtain ⟨f, hf, -, rfl⟩ := mem_dirsOf.mp ((hdirs rel).mp hrel)
    exact hv f hf
  have hvj : ∀ job ∈ (filesOf fs).map (jobOf r), ValidName job.rel := by
    intro job hjob
    obtain ⟨f, hf, rfl⟩ := List.mem_map.mp hjob
    exact hv f (mem_filesOf.mp hf).1
  rw [layOut, wp_bind]
  apply wp_mono (wp_createDirs he rfl dirs hvd)
  · intro _ d₁ h₁
    obtain ⟨hl₁, -, hf₁, hdir₁⟩ := h₁
    apply wp_mono (wp_writeAll he.plain hvj hl₁)
    · intro _ d₂ h₂
      have hfile := h₂.file
      have hdir : ∀ rel ∈ dirsOf fs, d₂.tree.isDir (dest ++ splitPath rel) = true :=
        fun rel hrel => h₂.stays.isDir (hdir₁ rel ((hdirs rel).mpr hrel))
      have hl₂ := h₂.laid
      rw [List.nil_append, hrels] at hl₂
      exact ⟨compatible_of_tree hnd hfile hdir, extracted_of_laid hdirs hl₂ hfile hdir⟩
    · intro _ _ h₂ hc
      obtain ⟨chunkss, hall, hlen⟩ := exists_chunkss r (filesOf fs)
      refine h₂ (hf₁ hq) ⟨⟨?_, ?_⟩, chunkss, hall, ?_⟩
      · intro f hf rel hrel
        rw [List.nil_append, hrels] at hf
        exact hc.dirs f hf rel ((hdirs rel).mp hrel)
      · rw [List.nil_append, hrels]
        exact hc.files
      · omega
  · intro _ _ h₁
    exact absurd hq h₁

end LayOut

/-! ### The tar walk over a listing -/

section Tar

variable {items : List Item} {plan : List PlannedEntry} {strip : StripInfo}

def Item.kind (i : Item) : PlannedKind := if i.isDir then .dir else .file i.perm

/-- What the tar walk stages for an item. -/
def Item.staged (i : Item) : Staged := ⟨i.rel, i.kind, classify i.kind⟩

def ValidNames (items : List Item) : Prop :=
  ∀ i ∈ items, validateEntryName (slashed i.name) = .ok i.rel

theorem validateEntryName_rel {i : Item} {rel : Str}
    (h : validateEntryName (slashed i.name) = .ok rel) :
    validateEntryName (slashed i.name) = .ok i.rel := by
  obtain ⟨rfl, -⟩ := validateEntryName_eq_ok.mp h
  exact h

theorem saturatingAdd_eq {a b : Nat} (h : a + b ≤ maxTotalBytes) : saturatingAdd a b = a + b := by
  unfold saturatingAdd maxTotalBytes at *
  omega

theorem Item.plannedKind_tarEntry (i : Item) : plannedKind (i.tarEntry tr) = .ok i.kind := by
  cases hd : i.isDir <;> simp [plannedKind, Item.tarEntry, Item.kind, hd]

theorem Item.not_metadata (i : Item) : (i.tarEntry tr).entryType.isMetadata = false := by
  cases hd : i.isDir <;> simp [Item.tarEntry, hd, EntryType.isMetadata]

theorem Item.isRegular_tarEntry (i : Item) :
    (i.tarEntry tr).entryType.isRegular = !i.isDir := by
  cases hd : i.isDir <;> simp [Item.tarEntry, hd, EntryType.isRegular]

theorem Item.declare_tarEntry (i : Item) {total : Nat} (h : total + i.bytes ≤ maxTotalBytes) :
    declare total (i.tarEntry tr) = total + i.bytes := by
  unfold declare
  rw [i.isRegular_tarEntry]
  cases hd : i.isDir with
  | true => simp [Item.bytes, hd]
  | false =>
      simp only [Item.bytes, hd, Bool.false_eq_true, if_false] at h
      simpa [Item.bytes, Item.tarEntry, hd] using saturatingAdd_eq h

/-- Valid names inside the caps are staged, one for one. -/
theorem stageFrom_items : ∀ {items : List Item} {count total : Nat}, ValidNames items →
    count + items.length ≤ maxEntries → total + (items.map Item.bytes).sum ≤ maxTotalBytes →
    stageFrom count total ((items.map (Item.tarEntry tr)).map .ok) = .ok (items.map Item.staged)
  | [], _, _, _, _, _ => rfl
  | i :: items, count, total, hv, hc, hb => by
      rw [List.length_cons] at hc
      rw [List.map_cons, List.sum_cons] at hb
      have hname : entryRel "entry path not utf-8" (i.tarEntry tr) = .ok i.rel := hv i (by simp)
      have hdecl : declare total (i.tarEntry tr) = total + i.bytes :=
        i.declare_tarEntry (by omega)
      have hrest : stageFrom (count + 1) (total + i.bytes)
          ((items.map (Item.tarEntry tr)).map .ok) = .ok (items.map Item.staged) :=
        stageFrom_items (fun j hj => hv j (by simp [hj])) (by omega) (by omega)
      have hcount : ¬ count + 1 > maxEntries := by omega
      have hcap : ¬ ((i.tarEntry tr).entryType.isRegular = true ∧ total + i.bytes > maxTotalBytes) := by
        omega
      simp only [List.map_cons, stageFrom, rejectIf, hcount, i.not_metadata, hname, hdecl, hcap,
        i.plannedKind_tarEntry, hrest, if_false, Bool.false_eq_true, bind, Except.bind]
      rfl

theorem map_raw_staged (items : List Item) :
    (items.map Item.staged).map Staged.raw = items.map fun i => ⟨i.rel, i.isDir⟩ := by
  rw [List.map_map]
  apply List.map_congr_left
  intro i _
  cases hd : i.isDir <;> simp [Item.staged, Staged.raw, Item.kind, hd, classify, EntryClass.isDir]

/-- A stream inside the cap is handed out whole. -/
theorem tarFrom_of_le : ∀ {items : List Item} {remaining owed : Nat},
    owed + (items.map lay.span).sum + lay.trailer ≤ remaining →
    tarFrom lay tr remaining owed items = (items.map (Item.tarEntry tr)).map .ok
  | [], remaining, owed, h => by
      rw [tarFrom, if_neg (by simpa using h)]
      rfl
  | i :: items, remaining, owed, h => by
      rw [List.map_cons, List.sum_cons, TarLayout.span] at h
      rw [tarFrom, if_neg (by omega), tarFrom_of_le (by omega)]
      rfl

/-- Only a stream inside the cap is handed out without an error. -/
theorem le_of_tarFrom : ∀ {items : List Item} {remaining owed : Nat} {entries : List TarEntry},
    tarFrom lay tr remaining owed items = entries.map .ok →
    owed + (items.map lay.span).sum + lay.trailer ≤ remaining
  | [], remaining, owed, entries, h => by
      rw [tarFrom] at h
      split at h
      next => cases entries <;> simp at h
      next hle => simpa using hle
  | i :: items, remaining, owed, entries, h => by
      rw [tarFrom] at h
      split at h
      next => cases entries <;> simp at h
      next hle =>
        cases entries with
        | nil => simp at h
        | cons e entries =>
            have ih := le_of_tarFrom (List.cons.inj h).2
            rw [List.map_cons, List.sum_cons, TarLayout.span]
            omega

theorem entries_tarOf (h : lay.Fits items) :
    (tarOf lay tr items).entries = (items.map (Item.tarEntry tr)).map .ok :=
  tarFrom_of_le (by simpa [TarLayout.Fits] using h)

/-- Pass 1 of the tar walk, for valid names in a stream inside the cap. -/
theorem planTargz_items (l : Listing) (hf : lay.Fits l.items) (hv : ValidNames l.items) :
    planTargz pf (tarOf lay tr l.items) =
      (planFrom pf (itemStrip l.items) .new (l.items.map Item.staged)).map
        fun plan => (plan, itemStrip l.items) := by
  have hst : stageFrom 0 0 ((l.items.map (Item.tarEntry tr)).map .ok) =
      .ok (l.items.map Item.staged) :=
    stageFrom_items hv (by simpa using l.count) (by simpa using l.bytes)
  have hrw : (tarOf lay tr l.items).rewind "tar read: " =
      .ok ((l.items.map (Item.tarEntry tr)).map .ok) := congrArg Except.ok (entries_tarOf hf)
  simp only [planTargz, hrw, hst, map_raw_staged, bind, Except.bind, itemStrip]
  cases planFrom pf (stripSingleRoot (l.items.map fun i => (⟨i.rel, i.isDir⟩ : RawEntry))).2 .new
    (l.items.map Item.staged) <;> rfl

theorem entries_of_tarOf {entries : List TarEntry}
    (h : (tarOf lay tr items).entries = entries.map .ok) :
    lay.Fits items ∧ entries = items.map (Item.tarEntry tr) := by
  have hinj : Function.Injective (Except.ok : TarEntry → Except String TarEntry) :=
    fun _ _ hab => Except.ok.inj hab
  have hfits : lay.Fits items := by simpa [TarLayout.Fits] using le_of_tarFrom h
  rw [entries_tarOf hfits] at h
  exact ⟨hfits, (List.map_injective_iff.mpr hinj h).symm⟩

theorem filter_not_metadata (items : List Item) :
    ((items.map (Item.tarEntry tr)).filter fun e => !e.entryType.isMetadata) =
      items.map (Item.tarEntry tr) := by
  rw [List.filter_eq_self]
  intro e he
  obtain ⟨i, -, rfl⟩ := List.mem_map.mp he
  rw [i.not_metadata]
  rfl

theorem Item.isDir_of_tarEntry (i : Item) (h : (i.tarEntry tr).entryType = .directory) :
    i.isDir = true := by
  cases hd : i.isDir with
  | true => rfl
  | false => simp [Item.tarEntry, hd] at h

/-- Only valid names pass, in a stream inside the cap. -/
theorem validNames_of_planTargz (h : planTargz pf (tarOf lay tr items) = .ok (plan, strip)) :
    lay.Fits items ∧ ValidNames items := by
  obtain ⟨entries, staged, -, heq, -, hall, -, -⟩ := planTargz_inv h
  obtain ⟨hfits, rfl⟩ := entries_of_tarOf heq
  refine ⟨hfits, ?_⟩
  rw [filter_not_metadata] at hall
  intro i hi
  have hmem : i.tarEntry tr ∈ items.map (Item.tarEntry tr) := List.mem_map_of_mem hi
  obtain ⟨s, hs⟩ := forall₂_left hall _ hmem
  exact validateEntryName_rel hs.rel

theorem Item.final_eq (hv : ValidNames items) {i : Item} (hi : i ∈ items) (strip : StripInfo) :
    i.final strip = (finalRel strip (i.tarEntry tr)).map fun rel => (rel, i) := by
  have hname : tarName (i.tarEntry tr) = .ok i.rel := hv i hi
  rw [finalRel, hname]
  rfl

/-- What collides in an accepted listing is one directory. -/
theorem collide_of_planTargz (hv : ValidNames items) {strip : StripInfo}
    (hpl : planTargz pf (tarOf lay tr items) = .ok (plan, strip)) :
    (items.filterMap (Item.final strip)).Pairwise (OneDirectory pf) := by
  obtain ⟨entries, heq, hacc, hkeys⟩ := accounts_of_planTargz hpl
  obtain ⟨-, rfl⟩ := entries_of_tarOf heq
  have hshare := hacc.pairwise_sharePath (by simpa using hkeys)
  rw [filter_not_metadata, List.pairwise_map] at hshare
  rw [List.pairwise_filterMap]
  apply List.Pairwise.imp_of_mem _ hshare
  intro i j hi hj hij a ha b hb hkey
  rw [Item.final_eq hv hi] at ha
  rw [Item.final_eq hv hj] at hb
  obtain ⟨ra, hra, rfl⟩ := Option.map_eq_some_iff.mp ha
  obtain ⟨rb, hrb, rfl⟩ := Option.map_eq_some_iff.mp hb
  obtain ⟨hda, hdb, hab⟩ := hij ra rb hra hrb hkey
  exact ⟨i.isDir_of_tarEntry hda, j.isDir_of_tarEntry hdb, hab⟩

/-- An item under its final path, as the tar plan has it. -/
def planned (f : Str × Item) : PlannedEntry := ⟨f.1, f.2.kind⟩

theorem retarget_kind (i : Item) (strip : StripInfo) (rel : Str) :
    retarget strip rel i.kind = .ok i.kind := by
  cases hd : i.isDir <;> simp [Item.kind, hd, retarget]

theorem Item.kind_eq_dir {i : Item} : i.kind = .dir ↔ i.isDir = true := by
  cases hd : i.isDir <;> simp [Item.kind, hd]

/-- Nothing but repeated directories collides with what is planned already. -/
def Clear (pf : Platform) (before : List PlannedEntry) (fs : List (Str × Item)) : Prop :=
  ∀ p ∈ before, ∀ f ∈ fs, collisionKey pf p.rel = collisionKey pf f.1 →
    f.2.isDir = true ∧ p = planned f

/-- **What collides only as one directory is accepted.** -/
theorem planFrom_of_collide : ∀ {items : List Item} {seen : SeenPaths}
    {before : List PlannedEntry}, Claims pf seen before →
    Clear pf before (items.filterMap (Item.final strip)) →
    (items.filterMap (Item.final strip)).Pairwise (OneDirectory pf) →
    ∃ plan, planFrom pf strip seen (items.map Item.staged) = .ok plan
  | [], _, _, _, _, _ => ⟨[], rfl⟩
  | i :: items, seen, before, hcl, hclear, hpw => by
      rw [List.map_cons, planFrom]
      cases hr : strippedRel i.rel strip with
      | none =>
          have hfinal : i.final strip = none := by rw [Item.final, hr]; rfl
          rw [List.filterMap_cons_none hfinal] at hclear hpw
          simpa only [Item.staged, hr] using planFrom_of_collide hcl hclear hpw
      | some rel =>
          have hfinal : i.final strip = some (rel, i) := by rw [Item.final, hr]; rfl
          rw [List.filterMap_cons_some hfinal] at hclear hpw
          rw [List.pairwise_cons] at hpw
          have hclear' : Clear pf before (items.filterMap (Item.final strip)) :=
            fun p hp f hf => hclear p hp f (List.mem_cons_of_mem _ hf)
          cases hl : seen.claimed.lookup (collisionKey pf rel) with
          | none =>
              -- a fresh key: the item joins the plan
              have hcl' := hcl.cons (planned (rel, i)) hl
              have hclear₁ : Clear pf (before ++ [planned (rel, i)])
                  (items.filterMap (Item.final strip)) := by
                intro p hp f hf hkey
                rcases List.mem_append.mp hp with hp | hp
                · exact hclear' p hp f hf hkey
                · cases List.mem_singleton.mp hp
                  obtain ⟨hdi, hdf, heq⟩ := hpw.1 f hf hkey
                  have heq' : rel = f.1 := heq
                  refine ⟨hdf, ?_⟩
                  simp only [planned, Item.kind_eq_dir.mpr hdf, Item.kind_eq_dir.mpr hdi, heq']
              obtain ⟨plan, hplan⟩ := planFrom_of_collide hcl' hclear₁ hpw.2
              refine ⟨planned (rel, i) :: plan, ?_⟩
              simp only [planned] at hplan
              simp only [Item.staged, hr, SeenPaths.admitRel, hl, retarget_kind, hplan, bind,
                Except.bind]
              rfl
          | some claim =>
              -- a key that is taken: the same directory once more
              obtain ⟨p, hp, hkey, rfl⟩ := (hcl _ _).mp hl
              obtain ⟨hdi, rfl⟩ := hclear p hp (rel, i) List.mem_cons_self hkey
              obtain ⟨plan, hplan⟩ := planFrom_of_collide hcl hclear' hpw.2
              refine ⟨plan, ?_⟩
              have hkind : i.kind = .dir := Item.kind_eq_dir.mpr hdi
              simp only [Item.staged, hr, SeenPaths.admitRel, hl, planned, hkind, classify, if_true,
                hplan, bind, Except.bind]

/-- The plan's files are the listing's, in order. -/
theorem planJobs_items (hv : ValidNames items)
    (h : List.Forall₂ (PlansAs strip) ((items.filter fun i => !i.isDir).map (Item.tarEntry tr))
      (plan.filter PlannedEntry.isFile)) :
    List.zipWith fileJob ((items.filter fun i => !i.isDir).map (Item.tarEntry tr))
        (plan.filter PlannedEntry.isFile) =
      (filesOf (items.filterMap (Item.final strip))).map (jobOf tr) := by
  generalize plan.filter PlannedEntry.isFile = ps at h ⊢
  induction items generalizing ps with
  | nil => rfl
  | cons i items ih =>
      have hv' : ValidNames items := fun j hj => hv j (List.mem_cons_of_mem _ hj)
      cases hd : i.isDir with
      | true =>
          rw [List.filter_cons_of_neg (by simp [hd])] at h ⊢
          rw [ih hv' ps h]
          cases hf : i.final strip with
          | none => rw [List.filterMap_cons_none hf]
          | some f =>
              obtain ⟨rel, -, rfl⟩ := Option.map_eq_some_iff.mp hf
              rw [List.filterMap_cons_some hf, filesOf, filesOf,
                List.filter_cons_of_neg (by simp [hd])]
      | false =>
          rw [List.filter_cons_of_pos (by simp [hd]), List.map_cons] at h ⊢
          cases h with
          | @cons _ item _ ps hi hrest =>
              have hf : i.final strip = some (item.rel, i) := by
                rw [Item.final_eq hv List.mem_cons_self, hi.rel]
                rfl
              rw [List.zipWith_cons_cons, ih hv' ps hrest, List.filterMap_cons_some hf, filesOf,
                filesOf, List.filter_cons_of_pos (by simp [hd]), List.map_cons]
              rfl

theorem mem_finals {rel : Str} {i : Item} :
    (rel, i) ∈ items.filterMap (Item.final strip) ↔ i ∈ items ∧ strippedRel i.rel strip = some rel := by
  simp only [List.mem_filterMap, Item.final, Option.map_eq_some_iff, Prod.mk.injEq]
  constructor
  · rintro ⟨_, hi, _, hr, rfl, rfl⟩
    exact ⟨hi, hr⟩
  · rintro ⟨hi, hr⟩
    exact ⟨i, hi, rel, hr, rfl, rfl⟩

theorem finals_valid (hv : ValidNames items) :
    ∀ f ∈ items.filterMap (Item.final strip), ValidName f.1 := by
  rintro ⟨rel, i⟩ hf
  obtain ⟨hi, hr⟩ := mem_finals.mp hf
  exact strippedRel_valid (validName_of_ok (hv i hi)) hr

/-- The plan's directories are the listing's. -/
theorem mem_dirRels (hv : ValidNames items)
    (hacc : Accounts strip [] (items.map (Item.tarEntry tr)) plan) {rel : Str} :
    rel ∈ plan.filterMap PlannedEntry.dirRel ↔
      rel ∈ dirsOf (items.filterMap (Item.final strip)) := by
  have hfinal : ∀ {i : Item} {rel : Str}, i ∈ items →
      (finalRel strip (i.tarEntry tr) = some rel ↔ strippedRel i.rel strip = some rel) := by
    intro i rel hi
    have hname : tarName (i.tarEntry tr) = .ok i.rel := hv i hi
    rw [finalRel, hname]
  have hdirRel : ∀ item : PlannedEntry, item.dirRel = some rel ↔ item.kind = .dir ∧ item.rel = rel := by
    rintro ⟨r, kind⟩
    cases kind <;> simp [PlannedEntry.dirRel]
  rw [List.mem_filterMap, mem_dirsOf]
  constructor
  · rintro ⟨item, hitem, hrel⟩
    obtain ⟨hkind, rfl⟩ := (hdirRel item).mp hrel
    obtain ⟨e, he, -, hp⟩ := hacc.exists_entry item hitem
    obtain ⟨i, hi, rfl⟩ := List.mem_map.mp he
    refine ⟨(item.rel, i), mem_finals.mpr ⟨hi, (hfinal hi).mp hp.rel⟩, ?_, rfl⟩
    exact i.isDir_of_tarEntry (hp.dir_iff.mp hkind)
  · rintro ⟨⟨r, i⟩, hf, hd, rfl⟩
    obtain ⟨hi, hr⟩ := mem_finals.mp hf
    have htype : (i.tarEntry tr).entryType = .directory := by
      have hd' : i.isDir = true := hd
      simp [Item.tarEntry, hd']
    rcases hacc.planned_cases (List.mem_map_of_mem hi) i.not_metadata ((hfinal hi).mpr hr) with
      ⟨-, hmem⟩ | ⟨item, hmem, hrel, hp⟩
    · exact ⟨⟨r, .dir⟩, by simpa using hmem, rfl⟩
    · exact ⟨item, hmem, (hdirRel item).mpr ⟨hp.dir_iff.mpr htype, hrel⟩⟩

/-- A plan of directories and files only. -/
def NoLinks (plan : List PlannedEntry) : Prop :=
  ∀ item ∈ plan, ∀ target, item.kind ≠ .hardlink target ∧ item.kind ≠ .symlink target

theorem copyHardlinks_of_noLinks {written : Nat} :
    ∀ {plan : List PlannedEntry}, NoLinks plan → copyHardlinks dest written plan = pure written
  | [], _ => rfl
  | ⟨rel, kind⟩ :: rest, h => by
      have hrest : NoLinks rest := fun item hitem => h item (List.mem_cons_of_mem _ hitem)
      have ih : copyHardlinks dest written rest = pure written := copyHardlinks_of_noLinks hrest
      cases kind with
      | dir | file _ | symlink _ => exact ih
      | hardlink target => exact absurd rfl (h _ List.mem_cons_self target).1

theorem createSymlinks_of_noLinks :
    ∀ {plan : List PlannedEntry}, NoLinks plan → createSymlinks dest plan = pure ⟨⟩
  | [], _ => rfl
  | ⟨rel, kind⟩ :: rest, h => by
      have hrest : NoLinks rest := fun item hitem => h item (List.mem_cons_of_mem _ hitem)
      have ih : createSymlinks dest rest = pure ⟨⟩ := createSymlinks_of_noLinks hrest
      cases kind with
      | dir | file _ | hardlink _ => exact ih
      | symlink target => exact absurd rfl (h _ List.mem_cons_self target).2

theorem noLinks_of_accounts (hacc : Accounts strip [] (items.map (Item.tarEntry tr)) plan) :
    NoLinks plan := by
  intro item hitem target
  obtain ⟨e, he, -, hp⟩ := hacc.exists_entry item hitem
  obtain ⟨i, -, rfl⟩ := List.mem_map.mp he
  obtain ⟨kind, hk, hr⟩ := hp.kind
  rw [i.plannedKind_tarEntry] at hk
  cases Except.ok.inj hk
  rw [retarget_kind] at hr
  rw [← Except.ok.inj hr]
  cases hd : i.isDir <;> simp [Item.kind, hd]

/-- Pass 2 of the tar walk: directories, then files. -/
theorem materialize_items (hf : lay.Fits items) (hv : ValidNames items)
    (hacc : Accounts strip [] (items.map (Item.tarEntry tr)) plan)
    (hkeys : plan.Pairwise (KeysDiffer pf)) :
    materialize pf (tarOf lay tr items) plan strip dest =
      layOut pf dest (plan.filterMap PlannedEntry.dirRel)
        ((filesOf (items.filterMap (Item.final strip))).map (jobOf tr)) >>= fun _ => pure ⟨⟩ := by
  have hfilter : (items.map (Item.tarEntry tr)).filter TarEntry.isFile =
      (items.filter fun i => !i.isDir).map (Item.tarEntry tr) := by
    rw [List.filter_map]
    congr 2
    funext i
    exact i.isRegular_tarEntry
  have hreg := hacc.regular
  have hwrite : ∀ written, writeFiles pf strip (fileModes plan) dest written
      ((items.map (Item.tarEntry tr)).map .ok) = _ := fun written =>
    writeFiles_eq_writeAll hreg fun item hitem mode hk =>
      fileModes_lookup hkeys (List.mem_of_mem_filter hitem) hk
  have hlinks := noLinks_of_accounts hacc
  rw [hfilter] at hreg hwrite
  rw [planJobs_items hv hreg] at hwrite
  have hrw : (tarOf lay tr items).rewind "tar reread: " =
      .ok ((items.map (Item.tarEntry tr)).map .ok) := congrArg Except.ok (entries_tarOf hf)
  simp only [materialize, layOut, hrw, Io.ofExcept, pure_bind, bind_assoc, hwrite,
    copyHardlinks_of_noLinks hlinks, createSymlinks_of_noLinks hlinks]

theorem filesOf_nodup {fs : List (Str × Item)} (h : fs.Pairwise (OneDirectory pf)) :
    ((filesOf fs).map Prod.fst).Nodup := by
  rw [List.nodup_iff_pairwise_ne, List.pairwise_map]
  have hsub : (filesOf fs).Pairwise (OneDirectory pf) := h.sublist List.filter_sublist
  apply List.Pairwise.imp_of_mem _ hsub
  intro a b ha _ hab heq
  have hd := (hab (by rw [heq])).1
  rw [(mem_filesOf.mp ha).2] at hd
  cases hd

/-- The files of a listing have no more bytes than it has. -/
theorem sum_finals_le (strip : StripInfo) (items : List Item) :
    ((filesOf (items.filterMap (Item.final strip))).map fun f => f.2.content.length).sum ≤
      (items.map Item.bytes).sum := by
  induction items with
  | nil => exact Nat.le_refl _
  | cons i items ih =>
      rw [List.map_cons, List.sum_cons]
      cases hf : i.final strip with
      | none =>
          rw [List.filterMap_cons_none hf]
          omega
      | some f =>
          obtain ⟨rel, -, rfl⟩ := Option.map_eq_some_iff.mp hf
          rw [List.filterMap_cons_some hf]
          unfold filesOf at ih ⊢
          cases hd : i.isDir with
          | true =>
              rw [List.filter_cons_of_neg (by simp [hd])]
              omega
          | false =>
              rw [List.filter_cons_of_pos (by simp [hd]), List.map_cons, List.sum_cons]
              simp only [Item.bytes, hd, Bool.false_eq_true, if_false]
              omega

/-- **The tar walk takes a listing exactly when it can be laid out and its stream
is inside the cap**, and leaves just its items. -/
theorem extractTargz_run (l : Listing) (he : EmptyDir dest d.tree) (hq : d.faults = []) :
    wp (extractTargz pf (tarOf lay tr l.items) dest)
      (fun _ d' => (Extractable pf l.items ∧ lay.Fits l.items) ∧
        Extracted dest (finals l.items) d'.tree)
      (fun _ _ => ¬ (Extractable pf l.items ∧ lay.Fits l.items)) d := by
  rw [extractTargz, wp_bind, wp_ofExcept]
  cases hplan : planTargz pf (tarOf lay tr l.items) with
  | error e =>
      rintro ⟨hx, hfits⟩
      have hpass : planTargz pf (tarOf lay tr l.items) = _ := planTargz_items l hfits hx.names
      have hnew : Clear pf [] (finals l.items) := fun p hp => absurd hp List.not_mem_nil
      obtain ⟨plan, hok⟩ := planFrom_of_collide .new hnew hx.collide
      rw [hplan, hok] at hpass
      cases hpass
  | ok p =>
      obtain ⟨plan, strip⟩ := p
      obtain ⟨hfits, hv⟩ := validNames_of_planTargz hplan
      have hstrip : strip = itemStrip l.items := by
        have hpass : planTargz pf (tarOf lay tr l.items) = _ := planTargz_items l hfits hv
        rw [hplan] at hpass
        cases hp : planFrom pf (itemStrip l.items) .new (l.items.map Item.staged) with
        | error e => simp [hp, Except.map] at hpass
        | ok plan' =>
            rw [hp] at hpass
            exact (Prod.mk.inj (Except.ok.inj hpass)).2
      subst hstrip
      obtain ⟨entries, heq, hacc, hkeys⟩ := accounts_of_planTargz hplan
      obtain ⟨-, rfl⟩ := entries_of_tarOf heq
      have hcollide := collide_of_planTargz hv hplan
      show wp (materialize pf (tarOf lay tr l.items) plan (itemStrip l.items) dest) _ _ d
      rw [materialize_items hfits hv hacc hkeys, wp_bind]
      apply wp_mono (wp_layOut he hq (finals_valid hv) (filesOf_nodup hcollide)
        ((sum_finals_le _ _).trans l.bytes) fun rel => mem_dirRels hv hacc)
      · intro _ d' h
        exact ⟨⟨⟨hv, hcollide, h.1⟩, hfits⟩, h.2⟩
      · rintro _ _ h ⟨hx, -⟩
        exact h hx.fits

end Tar

/-! ### The zip walk over a listing -/

section Zip

variable {items : List Item} {strip : StripInfo}

theorem Item.zipMode_not_link {i : Item} (hp : i.perm < 0o10000) (hd : i.isDir = false) :
    i.zipMode &&& Zip.sIflnk ≠ Zip.sIflnk := by
  intro h
  have hbit := congrArg (fun n => n.testBit 13) h
  have hperm : i.perm.testBit 13 = false := Nat.testBit_lt_two_pow (by omega)
  have hlink : Zip.sIflnk.testBit 13 = true := by decide
  have htype : Nat.testBit 0o100000 13 = false := by decide
  simp only [Item.zipMode, hd, Bool.false_eq_true, if_false, Nat.testBit_and, Nat.testBit_or, hperm,
    hlink, htype] at hbit
  cases hbit

/-- The stored file type changes nothing in a clamped mode. -/
theorem Item.clampMode_zipMode {i : Item} : clampMode i.zipMode = clampMode i.perm := by
  unfold clampMode Item.zipMode
  rw [Nat.and_or_distrib_right]
  split <;> simp

/-- What the zip walk stages for the item with index `k`. -/
def Item.zipStaged (p : Item × Nat) : Zip.Staged :=
  ⟨p.1.rel, p.1.isDir, if p.1.isDir then none else some (p.2, p.1.zipMode)⟩

theorem stageEntry_item {i : Item} {k : Nat} (hs : Zip.endsWithSlash i.name = i.isDir)
    (hp : i.perm < 0o10000) :
    Zip.stageEntry k (i.zipEntry zr) =
      (validateEntryName (slashed i.name)).map fun rel =>
        ⟨rel, i.isDir, if i.isDir then none else some (k, i.zipMode)⟩ := by
  have hlink : ¬ (i.isDir = false ∧ i.zipMode &&& Zip.sIflnk = Zip.sIflnk) := fun h =>
    Item.zipMode_not_link hp h.1 h.2
  simp only [Zip.stageEntry, Item.zipEntry, hs, Option.getD_some, rejectIf, hlink, if_false,
    Bool.false_eq_true, bind, Except.bind]
  cases validateEntryName (slashed i.name) <;> rfl

/-- Valid names are staged, one for one. -/
theorem zip_stageFrom_items : ∀ {items : List Item} {k total : Nat}, ValidNames items →
    (∀ i ∈ items, Zip.endsWithSlash i.name = i.isDir) → (∀ i ∈ items, i.perm < 0o10000) →
    total + (items.map Item.bytes).sum ≤ maxTotalBytes →
    Zip.stageFrom k total (items.map (Item.zipEntry zr)) =
      .ok ((items.zipIdx k).map Item.zipStaged, total + (items.map Item.bytes).sum)
  | [], _, _, _, _, _, _ => rfl
  | i :: items, k, total, hv, hs, hp, hb => by
      rw [List.map_cons, List.sum_cons] at hb
      have hentry : Zip.stageEntry k (i.zipEntry zr) = .ok (Item.zipStaged (i, k)) := by
        rw [stageEntry_item (hs i List.mem_cons_self) (hp i List.mem_cons_self),
          hv i List.mem_cons_self]
        rfl
      have htotal : (if i.isDir then total else saturatingAdd total i.content.length) =
          total + i.bytes := by
        unfold Item.bytes at hb ⊢
        cases hd : i.isDir with
        | true => rfl
        | false =>
            simp only [hd, Bool.false_eq_true, if_false] at hb ⊢
            exact saturatingAdd_eq (by omega)
      have hrest : Zip.stageFrom (k + 1) (total + i.bytes) (items.map (Item.zipEntry zr)) =
          .ok ((items.zipIdx (k + 1)).map Item.zipStaged,
            total + i.bytes + (items.map Item.bytes).sum) :=
        zip_stageFrom_items (fun j hj => hv j (List.mem_cons_of_mem _ hj))
          (fun j hj => hs j (List.mem_cons_of_mem _ hj))
          (fun j hj => hp j (List.mem_cons_of_mem _ hj)) (by omega)
      have hsize : (i.zipEntry zr).size = i.content.length := rfl
      have hdir : (Item.zipStaged (i, k)).isDir = i.isDir := rfl
      rw [List.map_cons, Zip.stageFrom, hentry]
      simp only [bind, Except.bind, hdir, hsize, htotal, hrest, List.zipIdx_cons, List.map_cons,
        List.sum_cons, Nat.add_assoc]

/-- Only valid names are staged. -/
theorem validNames_of_stageFrom : ∀ {items : List Item} {k total : Nat}
    {r : List Zip.Staged × Nat}, (∀ i ∈ items, Zip.endsWithSlash i.name = i.isDir) →
    (∀ i ∈ items, i.perm < 0o10000) →
    Zip.stageFrom k total (items.map (Item.zipEntry zr)) = .ok r → ValidNames items
  | [], _, _, _, _, _, _ => fun i hi => absurd hi List.not_mem_nil
  | i :: items, k, total, r, hs, hp, h => by
      rw [List.map_cons, Zip.stageFrom, bind_eq_ok] at h
      obtain ⟨s, hentry, h⟩ := h
      rw [bind_eq_ok] at h
      obtain ⟨r', hrest, -⟩ := h
      rw [stageEntry_item (hs i List.mem_cons_self) (hp i List.mem_cons_self)] at hentry
      have hhead : validateEntryName (slashed i.name) = .ok i.rel := by
        cases hn : validateEntryName (slashed i.name) with
        | error e => simp [hn, Except.map] at hentry
        | ok rel => exact hn ▸ validateEntryName_rel hn
      have htail : ValidNames items :=
        validNames_of_stageFrom (fun j hj => hs j (List.mem_cons_of_mem _ hj))
          (fun j hj => hp j (List.mem_cons_of_mem _ hj)) hrest
      intro j hj
      rcases List.mem_cons.mp hj with rfl | hj
      · exact hhead
      · exact htail j hj

theorem map_raw_zipStaged (items : List Item) (k : Nat) :
    ((items.zipIdx k).map Item.zipStaged).map Zip.Staged.raw =
      items.map fun i => ⟨i.rel, i.isDir⟩ := by
  rw [List.map_map, show (Zip.Staged.raw ∘ Item.zipStaged) =
    (fun i : Item => (⟨i.rel, i.isDir⟩ : RawEntry)) ∘ Prod.fst from rfl, ← List.map_map,
    List.zipIdx_map_fst]

/-- No two final paths have one collision key. -/
def KeysNodup (pf : Platform) (fs : List (Str × Item)) : Prop :=
  (fs.map fun f => collisionKey pf f.1).Nodup

/-- The file the zip walk plans for the item with index `k`. -/
def zipFile (strip : StripInfo) (p : Item × Nat) : Option Zip.PlannedFile :=
  if p.1.isDir then none
  else (strippedRel p.1.rel strip).map fun rel => ⟨p.2, rel, p.1.zipMode⟩

/-- **The zip walk accepts exactly the listings without a repeated key**: it has
no exception for directories. -/
theorem zip_planFrom_iff : ∀ {items : List Item} {k : Nat} {seen : List Str}
    {r : List Str × List Zip.PlannedFile},
    Zip.planFrom pf strip seen ((items.zipIdx k).map Item.zipStaged) = .ok r ↔
      (KeysNodup pf (items.filterMap (Item.final strip)) ∧
        ∀ f ∈ items.filterMap (Item.final strip), collisionKey pf f.1 ∉ seen) ∧
      r = (dirsOf (items.filterMap (Item.final strip)),
        (items.zipIdx k).filterMap (zipFile strip))
  | [], k, seen, r => by simp [Zip.planFrom, KeysNodup, dirsOf, eq_comm]
  | i :: items, k, seen, r => by
      rw [List.zipIdx_cons, List.map_cons, Zip.planFrom]
      cases hr : strippedRel i.rel strip with
      | none =>
          have hfinal : i.final strip = none := by rw [Item.final, hr]; rfl
          have hfile : zipFile strip (i, k) = none := by simp [zipFile, hr]
          rw [List.filterMap_cons_none hfinal, List.filterMap_cons_none hfile]
          simpa only [Item.zipStaged, hr] using zip_planFrom_iff
      | some rel =>
          have hfinal : i.final strip = some (rel, i) := by rw [Item.final, hr]; rfl
          rw [List.filterMap_cons_some hfinal, KeysNodup, List.map_cons, List.nodup_cons,
            List.forall_mem_cons]
          simp only [Item.zipStaged, hr, rejectIf_bind_eq_ok, List.contains_eq_mem,
            decide_eq_true_eq]
          simp only [bind_eq_ok, Prod.exists, zip_planFrom_iff, Prod.mk.injEq]
          have hkeys : (∀ f ∈ items.filterMap (Item.final strip),
              collisionKey pf f.1 ∉ collisionKey pf rel :: seen) ↔
                (collisionKey pf rel ∉ (items.filterMap (Item.final strip)).map
                  fun f => collisionKey pf f.1) ∧
                ∀ f ∈ items.filterMap (Item.final strip), collisionKey pf f.1 ∉ seen := by
            simp only [List.mem_cons, not_or, List.mem_map, not_exists, not_and]
            constructor
            · intro h
              exact ⟨fun f hf => (h f hf).1, fun f hf => (h f hf).2⟩
            · rintro ⟨h, h'⟩ f hf
              exact ⟨h f hf, h' f hf⟩
          rw [hkeys]
          cases hd : i.isDir with
          | true =>
              have hfile : zipFile strip (i, k) = none := by simp [zipFile, hd]
              rw [List.filterMap_cons_none hfile, dirsOf, dirsOf,
                List.filter_cons_of_pos (by simp [hd]),
                List.map_cons]
              simp only [KeysNodup, if_true, Except.ok.injEq]
              constructor
              · rintro ⟨hseen, dirs, files, ⟨⟨hnd, hhead, hall⟩, rfl, rfl⟩, rfl⟩
                exact ⟨⟨⟨hhead, hnd⟩, hseen, hall⟩, rfl⟩
              · rintro ⟨⟨⟨hhead, hnd⟩, hseen, hall⟩, rfl⟩
                exact ⟨hseen, _, _, ⟨⟨hnd, hhead, hall⟩, rfl, rfl⟩, rfl⟩
          | false =>
              have hfile : zipFile strip (i, k) = some ⟨k, rel, i.zipMode⟩ := by
                simp [zipFile, hd, hr]
              rw [List.filterMap_cons_some hfile, dirsOf, dirsOf,
                List.filter_cons_of_neg (by simp [hd])]
              simp only [KeysNodup, Bool.false_eq_true, if_false, Except.ok.injEq]
              constructor
              · rintro ⟨hseen, dirs, files, ⟨⟨hnd, hhead, hall⟩, rfl, rfl⟩, rfl⟩
                exact ⟨⟨⟨hhead, hnd⟩, hseen, hall⟩, rfl⟩
              · rintro ⟨⟨⟨hhead, hnd⟩, hseen, hall⟩, rfl⟩
                exact ⟨hseen, _, _, ⟨⟨hnd, hhead, hall⟩, rfl, rfl⟩, rfl⟩

/-- Each planned file is written as its item. -/
theorem zip_writeFiles_items {all : List Item} : ∀ {items : List Item} {k written : Nat},
    all.drop k = items →
    Zip.writeFiles pf (zipOf zr all) dest written ((items.zipIdx k).filterMap (zipFile strip)) =
      writeAll pf dest written ((filesOf (items.filterMap (Item.final strip))).map (jobOf zr))
  | [], _, _, _ => rfl
  | i :: items, k, written, h => by
      have hget : all[k]? = some i := by rw [← List.head?_drop, h]; rfl
      have hdrop : all.drop (k + 1) = items := by rw [← List.tail_drop, h]; rfl
      have ih : ∀ w, Zip.writeFiles pf (zipOf zr all) dest w
          ((items.zipIdx (k + 1)).filterMap (zipFile strip)) = _ := fun _ =>
        zip_writeFiles_items hdrop
      have hindex : Zip.byIndex (zipOf zr all) k = .ok (i.zipEntry zr) := by
        simp [Zip.byIndex, zipOf, hget, Item.zipEntry]
      rw [List.zipIdx_cons]
      cases hd : i.isDir with
      | true =>
          have hfile : zipFile strip (i, k) = none := by simp [zipFile, hd]
          rw [List.filterMap_cons_none hfile, ih]
          cases hf : i.final strip with
          | none => rw [List.filterMap_cons_none hf]
          | some f =>
              obtain ⟨rel, -, rfl⟩ := Option.map_eq_some_iff.mp hf
              rw [List.filterMap_cons_some hf, filesOf, filesOf,
                List.filter_cons_of_neg (by simp [hd])]
      | false =>
          cases hr : strippedRel i.rel strip with
          | none =>
              have hfinal : i.final strip = none := by rw [Item.final, hr]; rfl
              have hfile : zipFile strip (i, k) = none := by simp [zipFile, hr]
              rw [List.filterMap_cons_none hfinal, List.filterMap_cons_none hfile, ih]
          | some rel =>
              have hfinal : i.final strip = some (rel, i) := by rw [Item.final, hr]; rfl
              have hfile : zipFile strip (i, k) = some ⟨k, rel, i.zipMode⟩ := by
                simp [zipFile, hd, hr]
              rw [List.filterMap_cons_some hfinal, List.filterMap_cons_some hfile, filesOf,
                List.filter_cons_of_pos (by simp [hd]), List.map_cons, writeAll, Zip.writeFiles]
              simp only [Zip.writeFile, writeFile, hindex, Io.ofExcept, pure_bind, bind_assoc, ih,
                jobOf, Item.clampMode_zipMode]
              rfl

/-- Everything before the writes, for valid names. -/
theorem planZip_items (l : Listing) (hv : ValidNames l.items) :
    planZip pf (zipOf zr l.items) =
      Zip.planFrom pf (itemStrip l.items) [] (l.items.zipIdx.map Item.zipStaged) := by
  have hst : Zip.stageFrom 0 0 (l.items.map (Item.zipEntry zr)) =
      .ok (l.items.zipIdx.map Item.zipStaged, 0 + (l.items.map Item.bytes).sum) :=
    zip_stageFrom_items hv l.slash l.perms (by simpa using l.bytes)
  have hopen : (zipOf zr l.items).openEntries = .ok (l.items.map (Item.zipEntry zr)) := rfl
  have hcount : ¬ (l.items.map (Item.zipEntry zr)).length > maxEntries := by
    rw [List.length_map]
    exact Nat.not_lt.mpr l.count
  have htotal : ¬ 0 + (l.items.map Item.bytes).sum > maxTotalBytes := by
    have := l.bytes
    omega
  simp only [planZip, hopen, hst, rejectIf, hcount, htotal, if_false, map_raw_zipStaged, itemStrip,
    bind, Except.bind]

theorem validNames_of_planZip (l : Listing) {r : List Str × List Zip.PlannedFile}
    (h : planZip pf (zipOf zr l.items) = .ok r) : ValidNames l.items := by
  have hopen : (zipOf zr l.items).openEntries = .ok (l.items.map (Item.zipEntry zr)) := rfl
  simp only [planZip, hopen, bind_eq_ok, Except.ok.injEq, exists_eq_left'] at h
  obtain ⟨_, -, _, hst, -⟩ := h
  exact validNames_of_stageFrom l.slash l.perms hst

theorem KeysNodup.collide {fs : List (Str × Item)} (h : KeysNodup pf fs) :
    fs.Pairwise (OneDirectory pf) := by
  rw [KeysNodup, List.nodup_iff_pairwise_ne, List.pairwise_map] at h
  exact h.imp fun hne heq => absurd heq hne

/-- **The zip walk takes a listing exactly when it can be laid out and no
directory is named twice**, and leaves just its items. -/
theorem extractZip_run (l : Listing) (he : EmptyDir dest d.tree) (hq : d.faults = []) :
    wp (extractZip pf (zipOf zr l.items) dest)
      (fun _ d' => (Extractable pf l.items ∧ KeysNodup pf (finals l.items)) ∧
        Extracted dest (finals l.items) d'.tree)
      (fun _ _ => ¬ (Extractable pf l.items ∧ KeysNodup pf (finals l.items))) d := by
  rw [extractZip, wp_bind, wp_ofExcept]
  cases hplan : planZip pf (zipOf zr l.items) with
  | error e =>
      rintro ⟨hx, hnd⟩
      rw [planZip_items l hx.names] at hplan
      have hok : Zip.planFrom pf (itemStrip l.items) []
          (l.items.zipIdx.map Item.zipStaged) = .ok (_, _) :=
        zip_planFrom_iff.mpr ⟨⟨hnd, fun _ _ => List.not_mem_nil⟩, rfl⟩
      rw [hplan] at hok
      cases hok
  | ok p =>
      have hv := validNames_of_planZip l hplan
      rw [planZip_items l hv] at hplan
      obtain ⟨⟨hnd, -⟩, rfl⟩ := zip_planFrom_iff.mp hplan
      have hwrite : ∀ written, Zip.writeFiles pf (zipOf zr l.items) dest written
          (l.items.zipIdx.filterMap (zipFile (itemStrip l.items))) = _ := fun _ =>
        zip_writeFiles_items List.drop_zero
      have hlay : wp (layOut pf dest (dirsOf (finals l.items))
          ((filesOf (finals l.items)).map (jobOf zr))) _ _ d :=
        wp_layOut he hq (finals_valid hv) (filesOf_nodup hnd.collide)
          ((sum_finals_le _ _).trans l.bytes) fun _ => Iff.rfl
      simp only [hwrite]
      rw [← bind_assoc, wp_bind]
      apply wp_mono hlay
      · intro _ d' h
        exact ⟨⟨⟨hv, hnd.collide, h.1⟩, hnd⟩, h.2⟩
      · rintro _ _ h ⟨hx, -⟩
        exact h hx.fits

end Zip

/-! ### When the formats agree -/

section Agreement

variable {items : List Item}

theorem slashed_concat (s : Str) : slashed (s ++ ['/']) = slashed s ++ ['/'] := by
  simp [slashed]

theorem slashed_eq_self {s : Str} (h : '\\' ∉ s) : slashed s = s := by
  unfold slashed
  conv_rhs => rw [← List.map_id s]
  apply List.map_congr_left
  intro c hc
  have hne : c ≠ '\\' := fun heq => h (heq ▸ hc)
  simp [hne]

theorem slash_mem_slashed {s : Str} (h : '\\' ∈ s) : '/' ∈ slashed s :=
  List.mem_map.mpr ⟨'\\', h, rfl⟩

theorem eq_of_endsWithSlash {s : Str} (h : Zip.endsWithSlash s = true) : s = s.dropLast ++ ['/'] :=
  eq_concat_of_getLast? (by simpa [Zip.endsWithSlash] using h)

/-- A directory's name is its cleaned name and a slash. -/
theorem Item.slashed_name {i : Item} (h : Zip.endsWithSlash i.name = true) :
    slashed i.name = i.rel ++ ['/'] := by
  have hname := eq_of_endsWithSlash h
  have hsl : slashed i.name = slashed i.name.dropLast ++ ['/'] := by
    conv_lhs => rw [hname, slashed_concat]
  have hrel : i.rel = slashed i.name.dropLast := by
    rw [Item.rel, hsl, trimSlash, List.getLast?_concat, if_pos rfl, List.dropLast_concat]
  rw [hsl, hrel]

/-- A directory that is spelled in two ways is not the stripped root: that is a
single component, which leaves nothing to spell otherwise. -/
theorem slash_mem_of_spelledTwice {i j : Item} (hi : Zip.endsWithSlash i.name = true)
    (hj : Zip.endsWithSlash j.name = true) (hne : i.name ≠ j.name)
    (heq : slashed i.name = slashed j.name) : '/' ∈ i.rel := by
  by_contra hn
  have hrel : i.rel = j.rel := by rw [Item.rel, Item.rel, heq]
  have hplain : ∀ k : Item, Zip.endsWithSlash k.name = true → '/' ∉ k.rel →
      k.name = k.rel ++ ['/'] := by
    intro k hk hslash
    have hname := eq_of_endsWithSlash hk
    have hsl := k.slashed_name hk
    have hdrop : slashed k.name.dropLast = k.rel := by
      rw [hname, slashed_concat] at hsl
      exact List.append_cancel_right hsl
    have hback : '\\' ∉ k.name.dropLast := fun hb => hslash (hdrop ▸ slash_mem_slashed hb)
    rw [slashed_eq_self hback] at hdrop
    rw [← hdrop]
    exact hname
  apply hne
  rw [hplain i hi hn, hplain j hj (hrel ▸ hn), hrel]

theorem top_single (items : List Item) : '/' ∉ (itemStrip items).root := by
  unfold itemStrip
  rw [stripSingleRoot_snd]
  show '/' ∉ (Option.map _ _).getD []
  cases (items.map fun i => (⟨i.rel, i.isDir⟩ : RawEntry)).head? with
  | none => simp
  | some e => exact not_mem_top e.rel

/-- Where everything that collides is one directory, a key comes twice only for a
directory that is spelled in two ways. -/
theorem keysNodup_iff (l : Listing) (hx : Extractable pf l.items) :
    KeysNodup pf (finals l.items) ↔ ¬ SpelledTwice l.items := by
  have hnames : l.items.Pairwise fun i j => i.name ≠ j.name := by
    have := l.names
    rwa [List.nodup_iff_pairwise_ne, List.pairwise_map] at this
  constructor
  · rintro hnd ⟨i, hi, j, hj, hdi, hdj, hne, heq⟩
    have hsi : Zip.endsWithSlash i.name = true := (l.slash i hi).trans hdi
    have hsj : Zip.endsWithSlash j.name = true := (l.slash j hj).trans hdj
    have hrel : i.rel = j.rel := by rw [Item.rel, Item.rel, heq]
    have hslash := slash_mem_of_spelledTwice hsi hsj hne heq
    have hroot : i.rel ≠ (itemStrip l.items).root := fun h => top_single l.items (h ▸ hslash)
    -- both have the same final path, so the same key
    obtain ⟨rel, hfi⟩ : ∃ rel, strippedRel i.rel (itemStrip l.items) = some rel := by
      cases hs : (itemStrip l.items).stripped with
      | false => exact ⟨i.rel, by simp [strippedRel, hs]⟩
      | true =>
          have hv : ∀ e ∈ l.items.map fun i => (⟨i.rel, i.isDir⟩ : RawEntry), ValidName e.rel := by
            intro e he
            obtain ⟨k, hk, rfl⟩ := List.mem_map.mp he
            exact validName_of_ok (hx.names k hk)
          unfold itemStrip at hs hroot ⊢
          rw [stripSingleRoot_snd] at hs hroot ⊢
          rcases shouldStrip_spec hv hs _ (List.mem_map_of_mem hi) with ⟨h, -⟩ | ⟨rest, h⟩
          · exact absurd h hroot
          · have hrest : i.rel = _ ++ '/' :: rest := h
            rw [hrest]
            exact ⟨rest, strippedRel_of_stripped hs⟩
    have hmi : (rel, i) ∈ finals l.items := mem_finals.mpr ⟨hi, hfi⟩
    have hmj : (rel, j) ∈ finals l.items := mem_finals.mpr ⟨hj, hrel ▸ hfi⟩
    have hij : (rel, i) = (rel, j) := List.inj_on_of_nodup_map hnd hmi hmj rfl
    exact hne (congrArg (fun f : Str × Item => f.2.name) hij)
  · intro hsp
    rw [KeysNodup, List.nodup_iff_pairwise_ne, List.pairwise_map, finals, List.pairwise_filterMap]
    have hcollide := hx.collide
    rw [finals, List.pairwise_filterMap] at hcollide
    apply List.Pairwise.imp_of_mem _ (List.Pairwise.and hnames hcollide)
    rintro i j hi hj ⟨hne, hone⟩ a ha b hb hkey
    obtain ⟨hda, hdb, hab⟩ := hone a ha b hb hkey
    obtain ⟨ra, hra, rfl⟩ := Option.map_eq_some_iff.mp ha
    obtain ⟨rb, hrb, rfl⟩ := Option.map_eq_some_iff.mp hb
    have hrab : ra = rb := hab
    have hrel : i.rel = j.rel := strippedRel_inj hra (hrab ▸ hrb)
    refine hsp ⟨i, hi, j, hj, hda, hdb, hne, ?_⟩
    rw [i.slashed_name ((l.slash i hi).trans hda), j.slashed_name ((l.slash j hj).trans hdb), hrel]

/-- The two formats agree on a listing: both fail, or both leave one tree. -/
def Agree (pf : Platform) (lay : TarLayout) (tr zr : Reader) (dest : Path) (d : Disk)
    (items : List Item) : Prop :=
  match extractTargz pf (tarOf lay tr items) dest d, extractZip pf (zipOf zr items) dest d with
  | .ok _ dt, .ok _ dz => SameTree dest dt.tree dz.tree
  | .error _ _, .error _ _ => True
  | .ok _ _, .error _ _ => False
  | .error _ _, .ok _ _ => False

/-- Where a listing can be laid out, each format refuses one kind of it: the zip
walk one that names a directory in two ways, the tar walk one whose stream is
over the cap. -/
theorem formats_agree_of_extractable (l : Listing) (he : EmptyDir dest d.tree) (hq : d.faults = [])
    (hx : Extractable pf l.items) :
    Agree pf lay tr zr dest d l.items ↔ (SpelledTwice l.items ↔ ¬ lay.Fits l.items) := by
  have htar : wp (extractTargz pf (tarOf lay tr l.items) dest) _ _ d := extractTargz_run l he hq
  have hzip : wp (extractZip pf (zipOf zr l.items) dest) _ _ d := extractZip_run l he hq
  have hkeys := keysNodup_iff l hx
  unfold Agree
  cases ht : extractTargz pf (tarOf lay tr l.items) dest d with
  | ok _ dt =>
      obtain ⟨⟨-, hfits⟩, htree⟩ := wp_ok htar ht
      cases hz : extractZip pf (zipOf zr l.items) dest d with
      | ok _ dz =>
          obtain ⟨⟨-, hnd⟩, hztree⟩ := wp_ok hzip hz
          have hagree : SameTree dest dt.tree dz.tree := htree.sameTree hztree
          exact iff_of_true hagree (iff_of_false (hkeys.mp hnd) fun h => h hfits)
      | error e dz =>
          have hnot := wp_error hzip hz
          have htwice : SpelledTwice l.items := by
            by_contra h
            exact hnot ⟨hx, hkeys.mpr h⟩
          exact iff_of_false id fun h => h.mp htwice hfits
  | error e dt =>
      have hnot := wp_error htar ht
      have hlong : ¬ lay.Fits l.items := fun h => hnot ⟨hx, h⟩
      cases hz : extractZip pf (zipOf zr l.items) dest d with
      | ok _ dz =>
          obtain ⟨⟨-, hnd⟩, -⟩ := wp_ok hzip hz
          exact iff_of_false id fun h => hkeys.mp hnd (h.mpr hlong)
      | error e' dz =>
          have hnot := wp_error hzip hz
          have htwice : SpelledTwice l.items := by
            by_contra h
            exact hnot ⟨hx, hkeys.mpr h⟩
          exact iff_of_true trivial (iff_of_true htwice hlong)

/-- **The formats agree on every listing but two kinds** of those that could be
laid out: one that names a directory in two ways, which the tar walk takes and the
zip walk refuses, and one whose tar stream is over the cap, where it is the other
way round. A listing of both kinds is refused by both. -/
theorem formats_agree_iff (l : Listing) (he : EmptyDir dest d.tree) (hq : d.faults = []) :
    Agree pf lay tr zr dest d l.items ↔
      (Extractable pf l.items → (SpelledTwice l.items ↔ ¬ lay.Fits l.items)) := by
  by_cases hx : Extractable pf l.items
  · rw [formats_agree_of_extractable l he hq hx]
    exact ⟨fun h _ => h, fun h => h hx⟩
  · have htar : wp (extractTargz pf (tarOf lay tr l.items) dest) _ _ d := extractTargz_run l he hq
    have hzip : wp (extractZip pf (zipOf zr l.items) dest) _ _ d := extractZip_run l he hq
    refine iff_of_true ?_ fun h => absurd h hx
    unfold Agree
    cases ht : extractTargz pf (tarOf lay tr l.items) dest d with
    | ok _ dt => exact absurd (wp_ok htar ht).1.1 hx
    | error e dt =>
        cases hz : extractZip pf (zipOf zr l.items) dest d with
        | ok _ dz => exact absurd (wp_ok hzip hz).1.1 hx
        | error e' dz => trivial

/-- A decoder that hands everything out at once. -/
def wholeReader : Reader where
  reads content := [.ok content]
  whole content := by cases content <;> simp [readAll]

/-- GNU tar: one block for a header, two more and the name for a long one. -/
def gnuLayout : TarLayout where
  header i := if i.name.length < 100 then 512 else 1024 + padded (i.name.length + 1)
  trailer := 512
  block i := by split <;> omega

def directoryItem (name : String) : Item := ⟨name.toList, true, 0o755, []⟩

def fileItem (name : String) (content : Bytes) : Item := ⟨name.toList, false, 0o755, content⟩

/-- A package under a root of its own, with a backslash in a file's name. -/
def plainListing : Listing where
  items := [directoryItem "pkg/", directoryItem "pkg/bin/", fileItem "pkg\\bin/tool" [1, 2]]
  names := by decide
  slash := by decide
  perms := by decide
  count := by decide
  bytes := by decide

/-- One directory, spelled in two ways. -/
def respelledListing : Listing where
  items := [directoryItem "a\\b/", directoryItem "a/b/"]
  names := by decide
  slash := by decide
  perms := by decide
  count := by decide
  bytes := by decide

/-- One file of a size. -/
def longListing (n : Nat) (h : n ≤ maxTotalBytes) : Listing where
  items := [fileItem "a" (List.replicate n 0)]
  names := List.nodup_singleton _
  slash i hi := by
    obtain rfl := List.mem_singleton.mp hi
    show Zip.endsWithSlash "a".toList = false
    decide
  perms i hi := by
    obtain rfl := List.mem_singleton.mp hi
    show 0o755 < 0o10000
    decide
  count := Nat.le_of_ble_eq_true rfl
  bytes := by simpa [fileItem, Item.bytes] using h

theorem formats_agree_plain :
    Agree asciiPlatform gnuLayout wholeReader wholeReader ["out".toList] sampleDisk
      plainListing.items := by
  have hsp : ¬ SpelledTwice plainListing.items := by
    unfold SpelledTwice
    decide
  have hfits : gnuLayout.Fits plainListing.items := by
    unfold TarLayout.Fits
    decide
  rw [formats_agree_iff plainListing sampleDisk_emptyDir rfl]
  exact fun _ => iff_of_false hsp fun h => h hfits

/-- The tar walk takes the directory's second spelling for a repeated header; to
the zip walk it is a collision. -/
theorem disagree_respelled : ¬ Agree asciiPlatform gnuLayout wholeReader wholeReader
    ["out".toList] sampleDisk respelledListing.items := by
  have htar : returns (extractTargz asciiPlatform (tarOf gnuLayout wholeReader
      respelledListing.items) ["out".toList]) sampleDisk = true := by decide
  have hzip : returns (extractZip asciiPlatform (zipOf wholeReader respelledListing.items)
      ["out".toList]) sampleDisk = false := by decide
  intro h
  obtain ⟨_, dt, ht⟩ := exists_of_returns htar
  unfold Agree at h
  rw [ht] at h
  cases hz : extractZip asciiPlatform (zipOf wholeReader respelledListing.items)
    ["out".toList] sampleDisk with
  | ok _ dz =>
      rw [returns, hz] at hzip
      cases hzip
  | error e dz =>
      rw [hz] at h
      exact h

theorem extractable_long (n : Nat) (h : n ≤ maxTotalBytes) :
    Extractable asciiPlatform (longListing n h).items := by
  have hfinals : finals (longListing n h).items =
      [("a".toList, fileItem "a" (List.replicate n 0))] := rfl
  refine ⟨fun i hi => ?_, ?_, ?_⟩
  · obtain rfl := List.mem_singleton.mp hi
    show validateEntryName (slashed "a".toList) = .ok (trimSlash (slashed "a".toList))
    decide
  · rw [hfinals]
    exact List.pairwise_singleton _ _
  · rw [hfinals]
    exact ⟨fun f _ r hr => absurd hr List.not_mem_nil, List.pairwise_singleton _ _⟩

/-- **A file that is inside the cap alone, and over it with its header**, is refused
by the tar walk only. -/
theorem disagree_long {n : Nat} (h : n ≤ maxTotalBytes) (hlong : maxTotalBytes < 1024 + padded n) :
    ¬ Agree asciiPlatform gnuLayout wholeReader wholeReader ["out".toList] sampleDisk
      (longListing n h).items := by
  rw [formats_agree_of_extractable _ sampleDisk_emptyDir rfl (extractable_long n h)]
  have hsp : ¬ SpelledTwice (longListing n h).items := by
    rintro ⟨i, hi, -, -, hd, -⟩
    obtain rfl := List.mem_singleton.mp hi
    cases hd
  intro hiff
  refine hsp (hiff.mpr fun hfits => ?_)
  have hsum : 512 + padded n + 512 ≤ maxTotalBytes := by
    simpa [TarLayout.Fits, TarLayout.span, longListing, fileItem, gnuLayout] using hfits
  omega

/-- Two listings inside the caps, of either kind: a directory spelled in two ways, and a
file of 600 bytes less than the cap. -/
theorem formats_disagree :
    (¬ Agree asciiPlatform gnuLayout wholeReader wholeReader ["out".toList] sampleDisk
      respelledListing.items) ∧
    ¬ Agree asciiPlatform gnuLayout wholeReader wholeReader ["out".toList] sampleDisk
      (longListing (maxTotalBytes - 600) (Nat.sub_le _ _)).items :=
  ⟨disagree_respelled, disagree_long _ (by decide)⟩

end Agreement

end OpenVHost.Pkg
