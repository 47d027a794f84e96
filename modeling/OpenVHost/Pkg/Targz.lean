/-
# Hardened tar.gz extraction

Two passes over one archive. `planTargz` reads every header, validates it and
builds the plan; nothing is written unless the whole archive is accepted.
`materialize` then reads the archive again and writes: directories, regular
files, hard links as copies, and symlinks last. An archive is what the tar
reader hands out, entry by entry, with the reader's own errors in it.
-/

import OpenVHost.FileTree.Rules
import OpenVHost.Pkg.Validate
import Mathlib.Data.List.Sort

namespace OpenVHost.Pkg

open FileTree

/-! ### What the tar reader hands out -/

inductive EntryType where
  | regular
  | link
  | symlink
  | char
  | block
  | directory
  | fifo
  | continuous
  | gnuLongName
  | gnuLongLink
  | gnuSparse
  | xGlobalHeader
  | xHeader
  | other (code : Nat)
  deriving DecidableEq, Repr

namespace EntryType

/-- Headers that describe the entry after them. -/
def isMetadata : EntryType → Bool
  | xHeader | xGlobalHeader | gnuLongName | gnuLongLink => true
  | _ => false

def isRegular : EntryType → Bool
  | regular | continuous => true
  | _ => false

end EntryType

/-- One entry. A path is missing where it is not UTF-8; `reads` are the answers
of the reads of its content, up to the first empty one. -/
structure TarEntry where
  entryType : EntryType
  path : Except String (Option Str)
  linkName : Except String (Option (Option Str))
  size : Nat
  mode : Option Nat
  reads : List (Except String Bytes)

structure TarArchive where
  seekError : Option Errno
  entriesError : Option String
  entries : List (Except String TarEntry)

/-- The archive's handle in an error, which has no path of its own. -/
def archivePath : Path := ["<archive>".toList]

/-- Seek to the start and list the entries. -/
def TarArchive.rewind (archive : TarArchive) (label : String) :
    Except PkgError (List (Except String TarEntry)) :=
  match archive.seekError with
  | some e => .error (.io "seek" archivePath e)
  | none =>
      match archive.entriesError with
      | some e => .error (reject (label ++ e))
      | none => .ok archive.entries

/-! ### Pass 1: the plan -/

inductive PlannedKind where
  | dir
  | file (mode : Nat)
  | symlink (target : Str)
  | hardlink (target : Str)
  deriving DecidableEq, Repr

structure PlannedEntry where
  rel : Str
  kind : PlannedKind
  deriving DecidableEq, Repr

structure Staged where
  rel : Str
  kind : PlannedKind
  cls : EntryClass
  deriving DecidableEq, Repr

def classify : PlannedKind → EntryClass
  | .dir => .directory
  | .file _ | .symlink _ | .hardlink _ => .nonDirectory

/-- `replace('\\', "/")` -/
def slashed (s : Str) : Str := s.map fun c => if c = '\\' then '/' else c

/-- An entry's validated name; `notUtf8` is the pass's own wording. -/
def entryRel (notUtf8 : String) (entry : TarEntry) : Except PkgError Str :=
  match entry.path with
  | .error e => .error (reject ("bad path: " ++ e))
  | .ok none => .error (reject notUtf8)
  | .ok (some path) => validateEntryName (slashed path)

def linkTarget (entry : TarEntry) : Except PkgError Str :=
  match entry.linkName with
  | .error e => .error (reject ("bad link name: " ++ e))
  | .ok none => .error (reject "link entry without target")
  | .ok (some none) => .error (reject "link target not utf-8")
  | .ok (some (some target)) => .ok (slashed target)

/-- What an entry plans. A symlink's target is judged later, against the final
path of the link. -/
def plannedKind (entry : TarEntry) : Except PkgError PlannedKind :=
  match entry.entryType with
  | .regular | .continuous => .ok (.file (entry.mode.getD 0o644))
  | .directory => .ok .dir
  | .symlink => do
      let target ← linkTarget entry
      .ok (.symlink target)
  | .link => do
      let target ← linkTarget entry
      let target ← validateEntryName target
      .ok (.hardlink target)
  | _ => .error (reject "disallowed entry type (device/fifo/sparse)")

/-- The running declared total, which only regular entries add to. -/
def declare (total : Nat) (entry : TarEntry) : Nat :=
  if entry.entryType.isRegular then saturatingAdd total entry.size else total

/-- The loop of pass 1 over the headers: `count` entries seen and `total` bytes
declared so far. -/
def stageFrom (count total : Nat) : List (Except String TarEntry) → Except PkgError (List Staged)
  | [] => .ok []
  | .error e :: _ => .error (reject ("tar entry: " ++ e))
  | .ok entry :: rest => do
      rejectIf (count + 1 > maxEntries) "too many entries"
      if entry.entryType.isMetadata then stageFrom (count + 1) total rest
      else
        let rel ← entryRel "entry path not utf-8" entry
        rejectIf (entry.entryType.isRegular ∧ declare total entry > maxTotalBytes)
          "declared size exceeds cap"
        let kind ← plannedKind entry
        let staged ← stageFrom (count + 1) (declare total entry) rest
        .ok (⟨rel, kind, classify kind⟩ :: staged)

def Staged.raw (s : Staged) : RawEntry := ⟨s.rel, s.cls.isDir⟩

/-- What an entry with the final path `rel` plans: a hard link's target is
stripped as the names are, and left as it is where that has no answer. -/
def retarget (strip : StripInfo) (rel : Str) : PlannedKind → Except PkgError PlannedKind
  | .hardlink target =>
      if strip.stripped then .ok (.hardlink ((strippedRel target strip).getD target))
      else .ok (.hardlink target)
  | .symlink target => do
      validateSymlink rel target
      .ok (.symlink target)
  | kind => .ok kind

/-- The loop of pass 1 over the staged entries. -/
def planFrom (pf : Platform) (strip : StripInfo) (seen : SeenPaths) :
    List Staged → Except PkgError (List PlannedEntry)
  | [] => .ok []
  | s :: rest =>
      match strippedRel s.rel strip with
      | none => planFrom pf strip seen rest
      | some rel => do
          let (admission, seen) ← seen.admitRel pf rel s.cls
          match admission with
          | .repeatedDirHeader => planFrom pf strip seen rest
          | .fresh =>
              let kind ← retarget strip rel s.kind
              let plan ← planFrom pf strip seen rest
              .ok (⟨rel, kind⟩ :: plan)

/-- Pass 1: read all headers, validate, build the plan. -/
def planTargz (pf : Platform) (archive : TarArchive) :
    Except PkgError (List PlannedEntry × StripInfo) := do
  let entries ← archive.rewind "tar read: "
  let staged ← stageFrom 0 0 entries
  let (_, strip) := stripSingleRoot (staged.map Staged.raw)
  let plan ← planFrom pf strip .new staged
  .ok (plan, strip)

/-! ### Shared by the format walks -/

def clampMode (mode : Nat) : Nat := if mode &&& 0o111 ≠ 0 then 0o755 else 0o644

/-- Copy with a running total over the bytes that were really read. -/
def copyCapped (pf : Platform) (out : Path) (total : Nat) :
    List (Except String Bytes) → Io PkgError Nat
  | [] => pure total
  | .error e :: _ => Io.fail (reject ("read: " ++ e))
  | .ok chunk :: rest => do
      if chunk.isEmpty then pure total
      else if saturatingAdd total chunk.length > maxTotalBytes then
        Io.fail (reject "decompressed size exceeds cap")
      else
        Io.mapErr (fun e => reject ("write: " ++ pf.errorText e)) (Io.append out chunk)
        copyCapped pf out (saturatingAdd total chunk.length) rest

def setFileMode (p : Path) (mode : Nat) : Io PkgError Unit :=
  Io.mapErr (.io "chmod" p) (Io.chmod p mode)

def setDirMode (p : Path) : Io PkgError Unit := Io.mapErr (.io "chmod" p) (Io.chmod p 0o755)

/-- `create_dir_all` under its own name in an error. -/
def createDir (p : Path) : Io PkgError Unit := Io.mapErr (.io "create_dir" p) (Io.createDirAll p)

def ensureParent (p : Path) : Io PkgError Unit :=
  if p.isEmpty then pure () else createDir p.dropLast

/-- How deep a name is: the key directories are sorted by. -/
def depth (rel : Str) : Nat := (splitPath rel).length

/-- Names sorted shallow to deep, in their own order at one depth. -/
def byDepth (rels : List Str) : List Str := rels.insertionSort fun a b => depth a ≤ depth b

/-- Create the directories, shallow to deep. -/
def createDirs (dest : Path) (rels : List Str) : Io PkgError Unit :=
  (byDepth rels).forM fun rel => do
    createDir (join dest rel)
    setDirMode (join dest rel)

/-! ### Pass 2: writing -/

def PlannedEntry.dirRel (e : PlannedEntry) : Option Str :=
  match e.kind with
  | .dir => some e.rel
  | _ => none

/-- The clamped mode of a planned file, under its name. -/
def PlannedEntry.fileMode (e : PlannedEntry) : Option (Str × Nat) :=
  match e.kind with
  | .file mode => some (e.rel, clampMode mode)
  | _ => none

/-- The modes of the planned files: collected into a map, where the last of one
name wins. -/
def fileModes (plan : List PlannedEntry) : List (Str × Nat) :=
  (plan.filterMap PlannedEntry.fileMode).reverse

/-- Write one regular file that must not be there yet. -/
def writeFile (pf : Platform) (out : Path) (reads : List (Except String Bytes)) (mode written : Nat) :
    Io PkgError Nat := do
  ensureParent out
  Io.mapErr (.io "create_new" out) (Io.createNew out)
  let written ← copyCapped pf out written reads
  setFileMode out mode
  pure written

/-- Read the archive again and write each regular file the plan has. -/
def writeFiles (pf : Platform) (strip : StripInfo) (modes : List (Str × Nat)) (dest : Path)
    (written : Nat) : List (Except String TarEntry) → Io PkgError Nat
  | [] => pure written
  | .error e :: _ => Io.fail (reject ("tar entry: " ++ e))
  | .ok entry :: rest =>
      if !entry.entryType.isRegular then writeFiles pf strip modes dest written rest
      else do
        let cleaned ← Io.ofExcept (entryRel "path not utf-8" entry)
        match strippedRel cleaned strip with
        | none => writeFiles pf strip modes dest written rest
        | some rel =>
            match modes.lookup rel with
            | none => writeFiles pf strip modes dest written rest
            | some mode => do
                let written ← writeFile pf (join dest rel) entry.reads mode written
                writeFiles pf strip modes dest written rest

/-- One hard link, materialized as a copy of a file that is already extracted. -/
def copyHardlink (dest : Path) (rel target : Str) (written : Nat) : Io PkgError Nat := do
  let src := join dest target
  if ← Io.isFile src then
    let dst := join dest rel
    ensureParent dst
    let copied ← Io.mapErr (.io "hardlink copy" dst) (Io.copy src dst)
    if saturatingAdd written copied > maxTotalBytes then
      Io.fail (reject "decompressed size exceeds cap")
    else pure (saturatingAdd written copied)
  else Io.fail (reject ("hardlink target missing: " ++ String.ofList target))

/-- The hard links of a plan, in its order. -/
def copyHardlinks (dest : Path) (written : Nat) : List PlannedEntry → Io PkgError Nat
  | [] => pure written
  | ⟨rel, .hardlink target⟩ :: rest => do
      let written ← copyHardlink dest rel target written
      copyHardlinks dest written rest
  | _ :: rest => copyHardlinks dest written rest

/-- A path as an error shows it. -/
def displayPath (p : Path) : String := String.ofList ('/' :: ['/'].intercalate p)

/-- One ancestor: not there yet, or anything but a symlink. -/
def verifyAncestor (ancestor : Path) : Io PkgError Unit := do
  match ← Io.attempt (Io.lstat ancestor) with
  | .ok (.symlink _) =>
      Io.fail (reject ("symlink ancestor in path: " ++ displayPath ancestor))
  | .ok _ => pure ()
  | .error e => if e = .notFound then pure () else Io.fail (.io "stat" ancestor e)

/-- The ancestors of a path from the deepest up to `dest`, last component first. -/
def verifyAncestorsUp (dest : Path) : List Name → Io PkgError Unit
  | [] => if [] = dest then pure () else verifyAncestor []
  | n :: above =>
      if (n :: above).reverse = dest then pure ()
      else do
        verifyAncestor (n :: above).reverse
        verifyAncestorsUp dest above

/-- No directory between `dest` and `path` is a symlink. -/
def verifyRealAncestors (dest path : Path) : Io PkgError Unit :=
  if path.isEmpty then pure () else verifyAncestorsUp dest path.dropLast.reverse

def createSymlink (target : Str) (link : Path) : Io PkgError Unit :=
  Io.mapErr (.io "symlink" link) (Io.symlink target link)

/-- One planned entry's symlink, if it is one. -/
def linkEntry (dest : Path) (e : PlannedEntry) : Io PkgError Unit :=
  match e.kind with
  | .symlink target => do
      verifyRealAncestors dest (join dest e.rel)
      ensureParent (join dest e.rel)
      createSymlink target (join dest e.rel)
  | _ => pure ()

/-- Symlinks, after the tree exists. -/
def createSymlinks (dest : Path) (plan : List PlannedEntry) : Io PkgError Unit :=
  plan.forM (linkEntry dest)

/-- Pass 2: directories, regular files, hard links, symlinks, in that order. -/
def materialize (pf : Platform) (archive : TarArchive) (plan : List PlannedEntry)
    (strip : StripInfo) (dest : Path) : Io PkgError Unit := do
  createDirs dest (plan.filterMap PlannedEntry.dirRel)
  let entries ← Io.ofExcept (archive.rewind "tar reread: ")
  let written ← writeFiles pf strip (fileModes plan) dest 0 entries
  let _ ← copyHardlinks dest written plan
  createSymlinks dest plan

def extractTargz (pf : Platform) (archive : TarArchive) (dest : Path) : Io PkgError Unit := do
  let (plan, strip) ← Io.ofExcept (planTargz pf archive)
  materialize pf archive plan strip dest

end OpenVHost.Pkg
