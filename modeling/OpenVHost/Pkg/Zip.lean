/-
# Hardened zip extraction

One walk over the central directory, then the writes. Every entry is validated
from its metadata alone, and any violation rejects the archive before anything
is written; each final path is computed once and carried to its write. An
archive is what the zip reader hands out, with the reader's own errors in it.
-/

import OpenVHost.Pkg.Targz

namespace OpenVHost.Pkg

open FileTree

/-! ### What the zip reader hands out -/

/-- One entry of the central directory. The name is missing where its bytes are
not UTF-8; the two errors are those of `by_index_raw` and of `by_index`. -/
structure ZipEntry where
  rawError : Option String
  encrypted : Bool
  name : Option Str
  unixMode : Option Nat
  size : Nat
  openError : Option String
  reads : List (Except String Bytes)

structure ZipArchive where
  seekError : Option Errno
  openError : Option String
  entries : List ZipEntry

/-- Seek to the start and parse the central directory. -/
def ZipArchive.openEntries (archive : ZipArchive) : Except PkgError (List ZipEntry) :=
  match archive.seekError with
  | some e => .error (.io "seek" archivePath e)
  | none =>
      match archive.openError with
      | some e => .error (reject ("zip open: " ++ e))
      | none => .ok archive.entries

namespace Zip

/-! ### Pass 1: metadata only -/

structure Staged where
  rel : Str
  isDir : Bool
  file : Option (Nat × Nat)
  deriving DecidableEq, Repr

/-- A file ready to be written: its index, its final path and its mode. -/
structure PlannedFile where
  index : Nat
  rel : Str
  mode : Nat
  deriving DecidableEq, Repr

/-- `S_IFLNK`, as the upper half of the external attributes has it. -/
def sIflnk : Nat := 0o120000

/-- `ends_with('/')` -/
def endsWithSlash (name : Str) : Bool := name.getLast? == some '/'

/-- Validate one entry. A name is a directory's by its last character, before
any backslash in it is replaced. -/
def stageEntry (i : Nat) (entry : ZipEntry) : Except PkgError Staged :=
  match entry.rawError with
  | some e => .error (reject ("zip entry " ++ toString i ++ ": " ++ e))
  | none => do
      rejectIf (entry.encrypted = true) "encrypted zip entry"
      match entry.name with
      | none => .error (reject "zip entry name not utf-8")
      | some name =>
          let isDir := endsWithSlash name
          let mode := entry.unixMode.getD (if isDir then 0o755 else 0o644)
          rejectIf (isDir = false ∧ mode &&& sIflnk = sIflnk)
            "symlink entries are not supported in zip archives"
          let rel ← validateEntryName (slashed name)
          .ok ⟨rel, isDir, if isDir then none else some (i, mode)⟩

/-- The loop of pass 1, from entry `i` on with `total` bytes declared. -/
def stageFrom (i total : Nat) : List ZipEntry → Except PkgError (List Staged × Nat)
  | [] => .ok ([], total)
  | entry :: rest => do
      let s ← stageEntry i entry
      let (staged, total) ← stageFrom (i + 1)
        (if s.isDir then total else saturatingAdd total entry.size) rest
      .ok (s :: staged, total)

def Staged.raw (s : Staged) : RawEntry := ⟨s.rel, s.isDir⟩

/-- The loop over the staged entries. Directories and files share one namespace,
and no key may come twice. -/
def planFrom (pf : Platform) (strip : StripInfo) (seen : List Str) :
    List Staged → Except PkgError (List Str × List PlannedFile)
  | [] => .ok ([], [])
  | s :: rest =>
      match strippedRel s.rel strip with
      | none => planFrom pf strip seen rest
      | some rel => do
          rejectIf (seen.contains (collisionKey pf rel) = true)
            ("path collision: " ++ String.ofList rel)
          let (dirs, files) ← planFrom pf strip (collisionKey pf rel :: seen) rest
          match s.file with
          | none => .ok (rel :: dirs, files)
          | some (index, mode) => .ok (dirs, ⟨index, rel, mode⟩ :: files)

end Zip

/-- Everything `extractZip` does before its first write. -/
def planZip (pf : Platform) (archive : ZipArchive) :
    Except PkgError (List Str × List Zip.PlannedFile) := do
  let entries ← archive.openEntries
  rejectIf (entries.length > maxEntries) "too many entries"
  let (staged, total) ← Zip.stageFrom 0 0 entries
  rejectIf (total > maxTotalBytes) "declared size exceeds cap"
  let (_, strip) := stripSingleRoot (staged.map Zip.Staged.raw)
  Zip.planFrom pf strip [] staged

/-! ### Pass 2: writing -/

namespace Zip

/-- `by_index`: an entry, opened for reading. -/
def byIndex (archive : ZipArchive) (index : Nat) : Except PkgError ZipEntry :=
  match archive.entries[index]? with
  | none => .error (reject "zip reopen: specified file not found in archive")
  | some entry =>
      match entry.openError with
      | some e => .error (reject ("zip reopen: " ++ e))
      | none => .ok entry

/-- Write one planned file, which must not be there yet. -/
def writeFile (pf : Platform) (archive : ZipArchive) (dest : Path) (f : PlannedFile)
    (written : Nat) : Io PkgError Nat := do
  let out := join dest f.rel
  ensureParent out
  let entry ← Io.ofExcept (byIndex archive f.index)
  Io.mapErr (.io "create_new" out) (Io.createNew out)
  let written ← copyCapped pf out written entry.reads
  setFileMode out (clampMode f.mode)
  pure written

/-- The files of the plan, in order, under one running total. -/
def writeFiles (pf : Platform) (archive : ZipArchive) (dest : Path) (written : Nat) :
    List PlannedFile → Io PkgError Nat
  | [] => pure written
  | f :: rest => do
      let written ← writeFile pf archive dest f written
      writeFiles pf archive dest written rest

end Zip

def extractZip (pf : Platform) (archive : ZipArchive) (dest : Path) : Io PkgError Unit := do
  let (dirs, files) ← Io.ofExcept (planZip pf archive)
  createDirs dest dirs
  let _ ← Zip.writeFiles pf archive dest 0 files
  pure ()

end OpenVHost.Pkg
