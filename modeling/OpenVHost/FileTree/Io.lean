/-
# Programs over a file tree

The file operations of a program, over a `Disk`: the tree, the faults still to
come, and the record of what was written into files. Each operation takes the
next fault, if there is one, and then fails without looking at the tree; a
faulted write may leave a prefix of its bytes behind. A fault's error is never
one of the kinds a program tells apart.

The operations on trees come first and the programs that call them after;
`createDirAll` is the one program the library itself builds from them.
-/

import OpenVHost.FileTree.Walk

namespace FileTree

/-! ### Operations on the tree -/

namespace Tree

def lstat (t : Tree) (p : Path) : Except Errno Node :=
  match t.locate p with
  | .error e => .error e
  | .ok q =>
      match t.node q with
      | none => .error .notFound
      | some x => .ok x

def stat (t : Tree) (p : Path) : Except Errno Node :=
  match t.resolve p with
  | .error e => .error e
  | .ok q =>
      match t.node q with
      | none => .error .notFound
      | some x => .ok x

def readLink (t : Tree) (p : Path) : Except Errno (List Char) :=
  match t.lstat p with
  | .error e => .error e
  | .ok (.symlink target) => .ok target
  | .ok _ => .error .invalidInput

def readFile (t : Tree) (p : Path) : Except Errno Bytes :=
  match t.stat p with
  | .error e => .error e
  | .ok (.file content _) => .ok content
  | .ok _ => .error .isADirectory

/-- Add a node where there is none. -/
def addNew (t : Tree) (p : Path) (x : Node) : Except Errno Tree :=
  match t.locate p with
  | .error e => .error e
  | .ok q => if t.has q then .error .alreadyExists else .ok (t.put q x)

def mkdir (t : Tree) (p : Path) : Except Errno Tree := t.addNew p (.dir none)

/-- Open for writing with `create_new`: the file must not be there. -/
def createNew (t : Tree) (p : Path) : Except Errno Tree := t.addNew p (.file [] none)

def symlink (t : Tree) (target : List Char) (p : Path) : Except Errno Tree :=
  if target.isEmpty then .error .notFound else t.addNew p (.symlink target)

/-- Write at the end of the file at `p`. -/
def append (t : Tree) (p : Path) (bytes : Bytes) : Except Errno Tree :=
  match t.resolve p with
  | .error e => .error e
  | .ok q =>
      match t.node q with
      | some (.file content mode) => .ok (t.put q (.file (content ++ bytes) mode))
      | _ => .error .isADirectory

def setMode (mode : Nat) : Node → Node
  | .dir _ => .dir (some mode)
  | .file content _ => .file content (some mode)
  | .symlink target => .symlink target

def chmod (t : Tree) (p : Path) (mode : Nat) : Except Errno Tree :=
  match t.resolve p with
  | .error e => .error e
  | .ok q =>
      match t.node q with
      | none => .error .notFound
      | some x => .ok (t.put q (setMode mode x))

/-- Copy a file's bytes and mode onto `dst`, links followed on both sides; the
first `limit` bytes only, where there is one. Copying a file onto itself
truncates it before it is read. -/
def copy (t : Tree) (src dst : Path) (limit : Option Nat) : Except Errno (Nat × Tree) :=
  match t.resolve src with
  | .error e => .error e
  | .ok s =>
      match t.node s with
      | some (.file content mode) =>
          match t.resolveNew dst with
          | .error e => .error e
          | .ok d =>
              if t.isDir d then .error .isADirectory
              else
                let copied := if s = d then [] else (limit.map content.take).getD content
                .ok (copied.length, t.put d (.file copied mode))
      | _ => .error .invalidInput

def rename (t : Tree) (src dst : Path) : Except Errno Tree :=
  match t.locate src with
  | .error e => .error e
  | .ok s =>
      match t.node s with
      | none => .error .notFound
      | some x =>
          match t.locate dst with
          | .error e => .error e
          | .ok d =>
              if s = d then .ok t
              else if s.isPrefixOf d then .error .invalidInput
              else if d.isPrefixOf s then .error .directoryNotEmpty
              else
                match t.node d with
                | none => .ok (t.move s d)
                | some (.dir _) =>
                    if !x.isDir then .error .isADirectory
                    else if t.childless d then .ok (t.move s d)
                    else .error .directoryNotEmpty
                | some _ => if x.isDir then .error .notADirectory else .ok (t.move s d)

def removeFile (t : Tree) (p : Path) : Except Errno Tree :=
  match t.locate p with
  | .error e => .error e
  | .ok q =>
      match t.node q with
      | none => .error .notFound
      | some (.dir _) => .error .isADirectory
      | some _ => .ok (t.erase q)

def removeDirAll (t : Tree) (p : Path) : Except Errno Tree :=
  match t.locate p with
  | .error e => .error e
  | .ok q =>
      match t.node q with
      | none => .error .notFound
      | some (.file ..) => .error .notADirectory
      | some _ => .ok (t.prune q)

end Tree

/-! ### Disks and programs -/

/-- A fault: the error the operation returns and how many bytes a write leaves. -/
structure Fault where
  code : Nat
  wrote : Nat
  deriving DecidableEq, Repr

/-- What was written into files, in order. -/
inductive Write where
  | create (p : Path)
  | append (p : Path) (bytes : Bytes)
  | copy (src dst : Path)
  deriving DecidableEq, Repr

structure Disk where
  tree : Tree
  /-- One for each operation to come, `none` where it goes through. -/
  faults : List (Option Fault)
  writes : List Write

/-- A program over a disk. -/
abbrev Io (ε : Type) := EStateM ε Disk

namespace Io

variable {ε ε' α β : Type}

def fail (e : ε) : Io ε α := fun d => .error e d

/-- The result of a program whose errors are kept as values. -/
def attempt (x : Io ε α) : Io ε' (Except ε α) := fun d =>
  match x d with
  | .ok a d' => .ok (.ok a) d'
  | .error e d' => .ok (.error e) d'

def mapErr (f : ε → ε') (x : Io ε α) : Io ε' α := fun d =>
  match x d with
  | .ok a d' => .ok a d'
  | .error e d' => .error (f e) d'

/-- Whether a program returns from a disk. -/
def returns (x : Io ε α) (d : Disk) : Bool :=
  match x d with
  | .ok _ _ => true
  | .error _ _ => false

/-- Lift a value that may be an error. -/
def ofExcept : Except ε α → Io ε α
  | .ok a => pure a
  | .error e => fail e

/-- One operation: it fails with the next fault, leaving what `partly` makes of
the tree, and goes through when there is none. -/
def call (writes : List Write) (partly : Fault → Tree → Tree)
    (f : Tree → Except Errno (α × Tree)) : Io Errno α := fun d =>
  match d.faults with
  | some fault :: later =>
      .error (.other fault.code) { d with tree := partly fault d.tree, faults := later }
  | faults =>
      match f d.tree with
      | .ok (a, t) => .ok a { tree := t, faults := faults.tail, writes := d.writes ++ writes }
      | .error e => .error e { d with faults := faults.tail }

/-- An operation that only looks. -/
def query (f : Tree → Except Errno α) : Io Errno α :=
  call [] (fun _ t => t) fun t => (f t).map fun a => (a, t)

/-- An operation that changes the tree, or fails and leaves it. -/
def update (writes : List Write) (f : Tree → Except Errno Tree) : Io Errno Unit :=
  call writes (fun _ t => t) fun t => (f t).map fun t' => ((), t')

def lstat (p : Path) : Io Errno Node := query (·.lstat p)
def stat (p : Path) : Io Errno Node := query (·.stat p)
def readLink (p : Path) : Io Errno (List Char) := query (·.readLink p)
def readFile (p : Path) : Io Errno Bytes := query (·.readFile p)
def mkdir (p : Path) : Io Errno Unit := update [] (·.mkdir p)
def createNew (p : Path) : Io Errno Unit := update [.create p] (·.createNew p)
def chmod (p : Path) (mode : Nat) : Io Errno Unit := update [] (·.chmod p mode)
def symlink (target : List Char) (p : Path) : Io Errno Unit := update [] (·.symlink target p)
def rename (src dst : Path) : Io Errno Unit := update [] (·.rename src dst)
def removeFile (p : Path) : Io Errno Unit := update [] (·.removeFile p)

/-- Write at the end of a file; a fault leaves a prefix of the bytes. -/
def append (p : Path) (bytes : Bytes) : Io Errno Unit :=
  call [.append p bytes]
    (fun fault t => ((t.append p (bytes.take fault.wrote)).toOption).getD t)
    fun t => (t.append p bytes).map fun t' => ((), t')

/-- Copy a file; a fault leaves a prefix of its bytes. -/
def copy (src dst : Path) : Io Errno Nat :=
  call [.copy src dst]
    (fun fault t => (((t.copy src dst (some fault.wrote)).toOption).map Prod.snd).getD t)
    fun t => t.copy src dst none

/-- Whether a path names a file; an error counts as no. -/
def isFile (p : Path) : Io ε Bool := do
  match ← attempt (stat p) with
  | .ok x => pure x.isFile
  | .error _ => pure false

/-- Whether a path names a directory; an error counts as no. -/
def isDir (p : Path) : Io ε Bool := do
  match ← attempt (stat p) with
  | .ok x => pure x.isDir
  | .error _ => pure false

/-- Whether a path names anything; an error counts as no. -/
def pathExists (p : Path) : Io ε Bool := do
  match ← attempt (stat p) with
  | .ok _ => pure true
  | .error _ => pure false

/-- An error that only says the directory is there already is no error. -/
def tolerate (p : Path) (e : Errno) : Io Errno Unit := do
  if e = .alreadyExists then
    if ← isDir p then pure () else fail e
  else fail e

/-- Create a directory and all above it that is missing. The path comes last
component first: what is missing is found from below and created from above. -/
def createDirAllUp : List Name → Io Errno Unit
  | [] => do
      match ← attempt (mkdir []) with
      | .ok () => pure ()
      | .error e => tolerate [] e
  | n :: above => do
      match ← attempt (mkdir (n :: above).reverse) with
      | .ok () => pure ()
      | .error e =>
          if e = .notFound then
            createDirAllUp above
            match ← attempt (mkdir (n :: above).reverse) with
            | .ok () => pure ()
            | .error e => tolerate (n :: above).reverse e
          else tolerate (n :: above).reverse e

def createDirAll (p : Path) : Io Errno Unit := createDirAllUp p.reverse

end Io

end FileTree
