/-
# Installing the command line tool

The candidate directories, what sits at `openvhost` in one of them, and `place`, which links the
tool into the first that can be written to. A `Machine` is what the process may do, for as long
as it runs; a failure of a single step is a fault of the disk.

* `classify` — what is at a place: nothing, a link of ours, or something foreign.
* `StagingLink` — the link under a temporary name, its rename and its drop.
* `place` — the walk along the candidates. Beside its result it reports the staging link that
  could not be removed, which the code ignores.
-/

import OpenVHost.Conf.Render
import OpenVHost.Site.Plan
import OpenVHost.FileTree.Succeeds

namespace OpenVHost.Clitool

open FileTree FileTree.Io

/-! ### Directories and permissions -/

def cliBinaryName : Name := "openvhost".toList

/-- A directory the tool may be installed into. -/
structure Candidate where
  dir : Path
  createIfAbsent : Bool
  deriving DecidableEq, Repr

def systemLocalBin : Path := ["usr".toList, "local".toList, "bin".toList]

def candidatesFrom (home : Option Path) : List Candidate :=
  ⟨systemLocalBin, false⟩ ::
    (home.map fun home => ⟨home ++ [".local".toList, "bin".toList], true⟩).toList

/-- The binary a link is to lead to, by the text that becomes the link's target. -/
structure Source where
  text : List Char
  absolute : isAbsolute text = true

def Source.path (source : Source) : Path := splitPath source.text

/-- What a node that is neither a directory nor a link is. -/
inductive Special where
  | file
  | fifo
  | socket
  | charDevice
  | blockDevice
  | unrecognised
  deriving DecidableEq, Repr

/-- What the process is allowed and what the file system reports beyond the tree. A denial is
the code of its error. -/
structure Machine where
  /-- Looking a path up, its last component not followed. -/
  search : Path → Option Nat
  /-- Following a path to what it names. -/
  follow : Path → Option Nat
  /-- Adding an entry to the directory a path leads to. -/
  write : Path → Option Nat
  /-- Device and inode of what is at a location. -/
  inode : Path → Nat × Nat
  kind : Path → Special

/-- An operation that is not even tried where it is denied. -/
def permitted {α : Type} (denied : Option Nat) (x : Io Errno α) : Io Errno α :=
  match denied with
  | some code => fail (.other code)
  | none => x

/-- `EACCES`, `EPERM` and `EROFS`. -/
def isPermissionDenied : Errno → Bool
  | .other code => code == 13 || code == 1 || code == 30
  | _ => false

/-! ### Errors -/

/-- Where an error comes from: the system, or a staging link that is used twice. -/
inductive Cause where
  | os (e : Errno)
  | alreadyConsumed
  deriving DecidableEq, Repr

inductive CliToolError where
  | io (op : String) (path : Path) (cause : Cause)
  /-- The text of this error has the directories joined by commas. -/
  | noWritableDir (tried : List Path)
  deriving DecidableEq, Repr

/-! ### What sits at a place -/

inductive Occupant where
  | absent
  | oursCurrent
  | oursStale (target : List Char) (resolves : Bool)
  | foreign (what : List Char)
  deriving DecidableEq, Repr

/-- `Contents/MacOS` of something that ends in `.app`; components from below. -/
def inAppBundle : List Name → Bool
  | macOS :: contents :: bundle :: _ =>
      macOS == "MacOS".toList && contents == "Contents".toList && bundle != ['.', '.'] &&
        (Site.extension bundle).any fun ext => ext.map Char.toLower == "app".toList
  | _ => false

/-- `target/debug` or `target/release`; components from below. -/
def inCargoTarget : List Name → Bool
  | profile :: target :: _ =>
      (profile == "debug".toList || profile == "release".toList) && target == "target".toList
  | _ => false

/-- Whether this application could have written a link with this target. -/
def looksLikeOurs (target : List Char) : Bool :=
  match (Conf.components target).reverse with
  | name :: dir => name == cliBinaryName && (inAppBundle dir || inCargoTarget dir)
  | [] => false

/-- The path that the text of a link at `link` stands for. -/
def linked (link : Path) (target : List Char) : Path :=
  if isAbsolute target then splitPath target else link.dropLast ++ splitPath target

theorem linked_source (link : Path) (source : Source) :
    linked link source.text = source.path := if_pos source.absolute

def describe (kind : Special) : Node → List Char
  | .dir _ => "a directory".toList
  | _ =>
      match kind with
      | .file => "a regular file".toList
      | .fifo => "a named pipe".toList
      | .socket => "a socket".toList
      | .charDevice => "a character device".toList
      | .blockDevice => "a block device".toList
      | .unrecognised => "an unrecognised filesystem node".toList

namespace Machine

variable (m : Machine)

/-- `fs::metadata`: the location that a path leads to. -/
def metadata (p : Path) : Io Errno Path := permitted (m.follow p) (query (·.resolve p))

/-- `fs::metadata` of a link with this target. A call may change the target, so that the way on
from the link is the one of its text. -/
def metadataOfLink (link : Path) (target : List Char) : Io Errno Path :=
  permitted ((m.search link).or (m.follow (linked link target))) (query (·.resolve link))

/-- `Path::is_dir`. -/
def isDir {ε : Type} (p : Path) : Io ε Bool := do
  match ← attempt (permitted (m.follow p) (stat p)) with
  | .ok x => pure x.isDir
  | .error _ => pure false

/-- `DirBuilder::create` with `recursive`. -/
def createDirAll (p : Path) : Io Errno Unit := permitted (m.follow p) (Io.createDirAll p)

/-- Whether a link and the binary are one file. -/
def sameFile {ε : Type} (link : Path) (target : List Char) (source : Source) : Io ε Bool := do
  let a ← attempt (m.metadataOfLink link target)
  let b ← attempt (m.metadata source.path)
  match a, b with
  | .ok a, .ok b => pure (m.inode a == m.inode b)
  | _, _ => pure false

end Machine

/-- What sits at `link`, against the binary that would be installed. -/
def classify (m : Machine) (link : Path) (source : Option Source) : Io CliToolError Occupant := do
  match ← attempt (permitted (m.search link) (query fun t => (t.locate link).bind fun q =>
      (t.lstat link).map fun x => (q, x))) with
  | .error .notFound => pure .absent
  | .error e => fail (.io "inspect" link (.os e))
  | .ok (q, .dir mode) => pure (.foreign (describe (m.kind q) (.dir mode)))
  | .ok (q, .file content mode) => pure (.foreign (describe (m.kind q) (.file content mode)))
  | .ok (_, .symlink _) => do
      let target ← mapErr (fun e => .io "read the symlink at" link (.os e))
        (permitted (m.search link) (readLink link))
      let current ← match source with
        | some source => m.sameFile link target source
        | none => pure false
      if current then pure .oursCurrent
      else if looksLikeOurs target then do
        match ← attempt (m.metadataOfLink link target) with
        | .ok _ => pure (.oursStale target true)
        | .error _ => pure (.oursStale target false)
      else pure (.foreign ("a symlink to ".toList ++ target))

/-! ### The staging link -/

/-- A link under a temporary name, until it is renamed. -/
abbrev StagingLink := Option Path

namespace StagingLink

/-- The temporary name; `uuid` is the simple form of a new one. -/
def name (uuid : List Char) : Name := ".openvhost-install-".toList ++ uuid ++ ".tmp".toList

def create (m : Machine) (uuid : List Char) (dir : Path) (source : Source) : Io Errno StagingLink :=
  do
    permitted (m.write dir) (symlink source.text (dir ++ [name uuid]))
    pure (some (dir ++ [name uuid]))

/-- Remove the link unless it was renamed; what could not be removed is left. -/
def drop : StagingLink → Io Empty (Option Path)
  | none => pure none
  | some path => do
      match ← attempt (removeFile path) with
      | .ok () => pure none
      | .error _ => pure (some path)

/-- Move the link onto `dest`. A rename that fails removes the link itself. -/
def renameOver (staged : StagingLink) (dest : Path) :
    Io Empty (Except CliToolError Unit × Option Path) :=
  match staged with
  | none => pure (.error (.io "install" dest .alreadyConsumed), none)
  | some path => do
      match ← attempt (rename path dest) with
      | .ok () => pure (.ok (), none)
      | .error e => do
          let left ← drop (some path)
          pure (.error (.io "install" dest (.os e)), left)

end StagingLink

/-! ### Placing the link -/

inductive Placed where
  | created (dir : Path)
  | unchanged (dir : Path)
  | repointed (dir : Path)
  | refused (dir : Path) (what : List Char)
  deriving DecidableEq, Repr

/-- The result of a call and the staging link that it could not remove. -/
structure Report where
  result : Except CliToolError Placed
  left : Option Path
  deriving DecidableEq

/-- Where a result says the tool is installed. -/
def Report.installedIn (report : Report) : Option Path :=
  match report.result with
  | .ok (.created dir) | .ok (.unchanged dir) | .ok (.repointed dir) => some dir
  | _ => none

/-- Whether a candidate is a directory now, created where it may be. -/
def prepare (m : Machine) (candidate : Candidate) : Io Empty Bool := do
  if ← m.isDir candidate.dir then pure true
  else if candidate.createIfAbsent then
    match ← attempt (m.createDirAll candidate.dir) with
    | .ok () => pure true
    | .error _ => pure false
  else pure false

/-- The rename that ends an installation, and what it is reported as. -/
def finish (staged : StagingLink) (link : Path) (placed : Placed) : Io Empty Report := do
  let (renamed, left) ← staged.renameOver link
  match renamed with
  | .ok () => pure ⟨.ok placed, left⟩
  | .error e => pure ⟨.error e, left⟩

/-- What is done in a directory that the staging link could be created in. -/
def install (m : Machine) (dir : Path) (source : Source) (staged : StagingLink) :
    Io Empty Report := do
  let link := dir ++ [cliBinaryName]
  match ← attempt (classify m link (some source)) with
  | .error e => do
      let left ← staged.drop
      pure ⟨.error e, left⟩
  | .ok .oursCurrent => do
      let left ← staged.drop
      pure ⟨.ok (.unchanged dir), left⟩
  | .ok (.foreign what) => do
      let left ← staged.drop
      pure ⟨.ok (.refused dir what), left⟩
  | .ok .absent => finish staged link (.created dir)
  | .ok (.oursStale ..) => finish staged link (.repointed dir)

/-- Walk the candidates in order and act on the first that can be written to. -/
def placeFrom (m : Machine) (uuid : List Char) (source : Source) (tried : List Path) :
    List Candidate → Io Empty Report
  | [] => pure ⟨.error (.noWritableDir tried), none⟩
  | candidate :: rest => do
      let tried := tried ++ [candidate.dir]
      if ← prepare m candidate then
        match ← attempt (StagingLink.create m uuid candidate.dir source) with
        | .ok staged => install m candidate.dir source staged
        | .error e =>
            if isPermissionDenied e then placeFrom m uuid source tried rest
            else pure ⟨.error (.io "create a staging symlink in" candidate.dir (.os e)), none⟩
      else placeFrom m uuid source tried rest

def place (m : Machine) (uuid : List Char) (candidates : List Candidate) (source : Source) :
    Io Empty Report :=
  placeFrom m uuid source [] candidates

end OpenVHost.Clitool
