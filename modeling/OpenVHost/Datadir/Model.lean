/-
# Database directories

Where an engine keeps its databases, what a directory of databases is read to be, and the
directories that an initialization stages. A staging directory sits beside the final one
and its name has a shape of its own; only what has that shape is removed, and a staged
directory that reads as initialized is renamed onto the final one.

A message is a constructor with what it quotes. The order in which a directory is listed
and what an interrupted removal leaves are up to the operating system.
-/

import OpenVHost.Conf.SettingsParse
import OpenVHost.FileTree.Removal
import OpenVHost.Runtime.Discover

namespace OpenVHost.Datadir

open FileTree
open OpenVHost.Runtime (digits)
open OpenVHost.Runtime.Mysql (MysqlMajor)

/-! ### Paths -/

/-- `MysqlPaths` and `MariadbPaths`, which have the same fields. -/
structure EnginePaths where
  datadir : Path
  myCnf : Path
  socket : Path
  initSocket : Path
  pidFile : Path
  customConfd : Path
  /-- The directory above the final one and above every staging directory. -/
  stagingParent : Path
  deriving DecidableEq, Repr

def enginePaths (home : Path) (engine major : Name) : EnginePaths :=
  let dataRoot := home ++ ["data".toList, engine]
  let runRoot := home ++ ["run".toList]
  let tag := engine ++ '-' :: major
  { datadir := dataRoot ++ [major]
    myCnf := home ++ ["config".toList, "generated".toList, engine, major, "my.cnf".toList]
    socket := runRoot ++ [tag ++ ".sock".toList]
    initSocket := runRoot ++ [tag ++ "-init.sock".toList]
    pidFile := runRoot ++ [tag ++ ".pid".toList]
    customConfd := home ++ ["config".toList, "custom".toList, engine, major, "conf.d".toList]
    stagingParent := dataRoot }

def mysqlPaths (home : Path) (major : MysqlMajor) : EnginePaths :=
  enginePaths home "mysql".toList major.asStr

def mariadbSeries : Name := "11.4".toList

def mariadbPaths (home : Path) : EnginePaths :=
  enginePaths home "mariadb".toList mariadbSeries

/-! ### Staging names -/

/-- `str::splitn`: at most `n` parts. -/
def splitn (sep : Char) : Nat → List Char → List (List Char)
  | 0, _ => []
  | 1, s => [s]
  | n + 2, s =>
      match s.span (· != sep) with
      | (part, []) => [part]
      | (part, _ :: rest) => part :: splitn sep (n + 1) rest

def isStaleStagingName (name : Name) : Bool :=
  match "init-".toList.isPrefixOf? name with
  | none => false
  | some rest =>
      match splitn '-' 3 rest with
      | [p₁, p₂, suffix] =>
          !suffix.isEmpty && (MysqlMajor.fromProbe (p₁ ++ '.' :: p₂)).isSome
      | _ => false

/-- A random identifier, in hexadecimal. -/
structure UuidHex where
  chars : List Char
  length : chars.length = 32
  deriving DecidableEq, Repr

def stagingName (major : Name) (suffix : UuidHex) : Name :=
  "init-".toList ++ major.map (fun c => if c = '.' then '-' else c) ++ '-' :: suffix.chars

def stagingDirPath (stagingParent : Path) (major : MysqlMajor) (suffix : UuidHex) : Path :=
  stagingParent ++ [stagingName major.asStr suffix]

def mariadbStagingDirPath (stagingParent : Path) (suffix : UuidHex) : Path :=
  stagingParent ++ [stagingName mariadbSeries suffix]

/-! ### Reading a directory -/

/-- A program that returns, run on a disk. -/
def settle {α : Type} (x : Io Empty α) (d : Disk) : α × Disk :=
  match x d with
  | .ok a d' => (a, d')
  | .error e _ => e.elim

/-- What is up to the operating system. -/
structure Os extends Interruption where
  /-- What is no directory is removed in one operation. -/
  whole : ∀ fault q t, t.isDir q = false → left fault q t = t
  /-- The order in which the entries of a directory come. -/
  order : List Name → List Name
  perm : ∀ names, (order names).Perm names

def readEntries (os : Os) (dir : Path) : Io Errno (List Name) := do
  let names ← Io.readDir dir
  pure (os.order names)

def dsStore : Name := ".DS_Store".toList
def sentinelDir : Name := "mysql".toList
def mysqlSentinelFile : Name := "auto.cnf".toList
def mariadbSentinelFile : Name := "mariadb_upgrade_info".toList

/-- What a classification has seen. -/
structure Seen where
  names : List Name
  hasSentinelDir : Bool
  hasSentinelFile : Bool
  deriving DecidableEq, Repr

def scanEntries (sentinelFile : Name) (dir : Path) : List Name → Io Errno Seen
  | [] => pure ⟨[], false, false⟩
  | name :: rest =>
      if name = dsStore then scanEntries sentinelFile dir rest
      else do
        let x ← Io.lstat (dir ++ [name])
        let seen ← scanEntries sentinelFile dir rest
        pure {
          names := name :: seen.names
          hasSentinelDir := seen.hasSentinelDir || (name == sentinelDir && x.isDir)
          hasSentinelFile := seen.hasSentinelFile || (name == sentinelFile && x.isFile) }

/-- The entries of a directory; a missing one has none to see. -/
def scanDir (os : Os) (sentinelFile : Name) (dir : Path) : Io Errno Seen := do
  match ← Io.attempt (readEntries os dir) with
  | .ok names => scanEntries sentinelFile dir names
  | .error .notFound => pure ⟨[], false, false⟩
  | .error e => Io.fail e

/-! ### Classification -/

inductive DatadirState where
  | notInitialized
  | initialized
  | foreign (dir : Path) (found : List Name)
  deriving DecidableEq, Repr

def classifyDatadir (os : Os) (dir : Path) : Io Errno DatadirState := do
  let seen ← scanDir os mysqlSentinelFile dir
  if seen.names.isEmpty then pure .notInitialized
  else if seen.hasSentinelDir && seen.hasSentinelFile then pure .initialized
  else pure (.foreign dir (seen.names.insertionSort (· ≤ ·)))

/-- Why no version was read from the sentinel file. -/
inductive Unparsable where
  | notUtf8
  | empty
  | starts (shown : List Char)
  deriving DecidableEq, Repr

inductive MariadbDatadirState where
  | notInitialized
  | initialized (version : List Char)
  | missingSentinels (dir : Path) (found : List Name)
  | unreadableVersion (dir : Path) (why : Unparsable)
  | otherSeries (dir : Path) (release series : List Char)
  deriving DecidableEq, Repr

/-- `str::trim` -/
def trim (s : List Char) : List Char := Text.trim Conf.isWhitespace s

/-- The first line, trimmed: a carriage return at its end goes with the blanks. -/
def firstLine (content : List Char) : List Char := trim (content.takeWhile (· != '\n'))

structure RecordedVersion where
  release : List Char
  series : List Char
  deriving DecidableEq, Repr

def parseVersion (content : List Char) : Option RecordedVersion :=
  let release := trim ((firstLine content).takeWhile (· != '-'))
  match release.splitOn '.' with
  | major :: minor :: rest =>
      if digits major && digits minor && rest.all digits then some ⟨release, major ++ '.' :: minor⟩
      else none
  | _ => none

def describeUnparsable : Option (List Char) → Unparsable
  | none => .notUtf8
  | some text => if (firstLine text).isEmpty then .empty else .starts ((firstLine text).take 32)

def maxSentinelFileBytes : Nat := 4096

def readRecordedVersion (path : Path) : Io Errno (Option (List Char)) := do
  let bytes ← Io.readFile path
  pure (Text.decodeUtf8 (bytes.take maxSentinelFileBytes))

def mariadbVerdict (dir : Path) (recorded : Option (List Char)) : MariadbDatadirState :=
  match recorded.bind parseVersion with
  | none => .unreadableVersion dir (describeUnparsable recorded)
  | some version =>
      if version.series != mariadbSeries then .otherSeries dir version.release version.series
      else .initialized version.release

def classifyMariadbDatadir (os : Os) (dir : Path) : Io Errno MariadbDatadirState := do
  let seen ← scanDir os mariadbSentinelFile dir
  if seen.names.isEmpty then pure .notInitialized
  else if !(seen.hasSentinelDir && seen.hasSentinelFile) then
    pure (.missingSentinels dir (seen.names.insertionSort (· ≤ ·)))
  else do
    let recorded ← readRecordedVersion (dir ++ [mariadbSentinelFile])
    pure (mariadbVerdict dir recorded)

/-! ### Removing what was staged -/

def sweepEntries (os : Os) (parent : Path) : List Name → Io Errno (List Path)
  | [] => pure []
  | name :: rest =>
      if !isStaleStagingName name then sweepEntries os parent rest
      else do
        let x ← Io.lstat (parent ++ [name])
        -- never a symlink, never a file of that name
        if !x.isDir then sweepEntries os parent rest
        else do
          Io.removeTree os.toInterruption (parent ++ [name])
          let removed ← sweepEntries os parent rest
          pure ((parent ++ [name]) :: removed)

def sweepStaleStaging (os : Os) (parent : Path) : Io Errno (List Path) := do
  match ← Io.attempt (readEntries os parent) with
  | .error .notFound => pure []
  | .error e => Io.fail e
  | .ok names => do
      let removed ← sweepEntries os parent names
      pure (removed.insertionSort (· ≤ ·))

def removeStagingDir (os : Os) (staging : Path) : Io Errno Unit :=
  if !staging.getLast?.any isStaleStagingName then Io.fail .invalidInput
  else do
    match ← Io.attempt (Io.removeTree os.toInterruption staging) with
    | .ok () => pure ()
    | .error .notFound => pure ()
    | .error e => Io.fail e

/-! ### Moving a staged directory into place -/

/-- What stands in the way of a final directory. -/
inductive ClutterError where
  | io (path : Path) (e : Errno)
  | symlink (path : Path)
  | notFolder (path : Path)
  | holds (path : Path) (name : Name)
  deriving DecidableEq, Repr

/-- Delete the listed entries, in order. -/
def removeEach : List Path → Io ClutterError Unit
  | [] => pure ()
  | path :: rest => do
      Io.mapErr (ClutterError.io path) (Io.removeFile path)
      removeEach rest

def clearListed (os : Os) (finalDir : Path) : Io ClutterError Unit := do
  let names ← Io.mapErr (ClutterError.io finalDir) (readEntries os finalDir)
  match names.find? (· != dsStore) with
  | some name => Io.fail (.holds finalDir name)
  | none => removeEach (names.map fun name => finalDir ++ [name])

def clearIgnorableClutter (os : Os) (finalDir : Path) : Io ClutterError Unit := do
  match ← Io.attempt (Io.lstat finalDir) with
  | .error .notFound => pure ()
  | .error e => Io.fail (.io finalDir e)
  | .ok x =>
      if x.isSymlink then Io.fail (.symlink finalDir)
      else if !x.isDir then Io.fail (.notFolder finalDir)
      else clearListed os finalDir

/-- Why a finalization failed; `σ` is what the engine's classification reports. -/
inductive FinalizeReason (σ : Type) where
  | notInitialized (staging : Path) (state : σ)
  | notInspected (staging : Path) (e : Errno)
  | inTheWay (e : ClutterError)
  | notMoved (staging finalDir : Path) (e : Errno)
  deriving DecidableEq, Repr

/-- `finalize_staging` and `finalize_mariadb_staging`, but for the classification. -/
def finalize {σ : Type} (os : Os) (classify : Path → Io Errno σ) (isReady : σ → Bool)
    (staging finalDir : Path) : Io (FinalizeReason σ) Unit := do
  let state ← Io.mapErr (FinalizeReason.notInspected staging) (classify staging)
  if !isReady state then Io.fail (.notInitialized staging state)
  else do
    Io.mapErr FinalizeReason.inTheWay (clearIgnorableClutter os finalDir)
    Io.mapErr (FinalizeReason.notMoved staging finalDir) (Io.rename staging finalDir)

inductive MysqlInitStep where
  | render | validate | initializeDatadir | startTempServer | setPassword | shutdown | finalize
  deriving DecidableEq, Repr

/-- `ρ` is what a failure says. -/
inductive MysqlInitOutcome (ρ : Type) where
  | initialized
  | alreadyInitialized
  | foreign (dir : Path) (found : List Name)
  | failed (step : MysqlInitStep) (reason : ρ)
  deriving DecidableEq, Repr

inductive MariadbInitStep where
  | render | initializeDatadir | startTempServer | setPassword | shutdown | finalize
  deriving DecidableEq, Repr

inductive MariadbInitOutcome (ρ : Type) where
  | initialized
  | alreadyInitialized
  | foreign (state : MariadbDatadirState)
  | failed (step : MariadbInitStep) (reason : ρ)
  deriving DecidableEq, Repr

def DatadirState.isInitialized : DatadirState → Bool
  | initialized => true
  | notInitialized | foreign _ _ => false

def MariadbDatadirState.isInitialized : MariadbDatadirState → Bool
  | initialized _ => true
  | notInitialized | missingSentinels _ _ | unreadableVersion _ _ | otherSeries _ _ _ => false

def finalizeStaging {ε : Type} (os : Os) (staging finalDir : Path) :
    Io ε (MysqlInitOutcome (FinalizeReason DatadirState)) := do
  match ← Io.attempt
      (finalize os (classifyDatadir os) DatadirState.isInitialized staging finalDir) with
  | .ok () => pure .initialized
  | .error reason => pure (.failed .finalize reason)

def finalizeMariadbStaging {ε : Type} (os : Os) (staging finalDir : Path) :
    Io ε (MariadbInitOutcome (FinalizeReason MariadbDatadirState)) := do
  match ← Io.attempt
      (finalize os (classifyMariadbDatadir os) MariadbDatadirState.isInitialized staging
        finalDir) with
  | .ok () => pure .initialized
  | .error reason => pure (.failed .finalize reason)

end OpenVHost.Datadir
