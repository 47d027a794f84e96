/-
# Uninstalling a version

`performUninstall` checks what stands in the way and then runs the removals of the
target's inventory in order: `brew`, a recursive removal, the removal of a file, and the
service row. It runs over a `World`: a disk whose operations can fail, and the rows of the
supervisor. What `brew` does to the world is up to `brew`.

A message that quotes an operating system's error is a constructor with that error.
-/

import OpenVHost.FileTree.Removal
import OpenVHost.Runtime.Discover
import OpenVHost.Proc.Supervisor

namespace OpenVHost.Uninstall

open FileTree OpenVHost.Runtime
open Proc (ServiceId ServiceState ServiceStatus ProcError)

/-! ### Targets -/

def catalogue : List (List Char) :=
  ["8.1".toList, "8.2".toList, "8.3".toList, "8.4".toList, "8.5".toList]

def mysqlCatalogue : List (List Char) := ["8.4".toList]

/-- A PHP version that this build offers. -/
structure PhpMajor where
  asStr : List Char
  cataloged : asStr ∈ catalogue
  deriving DecidableEq, Repr

def mariadbPackageName : Name := "mariadb".toList
def mariadbSeries : Name := "11.4".toList

inductive Target where
  | php (major : PhpMajor)
  | mysql (major : Mysql.MysqlMajor)
  | mariadb
  deriving DecidableEq, Repr

/-- What the application's own tree holds for a PHP target. -/
structure PackagedPhp where
  versionDir : Path
  deriving DecidableEq, Repr

def brewFormula (major : PhpMajor) : List Char := "php@".toList ++ major.asStr
def mysqlBrewFormula (major : Mysql.MysqlMajor) : List Char := "mysql@".toList ++ major.asStr

namespace Target

def serviceId : Target → ServiceId
  | php major => "php-fpm-" ++ String.ofList major.asStr
  | mysql major => "mysql-" ++ String.ofList major.asStr
  | mariadb => "mariadb-" ++ String.ofList mariadbSeries

/-- The formula that this uninstall hands to `brew`. -/
def formula (target : Target) (packaged : Option PackagedPhp) : Option (List Char) :=
  match target with
  | php major => if packaged.isSome then none else some (brewFormula major)
  | mysql major => some (mysqlBrewFormula major)
  | mariadb => none

/-- Read from the disk before the run. -/
def packaged (target : Target) (t : Tree) (home : Path) : Option PackagedPhp :=
  match target with
  | php major =>
      (Php.packagedPhpInstall t (PackagesRoot.fromHome home) major.asStr).map
        fun install => ⟨install.dir⟩
  | mysql _ => none
  | mariadb => none

def packagedCurrentLink (target : Target) (home : Path) : Path :=
  let root := PackagesRoot.fromHome home
  match target with
  | php major => root.currentLink Php.packageName major.asStr
  | mysql major => root.currentLink Mysql.packageName major.asStr
  | mariadb => root.currentLink mariadbPackageName mariadbSeries

end Target

/-! ### The inventory -/

inductive Removal where
  | brewFormula (formula : List Char) (what : String)
  | generatedFile (path : Path) (what : String)
  | packageTree (path : Path) (what : String)
  | serviceRow (id : ServiceId)
  deriving DecidableEq, Repr

def generatedConfigRoot (home : Path) : Path := home ++ ["config".toList, "generated".toList]

def phpPoolConfigPath (home : Path) (major : Name) : Path :=
  generatedConfigRoot home ++ ["php".toList, major, "php-fpm.conf".toList]

/-- What an uninstall removes, in order. -/
def inventory (target : Target) (home : Path) (packaged : Option PackagedPhp) : List Removal :=
  match target with
  | .php major =>
      let what := "The PHP " ++ String.ofList major.asStr ++ " program files"
      [match packaged with
        | some pkg => .packageTree pkg.versionDir what
        | none => .brewFormula (brewFormula major) what,
      .generatedFile (phpPoolConfigPath home major.asStr) "The generated php-fpm pool config",
      .serviceRow target.serviceId]
  | .mysql major =>
      [.brewFormula (mysqlBrewFormula major)
        ("The MySQL " ++ String.ofList major.asStr ++ " program files"),
      .serviceRow target.serviceId]
  | .mariadb =>
      [.packageTree ((PackagesRoot.fromHome home).majorDir mariadbPackageName mariadbSeries)
        ("The MariaDB " ++ String.ofList mariadbSeries ++ " program files"),
      .serviceRow target.serviceId]

/-! ### Blockers -/

inductive KegProvenance where
  | ownKeg (keg : Path)
  | foreignKeg (owner : Name) (keg : Path)
  | unresolved (searched : List Path)
  deriving DecidableEq, Repr

inductive Blocker where
  | serviceNotTerminal (id : ServiceId) (state : String)
  | sitesPinned (domains : List (List Char))
  | foreignKeg (formula owner : List Char) (keg : Path)
  | unknownKeg (formula : List Char) (searched : List Path)
  deriving DecidableEq, Repr

/-- What is read of a site. -/
structure SiteRef where
  phpVersion : List Char
  domain : List Char
  deriving DecidableEq, Repr

def serviceBlocker (id : ServiceId) : ServiceState → Option Blocker
  | .stopped | .failed _ _ => none
  | .starting => some (.serviceNotTerminal id "starting")
  | .running => some (.serviceNotTerminal id "running")

def kegBlocker (target : Target) (keg : KegProvenance) (packaged : Option PackagedPhp) :
    Option Blocker :=
  match target.formula packaged with
  | none => none
  | some formula =>
      match keg with
      | .ownKeg _ => none
      | .foreignKeg owner keg => some (.foreignKeg formula owner keg)
      | .unresolved searched => some (.unknownKeg formula searched)

def siteBlocker (target : Target) (sites : List SiteRef) : Option Blocker :=
  match target with
  | .php major =>
      let domains := (sites.filter fun s => s.phpVersion == major.asStr).map SiteRef.domain
      if domains.isEmpty then none else some (.sitesPinned domains)
  | .mysql _ => none
  | .mariadb => none

def blockers (target : Target) (services : List ServiceStatus) (sites : List SiteRef)
    (keg : Option KegProvenance) (packaged : Option PackagedPhp) : List Blocker :=
  (keg.bind fun keg => kegBlocker target keg packaged).toList ++
    ((services.find? fun s => s.id == target.serviceId).bind fun status =>
      serviceBlocker target.serviceId status.state).toList ++
    (siteBlocker target sites).toList

/-! ### The steps on the disk -/

/-- Why a path was not found to be inside its region. -/
inductive Reason where
  | notExamined (e : Errno)
  | symlink
  | notResolved (e : Errno)
  | rootNotResolved (root : Path) (e : Errno)
  | outside (realPath realRoot : Path)
  deriving DecidableEq, Repr

inductive Confinement where
  | absent
  | contained
  | refused (reason : Reason)
  deriving DecidableEq, Repr

/-- The refusal of `remove_current`. -/
inductive LinkError where
  | unsupported
  | io (operation : String) (e : Errno)
  deriving DecidableEq, Repr

/-- What an uninstall that went on has to report. -/
inductive Problem where
  | fileWithoutDirectory (what : String) (path : Path)
  | fileOutside (what : String) (path parent root : Path)
  | fileNotRemoved (what : String) (path : Path) (e : Errno)
  | treeNotRemoved (what : String) (path : Path) (e : Errno)
  | linkWithoutDirectory (link : Path)
  | linkOutside (link parent root : Path)
  | linkNotRemoved (link : Path) (e : LinkError)
  | linkNotExamined (link : Path) (e : Errno)
  | rowNotTerminal (target : Target) (id : ServiceId) (state : String)
  deriving DecidableEq, Repr

section Steps

variable {ε : Type}

def canonicalize (p : Path) : Io Errno Path := Io.query (·.resolve p)

/-- Whether a path resolves strictly inside a root. -/
def confine (root path : Path) : Io ε Confinement := do
  match ← Io.attempt (Io.lstat path) with
  | .error .notFound => pure .absent
  | .error e => pure (.refused (.notExamined e))
  | .ok x =>
      -- beyond a link the path that is checked would not be the one that is removed
      if x.isSymlink then pure (.refused .symlink)
      else
        match ← Io.attempt (canonicalize path) with
        | .error e => pure (.refused (.notResolved e))
        | .ok realPath =>
            match ← Io.attempt (canonicalize root) with
            | .error e => pure (.refused (.rootNotResolved root e))
            | .ok realRoot =>
                if realRoot.isPrefixOf realPath && realPath != realRoot then pure .contained
                else pure (.refused (.outside realPath realRoot))

/-- `Path::parent`. -/
def parent (p : Path) : Option Path := if p.isEmpty then none else some p.dropLast

def removeGeneratedFile (generatedRoot path : Path) (what : String) : Io ε (Option Problem) :=
  match parent path with
  | none => pure (some (.fileWithoutDirectory what path))
  | some above => do
      match ← confine generatedRoot above with
      | .absent => pure none
      | .refused _ => pure (some (.fileOutside what path above generatedRoot))
      | .contained =>
          match ← Io.attempt (Io.removeFile path) with
          | .ok () => pure none
          | .error .notFound => pure none
          | .error e => pure (some (.fileNotRemoved what path e))

def removeCurrent (link : Path) : Io LinkError Unit := do
  match ← Io.attempt (Io.lstat link) with
  | .ok x =>
      if x.isSymlink then Io.mapErr (LinkError.io "remove_file") (Io.removeFile link)
      else Io.fail .unsupported
  | .error .notFound => pure ()
  | .error e => Io.fail (.io "stat" e)

def clearDanglingCurrent (packagesRoot link : Path) : Io ε (Option Problem) :=
  match parent link with
  | none => pure (some (.linkWithoutDirectory link))
  | some above => do
      match ← confine packagesRoot above with
      | .absent => pure none
      | .refused _ => pure (some (.linkOutside link above packagesRoot))
      | .contained =>
          match ← Io.attempt (Io.stat link) with
          | .ok _ => pure none
          | .error .notFound =>
              match ← Io.attempt (removeCurrent link) with
              | .ok () => pure none
              | .error e => pure (some (.linkNotRemoved link e))
          | .error e => pure (some (.linkNotExamined link e))

end Steps

/-! ### The run -/

structure World where
  disk : Disk
  rows : List ServiceStatus

inductive BrewError where
  | notCataloged (major : List Char)
  | noFormula
  | spawn
  | aborted
  | ended
  | status (code : Int)
  | signal
  deriving DecidableEq, Repr

inductive UninstallError where
  | blocked (target : Target) (blockers : List Blocker)
  | notRemoved (target : Target) (what : String) (path : Path) (reason : Reason)
  | brew (e : BrewError)
  deriving DecidableEq, Repr

inductive Outcome where
  | done
  | incomplete (problems : List Problem)
  deriving DecidableEq, Repr

structure UninstallRun where
  target : Target
  home : Path
  sites : List SiteRef
  keg : Option KegProvenance
  packaged : Option PackagedPhp
  /-- A run of `brew uninstall`: its exit code, or why there is none. -/
  brew : World → Except BrewError (Option Int) × World
  os : Interruption

namespace UninstallRun

variable (run : UninstallRun)

def packages : Path := (PackagesRoot.fromHome run.home).asPath

def uninstallSpec : Except BrewError Unit :=
  match run.target with
  | .php _ => .ok ()
  | .mysql major =>
      if mysqlCatalogue.contains major.asStr then .ok () else .error (.notCataloged major.asStr)
  | .mariadb => .error .noFormula

def runBrew (w : World) : Except UninstallError Unit × World :=
  match run.uninstallSpec with
  | .error e => (.error (.brew e), w)
  | .ok () =>
      match run.brew w with
      | (.error e, w) => (.error (.brew e), w)
      | (.ok (some 0), w) => (.ok (), w)
      | (.ok (some code), w) => (.error (.brew (.status code)), w)
      | (.ok none, w) => (.error (.brew .signal), w)

def removeVersionTree (path : Path) (what : String) : Io UninstallError (Option Problem) := do
  match ← confine run.packages path with
  | .absent => pure none
  | .refused reason => Io.fail (.notRemoved run.target what path reason)
  | .contained =>
      match ← Io.attempt (Io.removeTree run.os path) with
      | .ok () => pure none
      | .error .notFound => pure none
      | .error e => pure (some (.treeNotRemoved what path e))

/-- The program files, and then the link that selected them. -/
def removePackageTree (path : Path) (what : String) : Io UninstallError (List Problem) := do
  let problem ← run.removeVersionTree path what
  let dangling ← clearDanglingCurrent run.packages (run.target.packagedCurrentLink run.home)
  pure (problem.toList ++ dangling.toList)

def unregister (rows : List ServiceStatus) (id : ServiceId) :
    Except ProcError (List ServiceStatus) :=
  match rows.find? fun s => s.id == id with
  | none => .error (.notFound id)
  | some s =>
      match Proc.World.checkTerminal id s.state with
      | .error e => .error e
      | .ok () => .ok (rows.filter fun s => s.id != id)

/-- A step on the disk, as a step of the world. -/
def onDisk {ε α : Type} (x : Io ε α) (w : World) : Except ε α × World :=
  match x w.disk with
  | .ok a d => (.ok a, { w with disk := d })
  | .error e d => (.error e, { w with disk := d })

def removeServiceRow (id : ServiceId) (w : World) : List Problem × World :=
  match unregister w.rows id with
  | .ok rows => ([], { w with rows })
  | .error (.notFound _) => ([], w)
  | .error (.notTerminal id state) => ([.rowNotTerminal run.target id state], w)

/-- One removal, and the problems it leaves to report. -/
def perform (removal : Removal) (w : World) : Except UninstallError (List Problem) × World :=
  match removal with
  | .brewFormula _ _ =>
      match run.runBrew w with
      | (.ok (), w) => (.ok [], w)
      | (.error e, w) => (.error e, w)
  | .generatedFile path what =>
      onDisk (do
        let problem ← removeGeneratedFile (generatedConfigRoot run.home) path what
        pure problem.toList) w
  | .packageTree path what => onDisk (run.removePackageTree path what) w
  | .serviceRow id =>
      let (problems, w) := run.removeServiceRow id w
      (.ok problems, w)

def performAll : List Removal → List Problem → World → Except UninstallError Outcome × World
  | [], [], w => (.ok .done, w)
  | [], problems, w => (.ok (.incomplete problems), w)
  | removal :: rest, problems, w =>
      match run.perform removal w with
      | (.error e, w) => (.error e, w)
      | (.ok more, w) => performAll rest (problems ++ more) w

def performUninstall (w : World) : Except UninstallError Outcome × World :=
  match blockers run.target w.rows run.sites run.keg run.packaged with
  | [] => run.performAll (inventory run.target run.home run.packaged) [] w
  | blocker :: more => (.error (.blocked run.target (blocker :: more)), w)

end UninstallRun

end OpenVHost.Uninstall
