/-
# Discovery of the installed runtimes

A runtime comes from the application's own package tree or from a Homebrew prefix. The
walks of PHP and of MySQL are one walk over what an `Engine` gives: the binaries that
make a runtime, the names of its formulae and which version texts name a major.

* `listed_of_currentInstall` — the walk meets every major whose `current` link selects an
  install.
-/

import OpenVHost.FileTree.Resolve
import OpenVHost.Merge.Keyed
import OpenVHost.Site.Model
import Mathlib.Data.Char
import Mathlib.Data.List.Lex
import Mathlib.Data.List.Sort

namespace OpenVHost.Runtime

open FileTree Conf Text

/-! ### The package tree -/

structure PackagesRoot where
  asPath : Path
  deriving DecidableEq, Repr

namespace PackagesRoot

def fromHome (home : Path) : PackagesRoot := ⟨home ++ ["packages".toList]⟩

def majorDir (root : PackagesRoot) (name major : Name) : Path := root.asPath ++ [name, major]

def packageDir (root : PackagesRoot) (name major version : Name) : Path :=
  root.majorDir name major ++ [version]

def currentLink (root : PackagesRoot) (name major : Name) : Path :=
  root.majorDir name major ++ ["current".toList]

end PackagesRoot

def isFile (t : Tree) (p : Path) : Bool :=
  match t.stat p with
  | .ok x => x.isFile
  | .error _ => false

def pathExists (t : Tree) (p : Path) : Bool :=
  match t.stat p with
  | .ok _ => true
  | .error _ => false

/-- The version that a `current` link selects: its target is one plain name. -/
def currentVersion (t : Tree) (link : Path) : Option Name :=
  match t.lstat link with
  | .ok (.symlink target) =>
      -- only a leading `.` is a component of its own
      if isAbsolute target || (splitPath target).head? == some ['.'] then none
      else
        match components target with
        | [name] => if name == ['.', '.'] then none else some name
        | _ => none
  | _ => none

def looksLikeABrokenInstall (t : Tree) (majorDir : Path) : Bool :=
  match t.readDir majorDir with
  | .ok names => !names.isEmpty
  | .error _ => pathExists t majorDir

/-! ### Kegs -/

structure ResolvedKeg where
  owner : Name
  version : Name
  path : Path
  deriving DecidableEq, Repr

def digits (s : List Char) : Bool := !s.isEmpty && s.all isAsciiDigit

def ResolvedKeg.majorMinor (keg : ResolvedKeg) : Option (List Char) :=
  match keg.version.splitOn '.' with
  | major :: minor :: _ => if digits major && digits minor then some (major ++ '.' :: minor) else none
  | _ => none

def resolveKeg (t : Tree) (optLink : Path) : Option ResolvedKeg :=
  match t.resolve optLink with
  | .error _ => none
  | .ok real =>
      match real.reverse with
      | version :: owner :: cellar :: _ =>
          if cellar.map Char.toLower == "cellar".toList then some ⟨owner, version, real⟩ else none
      | _ => none

/-! ### The walks -/

structure Discovery (ρ : Type) where
  runtimes : List ρ
  unidentified : List Path
  deriving DecidableEq, Repr

inductive RuntimeSource where
  | packaged (version : Name)
  | homebrew
  deriving DecidableEq, Repr

/-- What the walks of two engines differ in. A runtime is of type `ρ`, a major of type
`κ`; the laws are those that the walks rely on. -/
structure Engine (ρ κ : Type) where
  package : Name
  formula : Name
  /-- The path of the server's binary in a formula directory. -/
  server : Path
  /-- The other binaries that a formula directory has to hold. -/
  clients : List Path
  /-- The major that a directory's name is. -/
  ofName : Name → Option κ
  /-- The major that a keg's or a probe's version is. -/
  ofVersion : List Char → Option κ
  asStr : κ → List Char
  /-- The runtime that a major's `current` link selects. -/
  packaged : Tree → PackagesRoot → κ → Option ρ
  /-- The runtime of a formula directory. -/
  brew : κ → Path → ρ
  major : ρ → κ
  bin : ρ → Path
  /-- The runtime with its binaries taken from another directory. -/
  rebind : ρ → Path → ρ
  asStr_inj : ∀ {m m'}, asStr m = asStr m' → m = m'
  asStr_of_ofName : ∀ {name m}, ofName name = some m → asStr m = name
  major_brew : ∀ m dir, major (brew m dir) = m
  dir_of_bin : ∀ m dir, (bin (brew m dir)).dropLast.dropLast = dir
  rebind_brew : ∀ m dir dir', rebind (brew m dir) dir' = brew m dir'
  major_rebind : ∀ r dir, major (rebind r dir) = major r
  major_packaged : ∀ {t root m rt}, packaged t root m = some rt → major rt = m
  listed : ∀ {t root m rt}, packaged t root m = some rt → ofName (asStr m) = some m ∧
    ∃ names, t.readDir (root.asPath ++ [package]) = .ok names ∧ asStr m ∈ names

def sortNames (names : List Name) : List Name := names.insertionSort fun a b => a ≤ b

def sortPaths (paths : List Path) : List Path := paths.insertionSort fun a b => a ≤ b

namespace Engine

variable {ρ κ : Type} [DecidableEq κ] (E : Engine ρ κ) (t : Tree)

def isFormula (name : Name) : Bool := name == E.formula || (E.formula ++ ['@']).isPrefixOf name

/-- The formula directories under a prefix, sorted. -/
def candidates (pre : Path) : List Path :=
  match t.readDir (pre ++ ["opt".toList]) with
  | .error _ => []
  | .ok names => sortPaths ((names.filter E.isFormula).map fun name => pre ++ ["opt".toList, name])

/-- All the binaries of a runtime are in the formula directory. -/
def complete (dir : Path) : Bool := (E.server :: E.clients).all fun rel => isFile t (dir ++ rel)

def versionOf (probe : Path → Option (List Char)) (dir bin : Path) : Option (List Char) :=
  ((resolveKeg t dir).bind ResolvedKeg.majorMinor).orElse fun _ => probe bin

/-- The major that a formula directory reports. -/
def reported (probe : Path → Option (List Char)) (dir : Path) : Option κ :=
  (versionOf t probe dir (dir ++ E.server)).bind E.ofVersion

/-- What the walk over the prefixes has found: each runtime with its prefix's index. -/
structure Walk (ρ : Type) where
  found : List (Nat × ρ)
  unidentified : List Path

def isAlias (r : ρ) : Bool := (E.bin r).dropLast.dropLast.getLast? == some E.formula

/-- A runtime that is known keeps its prefix; an alias gives way to another formula
directory of the same prefix. -/
def override (i : Nat) (dir : Path) (known : Nat × ρ) : Nat × ρ :=
  if known.1 == i && E.isAlias known.2 then (known.1, E.rebind known.2 dir) else known

def visit (probe : Path → Option (List Char)) (i : Nat) (w : Walk ρ) (dir : Path) : Walk ρ :=
  if !E.complete t dir then w
  else
    match E.reported t probe dir with
    | none => { w with unidentified := w.unidentified ++ [dir] }
    | some m =>
        { w with
          found := Merge.place (fun known => E.major known.2) (E.override i dir) (i, E.brew m dir)
            m w.found }

def sortRuntimes (runtimes : List ρ) : List ρ :=
  runtimes.insertionSort fun a b => E.asStr (E.major a) ≤ E.asStr (E.major b)

def discoverBrew (prefixes : List Path) (probe : Path → Option (List Char)) : Discovery ρ :=
  let w := prefixes.zipIdx.foldl
    (fun w (pre, i) => (E.candidates t pre).foldl (E.visit t probe i) w) ⟨[], []⟩
  ⟨E.sortRuntimes (w.found.map Prod.snd), w.unidentified⟩

def visitMajor (root : PackagesRoot) (d : Discovery ρ) (name : Name) : Discovery ρ :=
  match E.ofName name with
  | none => d
  | some m =>
      let majorDir := root.asPath ++ [E.package, name]
      match E.packaged t root m with
      | some rt => { d with runtimes := d.runtimes ++ [rt] }
      | none =>
          if looksLikeABrokenInstall t majorDir then
            { d with unidentified := d.unidentified ++ [majorDir] }
          else d

def discoverPackaged (root : PackagesRoot) : Discovery ρ :=
  match t.readDir (root.asPath ++ [E.package]) with
  | .error _ => ⟨[], []⟩
  | .ok names => (sortNames names).foldl (E.visitMajor t root) ⟨[], []⟩

def discover (root : PackagesRoot) (prefixes : List Path) (probe : Path → Option (List Char)) :
    Discovery ρ :=
  let found := E.discoverPackaged t root
  let brew := E.discoverBrew t prefixes probe
  ⟨E.sortRuntimes (brew.runtimes.foldl (Merge.addMissing E.major) found.runtimes),
    found.unidentified ++ brew.unidentified⟩

end Engine

/-! ### What a `current` link selects -/

structure PackagedInstall where
  version : Name
  dir : Path
  deriving DecidableEq, Repr

/-- The directory that a major's `current` link selects, a child of the major's own. -/
def currentInstall (t : Tree) (root : PackagesRoot) (package major : Name) :
    Option PackagedInstall :=
  match currentVersion t (root.currentLink package major) with
  | none => none
  | some version =>
      let dir := root.packageDir package major version
      if dir.dropLast != root.majorDir package major then none else some ⟨version, dir⟩

/-- Digits, one dot, digits. -/
def majorMinorShape (s : List Char) : Bool :=
  match s.splitOn '.' with
  | [major, minor] => digits major && digits minor
  | _ => false

theorem not_special_of_shape {s : Name} (h : majorMinorShape s = true) : special s = false := by
  have hne : s ≠ [] ∧ s ≠ ['.'] ∧ s ≠ ['.', '.'] := by
    refine ⟨?_, ?_, ?_⟩ <;> (rintro rfl; revert h; decide)
  exact special_eq_false.mpr hne

/-- Digits, a dot, digits. -/
def MajorMinor (s : List Char) : Prop :=
  ∃ major minor, digits major = true ∧ digits minor = true ∧ s = major ++ '.' :: minor

theorem majorMinor_of_shape {s : List Char} (h : majorMinorShape s = true) : MajorMinor s := by
  unfold majorMinorShape at h
  split at h
  next major minor hparts =>
    obtain ⟨hmajor, hminor⟩ := Bool.and_eq_true_iff.mp h
    refine ⟨major, minor, hmajor, hminor, ?_⟩
    have hjoin : ['.'].intercalate (s.splitOn '.') = s := List.intercalate_splitOn '.'
    rw [hparts] at hjoin
    simpa [List.intercalate] using hjoin.symm
  next => cases h

theorem not_mem_of_digits {s : List Char} {c : Char} (h : digits s = true)
    (hc : Conf.isAsciiDigit c = false) : c ∉ s := by
  intro hmem
  simp only [digits, Bool.and_eq_true, List.all_eq_true] at h
  rw [h.2 c hmem] at hc
  cases hc

/-- A major with a `current` link is listed in its package's directory. -/
theorem listed_of_currentInstall {t : Tree} {root : PackagesRoot} {package major : Name}
    {install : PackagedInstall} (hm : majorMinorShape major = true)
    (h : currentInstall t root package major = some install) :
    ∃ names, t.readDir (root.asPath ++ [package]) = .ok names ∧ major ∈ names := by
  unfold currentInstall at h
  split at h
  next => cases h
  next version hversion =>
    unfold currentVersion at hversion
    split at hversion
    next target htarget =>
      have hlink : root.currentLink package major =
          root.asPath ++ [package] ++ [major, "current".toList] := by
        simp [PackagesRoot.currentLink, PackagesRoot.majorDir]
      rw [hlink] at htarget
      exact Tree.readDir_of_lstat (not_special_of_shape hm) (by decide) htarget
    next => cases hversion

/-! ### PHP -/

namespace Php

def isMajorMinorShape (s : List Char) : Bool :=
  decide (utf8Len s ≤ Site.phpVersionMaxLen) && majorMinorShape s

structure PhpRuntime where
  major : List Char
  fpmBin : Path
  source : RuntimeSource
  deriving DecidableEq, Repr

def packageName : Name := "php".toList
def fpmRel : Path := ["sbin".toList, "php-fpm".toList]
def packagedFpmRel : Path := ["bin".toList, "php-fpm".toList]

def packagedPhpInstall (t : Tree) (root : PackagesRoot) (major : Name) :
    Option PackagedInstall :=
  if !isMajorMinorShape major then none
  else (currentInstall t root packageName major).filter fun install =>
    isFile t (install.dir ++ packagedFpmRel)

def packagedPhpRuntime (t : Tree) (root : PackagesRoot) (major : Name) : Option PhpRuntime :=
  (packagedPhpInstall t root major).map fun install =>
    ⟨major, install.dir ++ packagedFpmRel, .packaged install.version⟩

/-- Homebrew's majors are texts of any shape. -/
def phpEngine : Engine PhpRuntime (List Char) where
  package := packageName
  formula := "php".toList
  server := fpmRel
  clients := []
  ofName name := if isMajorMinorShape name then some name else none
  ofVersion := some
  asStr := id
  packaged := packagedPhpRuntime
  brew major dir := ⟨major, dir ++ fpmRel, .homebrew⟩
  major := PhpRuntime.major
  bin := PhpRuntime.fpmBin
  rebind rt dir := { rt with fpmBin := dir ++ fpmRel }
  asStr_inj := id
  asStr_of_ofName h := by
    split at h
    · exact (Option.some.inj h).symm
    · cases h
  major_brew _ _ := rfl
  dir_of_bin _ dir := by simp [fpmRel]
  rebind_brew _ _ _ := rfl
  major_rebind _ _ := rfl
  major_packaged h := by
    obtain ⟨install, -, rfl⟩ := Option.map_eq_some_iff.mp h
    rfl
  listed {t root m rt} h := by
    obtain ⟨install, hinstall, -⟩ := Option.map_eq_some_iff.mp h
    unfold packagedPhpInstall at hinstall
    split at hinstall
    next => cases hinstall
    next hshape =>
      have hshape : isMajorMinorShape m = true := by simpa using hshape
      have hm : majorMinorShape m = true := by
        simp only [isMajorMinorShape, Bool.and_eq_true] at hshape
        exact hshape.2
      exact ⟨if_pos hshape, listed_of_currentInstall hm (Option.filter_eq_some_iff.mp hinstall).1⟩

def discoverPhp (t : Tree) (root : PackagesRoot) (prefixes : List Path)
    (probe : Path → Option (List Char)) : Discovery PhpRuntime :=
  phpEngine.discover t root prefixes probe

end Php

/-! ### MySQL -/

namespace Mysql

structure MysqlMajor where
  asStr : List Char
  valid : majorMinorShape asStr = true
  deriving DecidableEq, Repr

def MysqlMajor.fromProbe (s : List Char) : Option MysqlMajor :=
  if h : majorMinorShape s = true then some ⟨s, h⟩ else none

structure MysqlRuntime where
  major : MysqlMajor
  mysqld : Path
  mysql : Path
  mysqladmin : Path
  source : RuntimeSource
  deriving DecidableEq, Repr

def packageName : Name := "mysql".toList
def mysqldRel : Path := ["bin".toList, "mysqld".toList]
def mysqlRel : Path := ["bin".toList, "mysql".toList]
def mysqladminRel : Path := ["bin".toList, "mysqladmin".toList]

def runtimeIn (t : Tree) (dir : Path) (major : MysqlMajor) (source : RuntimeSource) :
    Option MysqlRuntime :=
  if isFile t (dir ++ mysqldRel) && isFile t (dir ++ mysqlRel) && isFile t (dir ++ mysqladminRel)
  then some ⟨major, dir ++ mysqldRel, dir ++ mysqlRel, dir ++ mysqladminRel, source⟩
  else none

def packagedMysqlRuntime (t : Tree) (root : PackagesRoot) (major : MysqlMajor) :
    Option MysqlRuntime :=
  (currentInstall t root packageName major.asStr).bind fun install =>
    runtimeIn t install.dir major (.packaged install.version)

def mysqlEngine : Engine MysqlRuntime MysqlMajor where
  package := packageName
  formula := "mysql".toList
  server := mysqldRel
  clients := [mysqlRel, mysqladminRel]
  ofName := MysqlMajor.fromProbe
  ofVersion := MysqlMajor.fromProbe
  asStr := MysqlMajor.asStr
  packaged := packagedMysqlRuntime
  brew major dir :=
    ⟨major, dir ++ mysqldRel, dir ++ mysqlRel, dir ++ mysqladminRel, .homebrew⟩
  major := MysqlRuntime.major
  bin := MysqlRuntime.mysqld
  rebind rt dir := { rt with
    mysqld := dir ++ mysqldRel
    mysql := dir ++ mysqlRel
    mysqladmin := dir ++ mysqladminRel }
  asStr_inj {m m'} h := by
    cases m
    cases m'
    cases h
    rfl
  asStr_of_ofName h := by
    unfold MysqlMajor.fromProbe at h
    split at h
    · cases h
      rfl
    · cases h
  major_brew _ _ := rfl
  dir_of_bin _ dir := by simp [mysqldRel]
  rebind_brew _ _ _ := rfl
  major_rebind _ _ := rfl
  major_packaged h := by
    obtain ⟨install, -, h⟩ := Option.bind_eq_some_iff.mp h
    unfold runtimeIn at h
    split at h
    · cases h
      rfl
    · cases h
  listed {t root m rt} h := by
    obtain ⟨install, hinstall, -⟩ := Option.bind_eq_some_iff.mp h
    exact ⟨dif_pos m.valid, listed_of_currentInstall m.valid hinstall⟩

def discoverMysql (t : Tree) (root : PackagesRoot) (prefixes : List Path)
    (probe : Path → Option (List Char)) : Discovery MysqlRuntime :=
  mysqlEngine.discover t root prefixes probe

end Mysql

end OpenVHost.Runtime
