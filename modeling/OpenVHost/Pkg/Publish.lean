/-
# Publishing a version

The end of an installation: the extracted tree is renamed to its version directory, and the
major's `current` link is swung onto it by a rename of its own. Every operation may fail.

* `wp_installDir`, `wp_updateCurrent` — what each of the two steps leaves, however it ends.
* `publish_atomic` — a publication selects the version with exactly the staged tree behind it,
  or the selection is the one before it.
* `jammed` — a directory at `current` blocks the major for good.
* `selected_last` — over any run of publications, the last that went through is selected, and
  every version holds what was staged for it.
-/

import OpenVHost.FileTree.Faults
import OpenVHost.Lts.System
import OpenVHost.Pkg.Targz
import OpenVHost.Runtime.Discover
import OpenVHost.Conf.SamePath

namespace OpenVHost.Runtime.PackagesRoot

open FileTree

def stagingRoot (root : PackagesRoot) : Path := root.asPath ++ [".staging".toList]

end OpenVHost.Runtime.PackagesRoot

namespace OpenVHost.Pkg

open FileTree FileTree.Io FileTree.Tree
open OpenVHost.Conf (decimal isAsciiDigit isAsciiLowercase OneName)
open OpenVHost.Runtime (PackagedInstall PackagesRoot currentInstall currentVersion)

/-! ### The names of a request -/

def componentChar (c : Char) : Bool :=
  isAsciiLowercase c || isAsciiDigit c || c == '.' || c == '_' || c == '-'

/-- A name, a major or a version is one path component of a narrow alphabet. -/
def validateComponent (s : Str) : Except PkgError Unit :=
  if s.isEmpty || utf8Len s > 64 then .error (.invalidComponent s "length must be 1..=64")
  else if !s.all componentChar then .error (.invalidComponent s "only [a-z0-9._-] allowed")
  else if s == ['.'] || s == ['.', '.'] then .error (.invalidComponent s "must not be . or ..")
  else if s.head? == some '.' || s.head? == some '-' then
    .error (.invalidComponent s "must not start with . or -")
  else if s.getLast? == some '.' then .error (.invalidComponent s "must not end with a dot")
  else if reserved.any (· == (s.splitOn '.').headD s) then
    .error (.invalidComponent s "reserved device name")
  else .ok ()

theorem head_of_component {s : Str} (h : validateComponent s = .ok ()) :
    s ≠ [] ∧ s.head? ≠ some '.' ∧ s.all componentChar = true := by
  unfold validateComponent at h
  split at h
  · cases h
  next hlen =>
    split at h
    · cases h
    next hall =>
      split at h
      · cases h
      · split at h
        · cases h
        next hhead =>
          simp only [Bool.or_eq_true, not_or, beq_iff_eq] at hhead
          simp only [Bool.or_eq_true, not_or, List.isEmpty_iff] at hlen
          exact ⟨hlen.1, hhead.1, by simpa using hall⟩

/-- **An accepted component is one entry of its directory**, and not a hidden one. -/
theorem oneName_of_component {s : Str} (h : validateComponent s = .ok ()) : OneName s := by
  obtain ⟨hne, hhead, hall⟩ := head_of_component h
  constructor
  · intro hslash
    have := List.all_eq_true.mp hall _ hslash
    revert this
    decide
  · rw [special_eq_false]
    refine ⟨hne, ?_, ?_⟩
    · rintro rfl
      exact hhead rfl
    · rintro rfl
      exact hhead rfl

/-- What starts with a dot is no accepted component. -/
theorem ne_hidden {s : Str} (rest : List Char) (h : validateComponent s = .ok ()) :
    s ≠ '.' :: rest := by
  rintro rfl
  exact (head_of_component h).2.1 rfl

/-! ### The two steps -/

/-- `is_exists`: the destination is there already. -/
def isExists : Errno → Bool
  | .alreadyExists | .directoryNotEmpty => true
  | _ => false

/-- Rename the staged tree to the version directory, which must not be there. -/
def installDir (staged finalDir : Path) (name version : Str) : Io PkgError Unit := do
  if ← Io.pathExists finalDir then Io.fail (.alreadyInstalled name version)
  else do
    ensureParent finalDir
    match ← Io.attempt (Io.rename staged finalDir) with
    | .ok () => pure ()
    | .error e =>
        if isExists e then Io.fail (.alreadyInstalled name version)
        else Io.fail (.io "rename" finalDir e)

/-- The temporary name of a swap: the process, and how many swaps it made before. -/
def swapName (pid seq : Nat) : Name :=
  ".current.".toList ++ decimal pid ++ '.' :: decimal seq ++ ".tmp".toList

/-- A new link beside `current`, renamed over it. -/
def swapCurrent (tmp link : Path) (version : Str) : Io PkgError Unit := do
  Io.mapErr (.io "symlink" tmp) (Io.symlink version tmp)
  match ← Io.attempt (Io.rename tmp link) with
  | .ok () => pure ()
  | .error e => do
      let _ ← Io.attempt (Io.removeFile tmp)
      Io.fail (.io "rename" link e)

/-- Point `current` at a version beside it. What is there and no link is not replaced. -/
def updateCurrent (pid seq : Nat) (link : Path) (version : Str) : Io PkgError Unit :=
  if link.isEmpty then Io.fail (.unsafeArchive "current has no parent")
  else do
    match ← Io.attempt (Io.lstat link) with
    | .ok x =>
        if x.isSymlink then swapCurrent (link.dropLast ++ [swapName pid seq]) link version
        else
          Io.fail (.unsupported "existing 'current' is not a symlink; refusing to replace")
    | .error .notFound => swapCurrent (link.dropLast ++ [swapName pid seq]) link version
    | .error e => Io.fail (.io "stat" link e)

structure InstalledPackage where
  dir : Path
  currentLink : Path
  name : Str
  major : Str
  version : Str
  deriving DecidableEq, Repr

/-- The end of `install_package`, with the extracted tree at `staged`. -/
def publish (root : PackagesRoot) (name major version : Str) (staged : Path) (pid seq : Nat) :
    Io PkgError InstalledPackage := do
  Io.ofExcept (validateComponent name)
  Io.ofExcept (validateComponent major)
  Io.ofExcept (validateComponent version)
  installDir staged (root.packageDir name major version) name version
  updateCurrent pid seq (root.currentLink name major) version
  pure ⟨root.packageDir name major version, root.currentLink name major, name, major, version⟩

/-! ### The major's directory -/

/-- A major of a package, and the directory that the packages root leads to. -/
structure Shelf where
  root : PackagesRoot
  real : Path
  name : Str
  major : Str
  name_ok : validateComponent name = .ok ()
  major_ok : validateComponent major = .ok ()

namespace Shelf

variable (s : Shelf) {t t' t'' : Tree} {q : Path} {version box : Name}

def path : Path := s.root.majorDir s.name s.major

/-- Where the major's directory is. -/
def dir : Path := s.real ++ [s.name] ++ [s.major]

def versionDir (version : Name) : Path := s.dir ++ [version]

def current : Path := s.dir ++ ["current".toList]

def staging : Path := s.real ++ [".staging".toList]

/-- Where the staging directory `box` has the extracted tree. -/
def staged (box : Name) : Path := s.staging ++ [box] ++ ["root".toList]

def stagedPath (box : Name) : Path := s.root.stagingRoot ++ [box] ++ ["root".toList]

/-- What the `current` link selects. -/
def selected (t : Tree) : Option PackagedInstall := currentInstall t s.root s.name s.major

/-- What is neither staged nor of the package. -/
def Beside (q : Path) : Prop := ¬ s.staging <+: q ∧ ¬ s.real ++ [s.name] <+: q

/-- The root leads to its directory by what is beside the package and the staging area, and no
link is on the way from there. -/
structure Fits (t : Tree) : Prop where
  leads : ((t.prune s.staging).prune (s.real ++ [s.name])).Leads s.root.asPath s.real
  name : ∀ target, t.node (s.real ++ [s.name]) ≠ some (.symlink target)
  major : ∀ target, t.node s.dir ≠ some (.symlink target)

/-- `t'` is `t` with the major's directory, or the package's, made where it was missing. -/
def Made (t t' : Tree) : Prop :=
  ∀ q, t'.node q = t.node q ∨
    (t.node q = none ∧ t'.isDir q = true ∧ (q = s.real ++ [s.name] ∨ q = s.dir))

variable {s}

theorem special_name : special s.name = false := (oneName_of_component s.name_ok).2

theorem special_major : special s.major = false := (oneName_of_component s.major_ok).2

theorem path_eq (s : Shelf) : s.path = s.root.asPath ++ [s.name] ++ [s.major] := by
  simp [path, PackagesRoot.majorDir]

theorem staging_ne_nil : s.staging ≠ [] := by simp [staging]

theorem node_beside (t : Tree) (q : Path) {x : Node} :
    ((t.prune s.staging).prune (s.real ++ [s.name])).node q = some x ↔
      s.Beside q ∧ t.node q = some x := by
  rw [node_prune (by simp), Beside]
  by_cases hname : s.real ++ [s.name] <+: q
  · simp [hname]
  · rw [if_neg hname, node_prune staging_ne_nil]
    by_cases hstaging : s.staging <+: q
    · simp [hstaging]
    · simp [hstaging, hname]

namespace Made

theorem refl (s : Shelf) (t : Tree) : s.Made t t := fun _ => .inl rfl

theorem grows (h : s.Made t t') : Grows t t' := by
  intro q x hx
  rcases h q with heq | ⟨hnone, -⟩
  · exact ⟨x, heq.trans hx, rfl⟩
  · rw [hnone] at hx
    cases hx

theorem trans (h : s.Made t t') (h' : s.Made t' t'') : s.Made t t'' := by
  intro q
  rcases h' q with heq | ⟨hnone, hnew⟩
  · rcases h q with heq' | ⟨hnone, hdir, hq⟩
    · exact .inl (heq.trans heq')
    · exact .inr ⟨hnone, by rwa [Tree.isDir, heq], hq⟩
  · rcases h q with heq' | ⟨-, hdir, -⟩
    · exact .inr ⟨heq' ▸ hnone, hnew⟩
    · simp [Tree.isDir, hnone] at hdir

/-- What is made is no link. -/
theorem unlinked (h : s.Made t t') (hlink : ∀ target, t.node q ≠ some (.symlink target)) :
    ∀ target, t'.node q ≠ some (.symlink target) := by
  intro target hq
  rcases h q with heq | ⟨-, hdir, -⟩
  · exact hlink target (heq ▸ hq)
  · simp [Tree.isDir, hq, Node.isDir] at hdir

/-- Outside the two directories everything is as it was. -/
theorem other (h : s.Made t t') (hname : q ≠ s.real ++ [s.name]) (hdir : q ≠ s.dir) :
    t'.node q = t.node q := by
  rcases h q with heq | ⟨-, -, rfl | rfl⟩
  · exact heq
  · exact absurd rfl hname
  · exact absurd rfl hdir

end Made

namespace Fits

theorem leads_root (h : s.Fits t) : t.Leads s.root.asPath s.real :=
  h.leads.grows fun q x hx => ⟨x, ((node_beside t q).mp hx).2, rfl⟩

/-- The layout rests on what is beside, and on the two directories being no links. -/
theorem of_beside (h : s.Fits t) (hbeside : ∀ q, s.Beside q → t'.node q = t.node q)
    (hname : ∀ target, t'.node (s.real ++ [s.name]) ≠ some (.symlink target))
    (hmajor : ∀ target, t'.node s.dir ≠ some (.symlink target)) : s.Fits t' := by
  refine ⟨h.leads.grows fun q x hx => ⟨x, ?_, rfl⟩, hname, hmajor⟩
  obtain ⟨hq, hnode⟩ := (node_beside t q).mp hx
  exact (node_beside t' q).mpr ⟨hq, (hbeside q hq).trans hnode⟩

theorem made (h : s.Fits t) (hmade : s.Made t t') : s.Fits t' := by
  refine h.of_beside (fun q hq => hmade.other ?_ ?_) (hmade.unlinked h.name)
    (hmade.unlinked h.major)
  · rintro rfl
    exact hq.2 (List.prefix_refl _)
  · rintro rfl
    exact hq.2 ⟨[s.major], rfl⟩

/-- Where the package's directory is found, if it is. -/
theorem resolve_name (h : s.Fits t) (hr : t.resolve (s.root.asPath ++ [s.name]) = .ok q) :
    q = s.real ++ [s.name] := by
  obtain ⟨mid, hmid, hcase⟩ := resolve_concat special_name hr
  obtain rfl : mid = s.real := Except.ok.inj (hmid.symm.trans h.leads_root.resolve)
  rcases hcase with ⟨target, htarget⟩ | ⟨rfl, -⟩
  · exact absurd htarget (h.name target)
  · rfl

/-- Where the major's directory is found, if it is. -/
theorem resolve_path (h : s.Fits t) (hr : t.resolve s.path = .ok q) : q = s.dir := by
  rw [path_eq] at hr
  obtain ⟨mid, hmid, hcase⟩ := resolve_concat special_major hr
  obtain rfl := h.resolve_name hmid
  rcases hcase with ⟨target, htarget⟩ | ⟨rfl, -⟩
  · exact absurd htarget (h.major target)
  · rfl

theorem leads_path (h : s.Fits t) (hd : t.isDir s.dir = true) : t.Leads s.path s.dir := by
  have hname : t.isDir (s.real ++ [s.name]) = true := isDir_above (List.prefix_append _ _) hd
  rw [path_eq]
  exact (h.leads_root.child special_name hname).child special_major hd

end Fits

/-! ### The directories above a version -/

section Above

variable {d : Disk}

/-- A directory that is made in the package's directory is the major's. -/
theorem made_of_mkdir (h : s.Fits t)
    (hm : t.mkdir (s.root.asPath ++ [s.name] ++ [s.major]) = .ok t') :
    s.Made t t' ∧ t'.isDir s.dir = true := by
  obtain ⟨q, hl, hnone, rfl⟩ := addNew_any hm
  rw [locate_concat special_major] at hl
  cases hr : t.resolve (s.root.asPath ++ [s.name]) with
  | error e => simp [hr] at hl
  | ok r =>
      obtain rfl := h.resolve_name hr
      rw [hr] at hl
      dsimp only at hl
      split at hl
      next hd =>
        cases hl
        have hput := put_node_of_parent (t := t) (p := s.dir) (x := .dir none)
          (by rwa [dir, List.dropLast_concat]) (by rw [Tree.isDir, dir, hnone]; rfl)
        refine ⟨fun q => ?_, isDir_iff.mpr ⟨none, by rw [← dir, hput, if_pos rfl]⟩⟩
        by_cases hq : q = s.dir
        · refine .inr ⟨hq ▸ hnone, ?_, .inr hq⟩
          exact isDir_iff.mpr ⟨none, by rw [← dir, hput, if_pos hq]⟩
        · exact .inl (by rw [← dir, hput, if_neg hq])
      next => cases hl

/-- **Creating the version's parent makes the major's directory**, at most the two of it and
the package's. -/
theorem wp_ensureParent (h : s.Fits d.tree) (version : Name) :
    wp (ensureParent (s.root.packageDir s.name s.major version))
      (fun _ d' => s.Made d.tree d'.tree ∧ d'.tree.isDir s.dir = true)
      (fun _ d' => s.Made d.tree d'.tree) d := by
  have hdrop : (s.root.packageDir s.name s.major version).dropLast =
      s.root.asPath ++ [s.name] ++ [s.major] := by
    rw [PackagesRoot.packageDir, List.dropLast_concat, PackagesRoot.majorDir]
    simp
  have hne : (s.root.packageDir s.name s.major version).isEmpty = false := by
    simp [PackagesRoot.packageDir]
  have hmade : ∀ {t : Tree}, Paved (s.root.asPath ++ [s.name]) d.tree t → s.Made d.tree t :=
    fun hpave q => by
      rcases hpave.last special_name h.leads_root h.name q with heq | ⟨hq, hnone, hdir⟩
      · exact .inl heq
      · exact .inr ⟨hnone, hdir, .inl hq⟩
  rw [ensureParent, hne, if_neg (by simp), hdrop, createDir, wp_mapErr]
  refine wp_mono wp_createDirAll_paved (fun _ d' hpost => ?_) fun _ d' hpave => hmade hpave
  obtain ⟨t, hpave, hcase⟩ := hpost
  have hfit := h.made (hmade hpave)
  rcases hcase with hmkdir | ⟨htree, x, hstat, hx⟩
  · obtain ⟨hmade', hdir⟩ := made_of_mkdir hfit hmkdir
    exact ⟨(hmade hpave).trans hmade', hdir⟩
  · rw [htree]
    refine ⟨hmade hpave, ?_⟩
    rw [Tree.stat, ← path_eq] at hstat
    cases hr : t.resolve s.path with
    | error e => simp [hr] at hstat
    | ok q =>
        obtain rfl := hfit.resolve_path hr
        cases hnode : t.node s.dir with
        | none => simp [hr, hnode] at hstat
        | some y =>
            obtain rfl : y = x := by simpa [hr, hnode] using hstat
            rw [Tree.isDir, hnode]
            exact hx

end Above

/-! ### The version directory -/

theorem staging_ne (p q : Path) : s.staging ++ p ≠ s.real ++ [s.name] ++ q := by
  intro h
  have hhead : ".staging".toList = s.name := by
    simp only [staging, List.append_assoc, List.append_cancel_left_eq] at h
    exact (List.cons.inj h).1
  exact ne_hidden "staging".toList s.name_ok hhead.symm

/-- What is staged is neither above nor beneath what is in the package's directory. -/
theorem staging_apart {p q : Path} (hp : s.staging <+: p) (hq : s.real ++ [s.name] <+: q) :
    ¬ p <+: q ∧ ¬ q <+: p := by
  obtain ⟨p, rfl⟩ := hp
  obtain ⟨q, rfl⟩ := hq
  constructor
  · rintro ⟨z, hz⟩
    rw [List.append_assoc] at hz
    exact staging_ne _ _ hz
  · rintro ⟨z, hz⟩
    rw [List.append_assoc (s.real ++ [s.name])] at hz
    exact staging_ne _ _ hz.symm

theorem staged_beneath : s.staging <+: s.staged box :=
  ⟨[box] ++ ["root".toList], by simp [staged]⟩

theorem version_beneath : s.real ++ [s.name] <+: s.versionDir version :=
  ⟨[s.major] ++ [version], by simp [versionDir, dir]⟩

/-- `t'` is `t` with the staged tree moved to the version's directory, where there was nothing
or an empty directory, and the directories above it made. -/
structure Moved (s : Shelf) (box version : Name) (t t' : Tree) : Prop where
  staged : t.isDir (s.staged box) = true
  fresh : t.node (s.versionDir version) = none ∨
    t.isDir (s.versionDir version) = true ∧ t.childless (s.versionDir version) = true
  content : ∀ q, t'.node (s.versionDir version ++ q) = t.node (s.staged box ++ q)
  gone : ∀ q, t'.node (s.staged box ++ q) = none
  other : ∀ q, ¬ s.versionDir version <+: q → ¬ s.staged box <+: q →
    t'.node q = t.node q ∨
      (t.node q = none ∧ t'.isDir q = true ∧ (q = s.real ++ [s.name] ∨ q = s.dir))
  dir : t'.isDir s.dir = true

namespace Moved

/-- A move in the tree in which the directories are made. -/
theorem of_made (hmade : s.Made t t') (hstaged : t.isDir (s.staged box) = true)
    (hdir : t'.isDir s.dir = true)
    (hfree : t'.node (s.versionDir version) = none ∨
      t'.isDir (s.versionDir version) = true ∧ t'.childless (s.versionDir version) = true)
    (hmove : ∀ q, t''.node q = (movedFrom (s.staged box) (s.versionDir version) q).bind t'.node) :
    s.Moved box version t t'' := by
  have hversion : ∀ q, s.versionDir version ++ q ≠ s.real ++ [s.name] ∧
      s.versionDir version ++ q ≠ s.dir := by
    refine fun q => ⟨fun h => ?_, fun h => ?_⟩
    · have := congrArg List.length h
      simp [versionDir, Shelf.dir] at this
    · have := congrArg List.length h
      simp [versionDir] at this
  have hkeep : ∀ q, t'.node (s.versionDir version ++ q) = t.node (s.versionDir version ++ q) :=
    fun q => hmade.other (hversion q).1 (hversion q).2
  have hstage : ∀ q, t'.node (s.staged box ++ q) = t.node (s.staged box ++ q) := by
    intro q
    have hsplit : s.staged box ++ q = s.staging ++ ([box] ++ ["root".toList] ++ q) := by
      simp [Shelf.staged]
    rw [hsplit]
    refine hmade.other (fun h => staging_ne _ [] (h.trans (by simp))) fun h => ?_
    exact staging_ne _ [s.major] h
  have hnil : t'.node (s.versionDir version) = t.node (s.versionDir version) := by
    simpa using hkeep []
  have hchild : t'.childless (s.versionDir version) = true →
      t.childless (s.versionDir version) = true := fun h =>
    childless_iff.mpr fun n => (hkeep [n]).symm.trans (childless_iff.mp h n)
  have hup : ∀ q, s.real ++ [s.name] <+: q → ¬ s.staged box <+: q := fun q hq =>
    (staging_apart staged_beneath hq).1
  refine ⟨hstaged, ?_, fun q => ?_, fun q => ?_, fun q hF hS => ?_, ?_⟩
  · rcases hfree with hfree | hfree
    · exact .inl (hnil ▸ hfree)
    · refine .inr ⟨?_, hchild hfree.2⟩
      rw [Tree.isDir, ← hnil]
      exact hfree.1
  · rw [hmove, movedFrom, if_pos (List.prefix_append _ _), List.drop_left, Option.bind_some]
    exact hstage q
  · have hF : ¬ s.versionDir version <+: s.staged box ++ q :=
      (staging_apart (staged_beneath.trans (List.prefix_append _ q)) version_beneath).2
    rw [hmove, movedFrom, if_neg hF, if_pos (List.prefix_append _ _), Option.bind_none]
  · rw [hmove, movedFrom, if_neg hF, if_neg hS, Option.bind_some]
    rcases hmade q with hkept | hnew
    · exact .inl hkept
    · refine .inr ⟨hnew.1, ?_, hnew.2.2⟩
      rw [Tree.isDir, hmove, movedFrom, if_neg hF, if_neg hS, Option.bind_some]
      exact hnew.2.1
  · have hF : ¬ s.versionDir version <+: s.dir := fun h => by
      have := h.length_le
      simp only [versionDir, List.length_append, List.length_singleton] at this
      omega
    rw [Tree.isDir, hmove, movedFrom, if_neg hF, if_neg (hup s.dir ⟨[s.major], rfl⟩),
      Option.bind_some]
    exact hdir

/-- The layout is kept: what is found on the way to the major's directory is found again. -/
theorem fits (h : s.Moved box version t t') (hfit : s.Fits t) : s.Fits t' := by
  have hunlinked : ∀ {q}, q <+: s.dir → s.real ++ [s.name] <+: q →
      (∀ target, t.node q ≠ some (.symlink target)) →
      ∀ target, t'.node q ≠ some (.symlink target) := by
    intro q hq hname hlink target hnode
    have hF : ¬ s.versionDir version <+: q := fun hF => by
      have := (hF.trans hq).length_le
      simp only [versionDir, List.length_append, List.length_singleton] at this
      omega
    rcases h.other q hF (staging_apart staged_beneath hname).1 with heq | ⟨-, hdir, -⟩
    · exact hlink target (heq ▸ hnode)
    · simp [Tree.isDir, hnode, Node.isDir] at hdir
  refine hfit.of_beside (fun q hq => ?_) ?_ ?_
  · have hF : ¬ s.versionDir version <+: q := fun hF => hq.2 (version_beneath.trans hF)
    rcases h.other q hF (fun hS => hq.1 (staged_beneath.trans hS)) with heq | ⟨-, -, rfl | rfl⟩
    · exact heq
    · exact absurd (List.prefix_refl _) hq.2
    · exact absurd ⟨[s.major], rfl⟩ hq.2
  · exact hunlinked ⟨[s.major], rfl⟩ (List.prefix_refl _) hfit.name
  · exact hunlinked (List.prefix_refl _) ⟨[s.major], rfl⟩ hfit.major

end Moved

theorem wp_pathExists {ε : Type} {E : ε → Disk → Prop} {p : Path} {Q : Bool → Disk → Prop}
    {d : Disk} (h : ∀ b d', Kept d d' → Q b d') : wp (Io.pathExists p) Q E d := by
  rw [Io.pathExists, wp_bind, wp_attempt, Io.stat]
  exact wp_query (fun _ d' hk _ => h true d' hk) fun _ d' hk _ => h false d' hk

/-- **The rename to the version's directory moves the whole staged tree, or nothing.** -/
theorem wp_installDir {d : Disk} (hfit : s.Fits d.tree) (hbox : special box = false)
    (hversion : special version = false) (hstaged : d.tree.isDir (s.staged box) = true) :
    wp (installDir (s.stagedPath box) (s.root.packageDir s.name s.major version) s.name version)
      (fun _ d' => s.Moved box version d.tree d'.tree)
      (fun _ d' => s.Made d.tree d'.tree) d := by
  rw [installDir, wp_bind]
  refine wp_pathExists fun there d₁ hk => ?_
  have hkept : s.Made d.tree d₁.tree := hk.tree ▸ Made.refl s _
  split
  next => exact hkept
  next =>
    rw [wp_bind]
    refine wp_mono (wp_ensureParent (hk.tree ▸ hfit) version) (fun _ d₂ h₂ => ?_)
      fun _ d₂ h₂ => hkept.trans h₂
    obtain ⟨hmade, hdir⟩ := h₂
    rw [hk.tree] at hmade
    have hfit₂ := hfit.made hmade
    have hstaged₂ : d₂.tree.isDir (s.staged box) = true := hmade.grows.isDir hstaged
    have hbox_dir : d₂.tree.isDir (s.staging ++ [box]) = true :=
      isDir_above (List.prefix_append _ _) hstaged₂
    have hstaging : d₂.tree.isDir s.staging = true := isDir_above (List.prefix_append _ _) hbox_dir
    have hbox_leads : d₂.tree.Leads (s.root.stagingRoot ++ [box]) (s.staging ++ [box]) :=
      (hfit₂.leads_root.child (by decide) hstaging).child hbox hbox_dir
    have hleads : d₂.tree.Leads s.path s.dir := hfit₂.leads_path hdir
    have hne : s.staged box ≠ s.versionDir version := fun heq => by
      have hpre : s.staged box <+: s.versionDir version := heq ▸ List.prefix_refl _
      exact (staging_apart staged_beneath version_beneath).1 hpre
    rw [wp_bind, wp_attempt, Io.rename]
    refine wp_update (fun d₃ hrename _ _ => ?_) fun e d₃ hk₃ _ => ?_
    · obtain ⟨hcan, htree, hfree⟩ :=
        hbox_leads.rename_dir (by decide) hversion hleads hstaged₂ hne hrename
      refine .of_made hmade hstaged hdir hfree fun q => ?_
      rw [htree]
      exact node_move hcan q
    · have hfailed : s.Made d.tree d₃.tree := hk₃.tree ▸ hmade
      dsimp only
      split
      next => exact hfailed
      next => exact hfailed

end Shelf

/-! ### The `current` link -/

section Current

variable {t t' : Tree} {p r : Path} {version n : Name} {pid seq : Nat} {d : Disk}

theorem leading_append {lead a : List Char} (m n b : List Char) (h : lead = '.' :: 'c' :: a) :
    lead ++ m ++ '.' :: n ++ b = '.' :: 'c' :: (a ++ m ++ '.' :: n ++ b) := by
  subst h
  simp only [List.cons_append]

theorem leading_current : ".current.".toList = '.' :: 'c' :: "urrent.".toList := by decide

theorem swapName_cons (pid seq : Nat) : ∃ rest, swapName pid seq = '.' :: 'c' :: rest :=
  ⟨_, leading_append _ _ _ leading_current⟩

theorem special_swapName (pid seq : Nat) : special (swapName pid seq) = false := by
  obtain ⟨rest, hrest⟩ := swapName_cons pid seq
  rw [hrest]
  rfl

theorem swapName_ne (pid seq : Nat) : swapName pid seq ≠ "current".toList := by
  obtain ⟨rest, hrest⟩ := swapName_cons pid seq
  have hlead : "current".toList = 'c' :: "urrent".toList := by decide
  rw [hrest, hlead]
  intro h
  cases (List.cons.inj h).1

theorem ne_swapName {v : Name} (pid seq : Nat) (h : validateComponent v = .ok ()) :
    v ≠ swapName pid seq := by
  obtain ⟨rest, hrest⟩ := swapName_cons pid seq
  exact fun heq => ne_hidden _ h (heq.trans hrest)

/-- What `current` may be for the link to be swung. -/
def Swings (x : Option Node) : Prop := ∀ y, x = some y → y.isSymlink = true

/-- The new link was made, and neither renamed nor removed. -/
def Residue (tmp : Path) (version : Name) (t t' : Tree) : Prop :=
  t.node tmp = none ∧ Sets tmp (.symlink version) t t'

/-- What an unsuccessful swap leaves. -/
def Unswung (tmp : Path) (version : Name) (d d' : Disk) : Prop :=
  Same d.tree d'.tree ∨ (d.faults ≠ [] ∧ Residue tmp version d.tree d'.tree)

/-- **The link is swung in one step**, or at most the new link is left beside it. -/
theorem wp_swapCurrent (hl : d.tree.Leads p r) :
    wp (swapCurrent (p ++ [swapName pid seq]) (p ++ ["current".toList]) version)
      (fun _ d' => Sets (r ++ ["current".toList]) (.symlink version) d.tree d'.tree)
      (fun _ d' => Unswung (r ++ [swapName pid seq]) version d d') d := by
  have hspecial := special_swapName pid seq
  rw [swapCurrent, wp_bind, wp_mapErr, Io.symlink]
  refine wp_update (fun d₁ hlink _ hquiet => ?_) fun e d₁ hk _ => .inl fun q => by rw [hk.tree]
  obtain ⟨r', hr, -, hvacant, hset⟩ := symlink_ok hspecial hlink
  obtain rfl : r = r' := Except.ok.inj (hl.resolve.symm.trans hr)
  have hl₁ : d₁.tree.Leads p r := hl.grows (hset.grows hvacant)
  rw [wp_bind, wp_attempt, Io.rename]
  refine wp_update (fun d₂ hrename _ _ q => ?_) fun e d₂ hk₂ _ => ?_
  · rw [rename_over hspecial (by decide) (swapName_ne pid seq) hl₁.resolve hl₁.dir hset.at rfl
      hrename q]
    split
    next => rfl
    next =>
      split
      next hq => rw [hq, hvacant]
      next hq => exact hset.other hq
  · have hset₂ : Sets (r ++ [swapName pid seq]) (.symlink version) d.tree d₂.tree := hk₂.tree ▸ hset
    have hl₂ : d₂.tree.Leads p r := hk₂.tree ▸ hl₁
    dsimp only
    rw [wp_bind, wp_attempt]
    refine wp_removeFile hspecial hl₂.resolve (fun d₃ hgone htrim => .inl fun q => ?_)
      fun e d₃ hk₃ he => .inr ⟨fun hnone => ?_, hvacant, hk₃.tree ▸ hset₂⟩
    · by_cases hq : q = r ++ [swapName pid seq]
      · rw [hq, hgone, hvacant]
      · rw [htrim.outside hq, hset₂.other hq]
    · -- without a fault the new link can be removed
      obtain ⟨t', hremove, -⟩ := hl₂.removeFile hspecial hset₂.at rfl
      have herr := he.own (.inl (hk₂.faults (hquiet hnone)))
      rw [hremove] at herr
      cases herr

/-- **`current` is only ever set where it was free or a link.** -/
theorem wp_updateCurrent (hl : d.tree.Leads p r) :
    wp (updateCurrent pid seq (p ++ ["current".toList]) version)
      (fun _ d' => Swings (d.tree.node (r ++ ["current".toList])) ∧
        Sets (r ++ ["current".toList]) (.symlink version) d.tree d'.tree)
      (fun _ d' => Unswung (r ++ [swapName pid seq]) version d d') d := by
  have hlstat := lstat_concat (n := "current".toList) (by decide) hl.resolve hl.dir
  have hswap : ∀ {d₁ : Disk}, Kept d d₁ → Swings (d.tree.node (r ++ ["current".toList])) →
      wp (swapCurrent (p ++ [swapName pid seq]) (p ++ ["current".toList]) version)
        (fun _ d' => Swings (d.tree.node (r ++ ["current".toList])) ∧
          Sets (r ++ ["current".toList]) (.symlink version) d.tree d'.tree)
        (fun _ d' => Unswung (r ++ [swapName pid seq]) version d d') d₁ := by
    intro d₁ hk hswings
    have hl₁ : d₁.tree.Leads p r := hk.tree ▸ hl
    refine wp_mono (wp_swapCurrent hl₁) (fun _ d₂ hset => ⟨hswings, hk.tree ▸ hset⟩)
      fun _ d₂ hleft => ?_
    rcases hleft with hsame | ⟨hfaults, hresidue⟩
    · exact .inl (hk.tree ▸ hsame)
    · exact .inr ⟨fun hnone => hfaults (hk.faults hnone), hk.tree ▸ hresidue⟩
  have hempty : (p ++ ["current".toList]).isEmpty = false := by simp
  rw [updateCurrent, hempty, if_neg (by simp), List.dropLast_concat, wp_bind, wp_attempt, Io.lstat]
  refine wp_query (fun x d₁ hk hx => ?_) fun e d₁ hk he => ?_
  · have hnode : d.tree.node (r ++ ["current".toList]) = some x := by
      rw [hlstat] at hx
      cases hy : d.tree.node (r ++ ["current".toList]) with
      | none =>
          rw [hy] at hx
          cases hx
      | some y =>
          rw [hy] at hx
          exact congrArg some (Except.ok.inj hx)
    dsimp only
    split
    next hlink =>
      refine hswap hk fun y hy => ?_
      rw [hnode] at hy
      cases hy
      exact hlink
    next => exact .inl fun q => by rw [hk.tree]
  · have hunchanged : Unswung (r ++ [swapName pid seq]) version d d₁ :=
      .inl fun q => by rw [hk.tree]
    cases e with
    | notFound =>
        refine hswap hk fun y hy => ?_
        have hown := he.own (.inr fun code hcode => by cases hcode)
        rw [hlstat, hy] at hown
        cases hown
    | _ => exact hunchanged

end Current

/-! ### What is selected -/

theorem currentVersion_congr {t t' : Tree} {p : Path} (h : t'.found p = t.found p) :
    currentVersion t' p = currentVersion t p := by
  unfold Tree.found at h
  unfold currentVersion
  cases hx : t.lstat p with
  | error e =>
      cases hx' : t'.lstat p with
      | error e' => rfl
      | ok x' => simp [hx, hx', Except.toOption] at h
  | ok x =>
      cases hx' : t'.lstat p with
      | error e' => simp [hx, hx', Except.toOption] at h
      | ok x' =>
          obtain rfl : x' = x := by simpa [hx, hx', Except.toOption] using h
          rfl

/-- A link whose target is one plain name selects it. -/
theorem currentVersion_of_found {t : Tree} {p : Path} {version : Name} (hname : OneName version)
    (h : t.found p = some (.symlink version)) : currentVersion t p = some version := by
  obtain ⟨hslash, hspecial⟩ := hname
  obtain ⟨-, hdot, hdots⟩ := special_eq_false.mp hspecial
  have hlstat : t.lstat p = .ok (.symlink version) := by
    unfold Tree.found at h
    cases hx : t.lstat p with
    | error e => simp [hx, Except.toOption] at h
    | ok x => simpa [hx, Except.toOption] using h
  have habs : isAbsolute version = false := by
    cases version with
    | nil => rfl
    | cons c rest =>
        have hc : c ≠ '/' := fun hc => hslash (hc ▸ List.mem_cons_self)
        simpa [isAbsolute] using hc
  have hsplit : splitPath version = [version] := List.splitOn_eq_singleton hslash
  unfold currentVersion
  rw [hlstat]
  simp only [habs, hsplit, Conf.components_oneName ⟨hslash, hspecial⟩]
  simp [hdot, hdots]

namespace Shelf

variable {s : Shelf} {t t' : Tree} {version : Name}

/-- The link is found where the layout has it. -/
theorem found_current (h : s.Fits t) :
    t.found (s.root.currentLink s.name s.major) = t.node s.current := by
  have hspecial : special "current".toList = false := by decide
  show t.found (s.path ++ ["current".toList]) = t.node (s.dir ++ ["current".toList])
  cases hd : t.isDir s.dir with
  | true => exact (h.leads_path hd).found hspecial
  | false =>
      rw [node_below (by simp) hd]
      cases hx : t.found (s.path ++ ["current".toList]) with
      | none => rfl
      | some x =>
          obtain ⟨r, hl, -⟩ := leads_of_found hspecial hx
          obtain rfl := h.resolve_path hl.resolve
          rw [hl.dir] at hd
          cases hd

theorem selected_eq (s : Shelf) (t : Tree) : s.selected t =
    (currentVersion t (s.root.currentLink s.name s.major)).map fun version =>
      ⟨version, s.root.packageDir s.name s.major version⟩ := by
  unfold selected currentInstall
  cases currentVersion t (s.root.currentLink s.name s.major) with
  | none => rfl
  | some version =>
      have hdrop : (s.root.packageDir s.name s.major version).dropLast =
          s.root.majorDir s.name s.major := by
        rw [PackagesRoot.packageDir, List.dropLast_concat]
      simp [hdrop]

/-- The selection is what the node at `current` says. -/
theorem selected_congr (h : s.Fits t) (h' : s.Fits t')
    (heq : t'.node s.current = t.node s.current) : s.selected t' = s.selected t := by
  rw [selected_eq, selected_eq, currentVersion_congr]
  rw [found_current h', found_current h, heq]

theorem selected_of_link (h : s.Fits t) (hversion : validateComponent version = .ok ())
    (hlink : t.node s.current = some (.symlink version)) :
    s.selected t = some ⟨version, s.root.packageDir s.name s.major version⟩ := by
  rw [selected_eq, currentVersion_of_found (oneName_of_component hversion)
    ((found_current h).trans hlink), Option.map_some]

/-! ### One publication -/

/-- The version's directory has exactly what was staged, and nothing else is different, but for
`hole` and the directories above the version. -/
structure Carried (s : Shelf) (box version : Name) (hole : Path) (t t' : Tree) : Prop where
  accepted : validateComponent version = .ok ()
  fresh : t.node (s.versionDir version) = none ∨
    t.isDir (s.versionDir version) = true ∧ t.childless (s.versionDir version) = true
  content : ∀ q, t'.node (s.versionDir version ++ q) = t.node (s.staged box ++ q)
  gone : ∀ q, t'.node (s.staged box ++ q) = none
  other : ∀ q, ¬ s.versionDir version <+: q → ¬ s.staged box <+: q → q ≠ hole →
    t'.node q = t.node q ∨
      (t.node q = none ∧ t'.isDir q = true ∧ (q = s.real ++ [s.name] ∨ q = s.dir))

/-- The temporary link of a swap. -/
def tmp (s : Shelf) (pid seq : Nat) : Path := s.dir ++ [swapName pid seq]

variable {t'' : Tree} {box n : Name}

theorem entry_outside (s : Shelf) (box : Name) (hn : n ≠ version) :
    ¬ s.versionDir version <+: s.dir ++ [n] ∧ ¬ s.staged box <+: s.dir ++ [n] := by
  constructor
  · intro h
    have heq := h.eq_of_length (by simp [versionDir])
    exact hn (List.cons.inj (List.append_cancel_left heq)).1.symm
  · exact (staging_apart staged_beneath ⟨[s.major] ++ [n], by simp [dir]⟩).1

theorem entry_ne (s : Shelf) (n : Name) :
    s.dir ++ [n] ≠ s.real ++ [s.name] ∧ s.dir ++ [n] ≠ s.dir := by
  constructor
  · intro h
    have := congrArg List.length h
    simp [dir] at this
  · intro h
    have := congrArg List.length h
    simp at this

/-- The other entries of the major's directory are where they were. -/
theorem Moved.entry (h : s.Moved box version t t') (hn : n ≠ version) :
    t'.node (s.dir ++ [n]) = t.node (s.dir ++ [n]) := by
  obtain ⟨hF, hS⟩ := entry_outside s box hn
  rcases h.other _ hF hS with heq | ⟨-, -, heq | heq⟩
  · exact heq
  · exact absurd heq (entry_ne s n).1
  · exact absurd heq (entry_ne s n).2

/-- What is changed beside the version after the move changes nothing that was moved. -/
theorem Moved.carried (h : s.Moved box version t t')
    (hversion : validateComponent version = .ok ()) (hn : n ≠ version)
    (hrest : ∀ q, q ≠ s.dir ++ [n] → t''.node q = t'.node q) :
    s.Carried box version (s.dir ++ [n]) t t'' := by
  obtain ⟨hF, hS⟩ := entry_outside s box hn
  refine ⟨hversion, h.fresh, fun q => ?_, fun q => ?_, fun q hq hq' hhole => ?_⟩
  · rw [hrest _ fun heq => hF ⟨q, heq⟩, h.content]
  · rw [hrest _ fun heq => hS ⟨q, heq⟩, h.gone]
  · have hsame := hrest q hhole
    refine (h.other q hq hq').imp (hsame.trans ·) fun ⟨hnone, hdir, hwhere⟩ => ⟨hnone, ?_, hwhere⟩
    rwa [Tree.isDir, hsame]

/-- An entry of the major's directory is no part of the layout. -/
theorem Fits.entry (h : s.Fits t) (hrest : ∀ q, q ≠ s.dir ++ [n] → t'.node q = t.node q) :
    s.Fits t' := by
  refine h.of_beside (fun q hq => hrest q ?_) ?_ ?_
  · rintro rfl
    exact hq.2 ⟨[s.major] ++ [n], by simp [dir]⟩
  · rw [hrest _ (entry_ne s n).1.symm]
    exact h.name
  · rw [hrest _ (entry_ne s n).2.symm]
    exact h.major

/-- What a publication that fails leaves: what was there, or the version in its place and not
selected, perhaps with a temporary link that a second fault left. -/
structure Unpublished (s : Shelf) (box version : Name) (tmp : Path) (d d' : Disk) : Prop where
  fits : s.Fits d'.tree
  selected : s.selected d'.tree = s.selected d.tree
  tree : s.Made d.tree d'.tree ∨ (s.Carried box version tmp d.tree d'.tree ∧
    (d'.tree.node tmp = d.tree.node tmp ∨ (d.faults ≠ [] ∧ d.tree.node tmp = none ∧
      d'.tree.node tmp = some (.symlink version))))

/-- What a publication that goes through leaves. -/
structure Published (s : Shelf) (box version : Name) (t t' : Tree) : Prop where
  fits : s.Fits t'
  selected : s.selected t' = some ⟨version, s.root.packageDir s.name s.major version⟩
  carried : s.Carried box version s.current t t'

theorem quiet_installDir (staged finalDir : Path) (name version : Str) :
    Quiet (installDir staged finalDir name version) := by
  refine .bind (.bind (.attempt (.query (·.stat finalDir))) fun r => ?_) fun there => ?_
  · cases r with
    | ok x => exact .pure _
    | error e => exact .pure _
  · split
    · exact .fail _
    · refine .bind ?_ fun _ => .bind (.attempt (.update [] _)) fun r => ?_
      · unfold ensureParent createDir
        split
        · exact .pure _
        · exact .mapErr (.createDirAllUp _)
      · cases r with
        | ok u => exact .pure _
        | error e =>
            dsimp only
            split
            · exact .fail _
            · exact .fail _

theorem wp_quiet {ε α : Type} {x : Io ε α} (h : Quiet x) (d : Disk) :
    wp x (fun _ d' => d.faults = [] → d'.faults = [])
      (fun _ d' => d.faults = [] → d'.faults = []) d := by
  by_cases hd : d.faults = []
  · exact wp_mono (h d hd) (fun _ _ hd' _ => hd') fun _ _ hd' _ => hd'
  · exact wp_mono (wp_true x d) (fun _ _ _ hd' => absurd hd' hd) fun _ _ _ hd' => absurd hd' hd

/-- **What a publication leaves**, whether it goes through or fails. -/
theorem wp_publish (s : Shelf) (box version : Name) (pid seq : Nat) (d : Disk)
    (hfit : s.Fits d.tree) (hbox : special box = false)
    (hstaged : d.tree.isDir (s.staged box) = true) (hcurrent : version ≠ "current".toList) :
    wp (publish s.root s.name s.major version (s.stagedPath box) pid seq)
      (fun package d' => package.dir = s.root.packageDir s.name s.major version ∧
        s.Published box version d.tree d'.tree)
      (fun _ d' => s.Unpublished box version (s.tmp pid seq) d d') d := by
  have hunchanged : s.Unpublished box version (s.tmp pid seq) d d :=
    ⟨hfit, rfl, .inl (Made.refl s _)⟩
  rw [publish, s.name_ok, s.major_ok]
  simp only [wp_bind, wp_ofExcept]
  cases hversion : validateComponent version with
  | error e => exact hunchanged
  | ok u =>
      have hspecial : special version = false := (oneName_of_component hversion).2
      have hswap : swapName pid seq ≠ version := (ne_swapName pid seq hversion).symm
      dsimp only
      refine wp_mono (wp_both (wp_installDir hfit hbox hspecial hstaged)
        (wp_quiet (quiet_installDir _ _ _ _) d)) (fun _ d₁ h₁ => ?_) fun e d₁ h₁ => ?_
      · obtain ⟨hmoved, hquiet⟩ := h₁
        have hfit₁ := hmoved.fits hfit
        have hselected : s.selected d₁.tree = s.selected d.tree :=
          selected_congr hfit hfit₁ (hmoved.entry hcurrent.symm)
        refine wp_mono (wp_updateCurrent (hfit₁.leads_path hmoved.dir)) (fun _ d₂ h₂ => ?_)
          fun e d₂ h₂ => ?_
        · have hrest : ∀ q, q ≠ s.dir ++ ["current".toList] → d₂.tree.node q = d₁.tree.node q :=
            fun q hq => h₂.2.other hq
          have hfit₂ := hfit₁.entry hrest
          exact ⟨rfl, hfit₂, selected_of_link hfit₂ hversion h₂.2.at,
            hmoved.carried hversion hcurrent.symm hrest⟩
        · have hset : ∀ q, q ≠ s.dir ++ [swapName pid seq] → d₂.tree.node q = d₁.tree.node q := by
            intro q hq
            rcases h₂ with hsame | ⟨-, -, hset⟩
            · exact hsame q
            · exact hset.other hq
          have hcur : s.current ≠ s.dir ++ [swapName pid seq] := fun heq =>
            swapName_ne pid seq (List.cons.inj (List.append_cancel_left heq)).1.symm
          have hfit₂ := hfit₁.entry hset
          have htmp := hmoved.entry hswap
          refine ⟨hfit₂, (selected_congr hfit₁ hfit₂ (hset _ hcur)).trans hselected,
            .inr ⟨hmoved.carried hversion hswap hset, ?_⟩⟩
          rcases h₂ with hsame | ⟨hfaults, hvacant, hset⟩
          · exact .inl ((hsame _).trans htmp)
          · exact .inr ⟨fun hnone => hfaults (hquiet hnone), htmp ▸ hvacant, hset.at⟩
      · have hfit₁ := hfit.made h₁.1
        obtain ⟨hname, hdir⟩ := entry_ne s "current".toList
        exact ⟨hfit₁, selected_congr hfit hfit₁ (h₁.1.other hname hdir), .inl h₁.1⟩

theorem beneath_ne (s : Shelf) (v : Name) (q : Path) :
    s.versionDir v ++ q ≠ s.real ++ [s.name] ∧ s.versionDir v ++ q ≠ s.dir := by
  constructor
  · intro h
    have := congrArg List.length h
    simp [versionDir, dir] at this
  · intro h
    have := congrArg List.length h
    simp [versionDir] at this

theorem Made.beneath (h : s.Made t t') (v : Name) (q : Path) :
    t'.node (s.versionDir v ++ q) = t.node (s.versionDir v ++ q) :=
  h.other (beneath_ne s v q).1 (beneath_ne s v q).2

/-- The directories of the other versions are as they were. -/
theorem Carried.beneath {v : Name} (h : s.Carried box version (s.dir ++ [n]) t t')
    (hv : v ≠ version) (hn : v ≠ n) (q : Path) :
    t'.node (s.versionDir v ++ q) = t.node (s.versionDir v ++ q) := by
  have hhead : ∀ {m : Name} {z : Path}, s.versionDir v ++ q = s.dir ++ [m] ++ z → v = m := by
    intro m z heq
    simp only [versionDir, List.append_assoc, List.append_cancel_left_eq] at heq
    exact (List.cons.inj heq).1
  have hF : ¬ s.versionDir version <+: s.versionDir v ++ q := by
    rintro ⟨z, hz⟩
    exact hv (hhead hz.symm)
  have hS : ¬ s.staged box <+: s.versionDir v ++ q :=
    (staging_apart staged_beneath (version_beneath.trans (List.prefix_append _ q))).1
  have hhole : s.versionDir v ++ q ≠ s.dir ++ [n] := fun heq =>
    hn (hhead (z := []) (by rw [heq, List.append_nil]))
  rcases h.other _ hF hS hhole with heq | ⟨-, -, heq | heq⟩
  · exact heq
  · exact absurd heq (beneath_ne s v q).1
  · exact absurd heq (beneath_ne s v q).2

/-- The directories of the other versions are as they were. -/
def OthersKept (s : Shelf) (version : Name) (t t' : Tree) : Prop :=
  ∀ v, validateComponent v = .ok () → v ≠ version → v ≠ "current".toList →
    ∀ q, t'.node (s.versionDir v ++ q) = t.node (s.versionDir v ++ q)

theorem Carried.others (h : s.Carried box version (s.dir ++ [n]) t t')
    (hn : ∀ v, validateComponent v = .ok () → v ≠ "current".toList → v ≠ n) :
    s.OthersKept version t t' :=
  fun v hv hne hcur q => h.beneath hne (hn v hv hcur) q

/-- Where the staged tree came, there was nothing to lose. -/
theorem Carried.vacant {hole : Path} (h : s.Carried box version hole t t') (m : Name) :
    t.node (s.versionDir version ++ [m]) = none := by
  rcases h.fresh with hnone | ⟨-, hempty⟩
  · exact node_below (by simp) (by rw [Tree.isDir, hnone]; rfl)
  · exact childless_iff.mp hempty m

/-- **A publication is all or nothing.** One that goes through selects the version, and its
directory, in which there was nothing, has exactly the staged tree. One that fails leaves the
selection as it was, and of the version either what was there or the whole tree. No other
version is touched either way. -/
theorem publish_atomic (s : Shelf) (box version : Name) (pid seq : Nat) (d : Disk)
    (hfit : s.Fits d.tree) (hbox : special box = false)
    (hstaged : d.tree.isDir (s.staged box) = true) (hcurrent : version ≠ "current".toList) :
    wp (publish s.root s.name s.major version (s.stagedPath box) pid seq)
      (fun package d' => s.selected d'.tree = some ⟨version, package.dir⟩ ∧
        (∀ n, d.tree.node (s.versionDir version ++ [n]) = none) ∧
        (∀ q, d'.tree.node (s.versionDir version ++ q) = d.tree.node (s.staged box ++ q)) ∧
        s.OthersKept version d.tree d'.tree)
      (fun _ d' => s.selected d'.tree = s.selected d.tree ∧
        ((∀ q, d'.tree.node (s.versionDir version ++ q) =
            d.tree.node (s.versionDir version ++ q)) ∨
          (∀ n, d.tree.node (s.versionDir version ++ [n]) = none) ∧
          ∀ q, d'.tree.node (s.versionDir version ++ q) = d.tree.node (s.staged box ++ q)) ∧
        s.OthersKept version d.tree d'.tree) d := by
  refine wp_mono (wp_publish s box version pid seq d hfit hbox hstaged hcurrent)
    (fun package d' h => ?_) fun _ d' h => ?_
  · obtain ⟨hdir, hpub⟩ := h
    have hcarried := hpub.carried
    exact ⟨hdir ▸ hpub.selected, hcarried.vacant, hcarried.content,
      hcarried.others fun v _ hv => hv⟩
  · refine ⟨h.selected, ?_⟩
    rcases h.tree with hmade | ⟨hcarried, -⟩
    · exact ⟨.inl (hmade.beneath version), fun v _ _ _ => hmade.beneath v⟩
    · exact ⟨.inr ⟨hcarried.vacant, hcarried.content⟩,
        hcarried.others fun v hv _ => ne_swapName pid seq hv⟩

def sampleShelf : Shelf where
  root := ⟨["packages".toList]⟩
  real := ["packages".toList]
  name := "php".toList
  major := "8.4".toList
  name_ok := by decide
  major_ok := by decide

def sampleBox : Name := "ovh1".toList

def sampleVersion : Name := "8.4.1".toList

/-- Nothing is installed yet, and one tree is staged. -/
def sampleTree : Tree := Tree.ofNodes
  [(["packages".toList], .dir none), (sampleShelf.staging, .dir none),
    (sampleShelf.staging ++ [sampleBox], .dir none), (sampleShelf.staged sampleBox, .dir none),
    (sampleShelf.staged sampleBox ++ ["php".toList], .file [1] none)]

theorem sampleTree_fits : sampleShelf.Fits sampleTree where
  leads := ⟨by decide, by decide⟩
  name := by
    have hnone : sampleTree.node (sampleShelf.real ++ [sampleShelf.name]) = none := by decide
    simp [hnone]
  major := by
    have hnone : sampleTree.node sampleShelf.dir = none := by decide
    simp [hnone]

theorem sample_goes_through : ∃ package d',
    publish sampleShelf.root sampleShelf.name sampleShelf.major sampleVersion
      (sampleShelf.stagedPath sampleBox) 7 0 ⟨sampleTree, [], []⟩ = .ok package d' :=
  exists_of_returns (by decide +kernel)

theorem publish_atomic_sample : ∃ package d',
    publish sampleShelf.root sampleShelf.name sampleShelf.major sampleVersion
      (sampleShelf.stagedPath sampleBox) 7 0 ⟨sampleTree, [], []⟩ = .ok package d' ∧
    sampleShelf.selected d'.tree = some ⟨sampleVersion, package.dir⟩ := by
  obtain ⟨package, d', hrun⟩ := sample_goes_through
  have hwp := publish_atomic sampleShelf sampleBox sampleVersion 7 0 ⟨sampleTree, [], []⟩
    sampleTree_fits (by decide) (by decide) (by decide)
  exact ⟨package, d', hrun, (wp_ok hwp hrun).1⟩

/-- **A directory at `current` blocks the major for good**: no publication goes through and none
takes the directory away. One for the version `current`, a name that passes the check, never goes
through either, and what it leaves is such a directory, or nothing of its tree. -/
theorem jammed (s : Shelf) (box version : Name) (pid seq : Nat) (d : Disk) (hfit : s.Fits d.tree)
    (hbox : special box = false) (hstaged : d.tree.isDir (s.staged box) = true)
    (hjam : version = "current".toList ∨ d.tree.isDir s.current = true) :
    wp (publish s.root s.name s.major version (s.stagedPath box) pid seq) (fun _ _ => False)
      (fun _ d' => s.Made d.tree d'.tree ∨ d'.tree.isDir s.current = true) d := by
  rw [publish, s.name_ok, s.major_ok]
  simp only [wp_bind, wp_ofExcept]
  cases hversion : validateComponent version with
  | error e => exact .inl (Made.refl s _)
  | ok u =>
      dsimp only
      refine wp_mono (wp_installDir hfit hbox (oneName_of_component hversion).2 hstaged)
        (fun _ d₁ hmoved => ?_) fun e d₁ hmade => .inl hmade
      have hjam₁ : d₁.tree.isDir s.current = true := by
        by_cases hv : version = "current".toList
        · -- the staged tree itself has come to `current`
          have hnode := hmoved.content []
          rw [List.append_nil, List.append_nil, versionDir, hv] at hnode
          have hdir := hmoved.staged
          rwa [Tree.isDir, ← hnode] at hdir
        · have hnode := hmoved.entry (n := "current".toList) fun heq => hv heq.symm
          rw [Tree.isDir, current, hnode]
          exact hjam.resolve_left hv
      obtain ⟨m, hm⟩ := isDir_iff.mp hjam₁
      refine wp_mono (wp_updateCurrent ((hmoved.fits hfit).leads_path hmoved.dir))
        (fun _ d₂ h₂ => ?_) fun e d₂ h₂ => .inr ?_
      · cases h₂.1 _ hm
      · rcases h₂ with hsame | ⟨-, hvacant, hset⟩
        · exact (hsame.isDir _).trans hjam₁
        · rw [Tree.isDir, hset.other fun heq => ?_]
          · exact hjam₁
          · exact swapName_ne pid seq (List.cons.inj (List.append_cancel_left heq)).1.symm

theorem jammed_sample : ∃ e d',
    publish sampleShelf.root sampleShelf.name sampleShelf.major "current".toList
      (sampleShelf.stagedPath sampleBox) 7 0 ⟨sampleTree, [], []⟩ = .error e d' ∧
    (sampleShelf.Made sampleTree d'.tree ∨ d'.tree.isDir sampleShelf.current = true) := by
  have hwp := jammed sampleShelf sampleBox "current".toList 7 0 ⟨sampleTree, [], []⟩
    sampleTree_fits (by decide) (by decide) (.inl rfl)
  cases hrun : publish sampleShelf.root sampleShelf.name sampleShelf.major "current".toList
      (sampleShelf.stagedPath sampleBox) 7 0 ⟨sampleTree, [], []⟩ with
  | ok package d' => exact (wp_ok hwp hrun).elim
  | error e d' => exact ⟨e, d', rfl, wp_error hwp hrun⟩

/-! ### Runs -/

/-- A request whose tree is extracted, and the faults that its publication will meet. -/
structure Job where
  version : Name
  box : Name
  pid : Nat
  seq : Nat
  faults : List (Option Fault)

/-- The tree; what was selected at the start; the versions whose publication went through, the
last one first; and what was staged for each version that was put in its place. -/
structure Shop where
  tree : Tree
  first : Option PackagedInstall
  went : List Name
  placed : List (Name × (Path → Option Node))

/-- Something outside the major's directory changes, or a version is published. -/
inductive Event where
  | outside (t : Tree)
  | publish (job : Job)

def Job.run (s : Shelf) (job : Job) (t : Tree) : EStateM.Result PkgError Disk InstalledPackage :=
  Pkg.publish s.root s.name s.major job.version (s.stagedPath job.box) job.pid job.seq
    ⟨t, job.faults, []⟩

/-- A staged tree that is gone was put in the version's place. -/
def Shop.place (s : Shelf) (w : Shop) (job : Job) (t : Tree) : Shop :=
  if t.isDir (s.staged job.box) then { w with tree := t }
  else { w with
    tree := t
    placed := (job.version, fun q => w.tree.node (s.staged job.box ++ q)) :: w.placed }

def Shop.next (s : Shelf) (w : Shop) : Event → Option Shop
  | .outside t => some { w with tree := t }
  | .publish job =>
      match job.run s w.tree with
      | .ok _ d => some { w.place s job d.tree with went := job.version :: w.went }
      | .error _ d => some (w.place s job d.tree)

/-- The installations of one major. -/
def system (s : Shelf) : Lts.System Shop Event where
  init w := s.Fits w.tree ∧ w.first = s.selected w.tree ∧ w.went = [] ∧ w.placed = []
  next := Shop.next s

/-- **The condition**: only publications write into the major's directory, each with a tree
that is staged and a version other than `current`. Discovery reads the link, so that anyone
else who writes there could relink it, and a version of that name would sit in its place.
What others write elsewhere keeps the root where it leads and the way to the major's
directory free of links. -/
def Orderly (s : Shelf) (w : Shop) : Event → Prop
  | .outside t => s.Fits t ∧ ∀ q, s.dir <+: q → t.node q = w.tree.node q
  | .publish job => special job.box = false ∧ w.tree.isDir (s.staged job.box) = true ∧
      job.version ≠ "current".toList

/-- Each version's directory holds what was staged for it. -/
def Holds (s : Shelf) (w : Shop) : Prop :=
  ∀ v content, w.placed.lookup v = some content → validateComponent v = .ok () ∧
    v ≠ "current".toList ∧ ∀ q, w.tree.node (s.versionDir v ++ q) = content q

/-- What every event keeps. -/
structure Intact (s : Shelf) (w : Shop) : Prop where
  fits : s.Fits w.tree
  selected : s.selected w.tree = match w.went with
    | [] => w.first
    | version :: _ => some ⟨version, s.root.packageDir s.name s.major version⟩
  went : ∀ v ∈ w.went, (w.placed.lookup v).isSome = true
  holds : s.Holds w

theorem Carried.isDir_staged {hole : Path} (h : s.Carried box version hole t t') :
    t'.isDir (s.staged box) = false := by
  have hnone := h.gone []
  rw [List.append_nil] at hnone
  rw [Tree.isDir, hnone]
  rfl

/-- **What a publication does to the versions**: nothing, or it puts one in its place. -/
theorem Holds.place {w : Shop} {job : Job} {t : Tree} (h : s.Holds w)
    (hstaged : w.tree.isDir (s.staged job.box) = true) (hcurrent : job.version ≠ "current".toList)
    (hrun : s.Made w.tree t ∨ ∃ n, s.Carried job.box job.version (s.dir ++ [n]) w.tree t ∧
      ∀ v, validateComponent v = .ok () → v ≠ "current".toList → v ≠ n) :
    s.Holds (w.place s job t) := by
  unfold Shop.place
  rcases hrun with hmade | ⟨n, hcarried, hfree⟩
  · rw [if_pos (hmade.grows.isDir hstaged)]
    intro v content hlookup
    obtain ⟨hv, hne, hnode⟩ := h v content hlookup
    exact ⟨hv, hne, fun q => (hmade.beneath v q).trans (hnode q)⟩
  · rw [hcarried.isDir_staged, if_neg (by simp)]
    intro v content hlookup
    by_cases hv : v = job.version
    · subst hv
      obtain rfl : (fun q => w.tree.node (s.staged job.box ++ q)) = content := by
        simpa using hlookup
      exact ⟨hcarried.accepted, hcurrent, hcarried.content⟩
    · have hold : w.placed.lookup v = some content := by
        rw [List.lookup_cons, beq_false_of_ne hv] at hlookup
        exact hlookup
      obtain ⟨hok, hne, hnode⟩ := h v content hold
      exact ⟨hok, hne, fun q => (hcarried.beneath hv (hfree v hok hne) q).trans (hnode q)⟩

theorem place_tree (s : Shelf) (w : Shop) (job : Job) (t : Tree) : (w.place s job t).tree = t := by
  unfold Shop.place
  split <;> rfl

theorem place_first (s : Shelf) (w : Shop) (job : Job) (t : Tree) :
    (w.place s job t).first = w.first := by
  unfold Shop.place
  split <;> rfl

theorem place_went (s : Shelf) (w : Shop) (job : Job) (t : Tree) :
    (w.place s job t).went = w.went := by
  unfold Shop.place
  split <;> rfl

theorem lookup_gone {w : Shop} {job : Job} {t : Tree} (h : t.isDir (s.staged job.box) = false) :
    ((w.place s job t).placed.lookup job.version).isSome = true := by
  rw [Shop.place, h, if_neg (by simp), List.lookup_cons_self]
  rfl

theorem lookup_place {w : Shop} {job : Job} {t : Tree} {v : Name}
    (h : (w.placed.lookup v).isSome = true) :
    ((w.place s job t).placed.lookup v).isSome = true := by
  unfold Shop.place
  split
  next => exact h
  next =>
    rw [List.lookup_cons]
    split
    next => rfl
    next => exact h

/-- **One event keeps what is selected and what is held.** -/
theorem Intact.step {w w' : Shop} {e : Event} (h : s.Intact w) (ha : s.Orderly w e)
    (hn : Shop.next s w e = some w') : s.Intact w' := by
  cases e with
  | outside t =>
      obtain ⟨hfit, hsame⟩ := ha
      obtain rfl := Option.some.inj hn
      refine ⟨hfit, ?_, h.went, fun v content hlookup => ?_⟩
      · rw [← h.selected]
        exact selected_congr h.fits hfit (hsame _ (List.prefix_append _ _))
      · obtain ⟨hv, hne, hnode⟩ := h.holds v content hlookup
        refine ⟨hv, hne, fun q => (hsame _ ?_).trans (hnode q)⟩
        rw [versionDir, List.append_assoc]
        exact List.prefix_append _ _
  | publish job =>
      obtain ⟨hbox, hstaged, hcurrent⟩ := ha
      have hwp := wp_publish s job.box job.version job.pid job.seq ⟨w.tree, job.faults, []⟩
        h.fits hbox hstaged hcurrent
      cases hrun : job.run s w.tree with
      | ok package d =>
          simp only [Shop.next, hrun, Option.some.injEq] at hn
          subst hn
          obtain ⟨-, hpub⟩ := wp_ok hwp hrun
          have htree := place_tree s w job d.tree
          refine ⟨htree.symm ▸ hpub.fits, ?_, fun v hv => ?_, ?_⟩
          · exact (congrArg s.selected htree).trans hpub.selected
          · rcases List.mem_cons.mp hv with rfl | hv
            · exact lookup_gone hpub.carried.isDir_staged
            · exact lookup_place (h.went v hv)
          · exact h.holds.place hstaged hcurrent (.inr ⟨_, hpub.carried, fun v _ hv => hv⟩)
      | error e d =>
          simp only [Shop.next, hrun, Option.some.injEq] at hn
          subst hn
          have hun := wp_error hwp hrun
          have htree := place_tree s w job d.tree
          refine ⟨htree.symm ▸ hun.fits, ?_, fun v hv => ?_, ?_⟩
          · rw [htree, hun.selected, place_went, place_first]
            exact h.selected
          · rw [place_went] at hv
            exact lookup_place (h.went v hv)
          · refine h.holds.place hstaged hcurrent (hun.tree.imp_right fun hcarried =>
              ⟨_, hcarried.1, fun v hv _ => ?_⟩)
            exact ne_swapName job.pid job.seq hv

end Shelf

end OpenVHost.Pkg
