/-
# Uninstalling and discovery

An uninstall of a packaged PHP removes the version directory that `current` selects and
the link. Discovery counts anything else in the major's directory as a broken install.

* `done_cleared` — what a finished uninstall has removed.
* `gone_iff_alone` — when discovery reports nothing of the major afterwards.
* `older_version_stays` — an older version directory is reported as a broken install.
-/

import OpenVHost.Uninstall.Confined
import OpenVHost.Runtime.Merged

namespace OpenVHost.Uninstall

open FileTree FileTree.Io OpenVHost.Runtime Conf

/-! ### The link of a major -/

section Link

variable {t : Tree} {p q mid : Path} {v n : Name} {target : List Char}

theorem currentVersion_eq_some {link : Path} (h : currentVersion t link = some v) :
    ∃ target, t.lstat link = .ok (.symlink target) ∧ isAbsolute target = false ∧
      components target = [v] ∧ special v = false := by
  unfold currentVersion at h
  split at h
  next target htarget =>
    split at h
    next => cases h
    next hrel =>
      have habs : isAbsolute target = false := by
        cases habs : isAbsolute target with
        | false => rfl
        | true => simp [habs] at hrel
      split at h
      next name hname =>
        split at h
        next => cases h
        next hup =>
          cases h
          have hmem : v ∈ components target := by simp [hname]
          have htriv : v ≠ [] ∧ v ≠ ['.'] := by
            simpa [components] using (List.mem_filter.mp hmem).2
          exact ⟨target, htarget, habs, hname,
            special_eq_false.mpr ⟨htriv.1, htriv.2, by simpa using hup⟩⟩
      next => cases h
  next => cases h

/-- A walk over one plain name meets it. -/
theorem has_of_walk_components {follow : Path → List Name → Except Errno Path} {cur : Path}
    (hv : special v = false) : ∀ {names : List Name},
      (names.filter fun c => c != [] && c != ['.']) = [v] →
      t.walk false follow cur names = .ok q → t.has (cur ++ [v]) = true
  | [], hnames, _ => by cases hnames
  | c :: names, hnames, h => by
      by_cases hc : (c == [] || c == ['.']) = true
      · have hskip : (c != [] && c != ['.']) = false := by
          simp only [Bool.or_eq_true, beq_iff_eq] at hc
          rcases hc with rfl | rfl <;> rfl
        rw [List.filter_cons_of_neg (by simp [hskip])] at hnames
        unfold Tree.walk at h
        rw [if_pos hc] at h
        exact has_of_walk_components hv hnames h
      · have hkeep : (c != [] && c != ['.']) = true := by
          simp only [Bool.or_eq_true, beq_iff_eq, not_or] at hc
          simp [hc]
        simp only [List.filter_cons, hkeep, if_true] at hnames
        obtain ⟨rfl, -⟩ := List.cons.inj hnames
        rw [Tree.walk_plain hv] at h
        unfold Tree.has
        cases hx : t.node (cur ++ [c]) with
        | none => simp [hx] at h
        | some x => rfl

/-- A link that resolves leads to the version it names. -/
theorem has_version (hn : special n = false) (hv : special v = false)
    (hmid : t.resolve p = .ok mid) (hlink : t.node (mid ++ [n]) = some (.symlink target))
    (hrel : isAbsolute target = false) (hcomp : components target = [v])
    (h : t.resolve (p ++ [n]) = .ok q) : t.has (mid ++ [v]) = true := by
  obtain ⟨mid', links, hmid', hrest⟩ := Tree.resolveFrom_append [n] Tree.maxLinks [] p h
  obtain rfl : mid = mid' := Except.ok.inj (hmid.symm.trans hmid')
  have hstart : linkStart mid target = mid := by simp [linkStart, hrel]
  cases links with
  | zero =>
      have hw : t.walk false (fun _ _ => .error .filesystemLoop) mid [n] = .ok q := hrest
      rw [Tree.walk_plain hn, hlink] at hw
      cases hw
  | succ links =>
      have hw : t.walk false (t.resolveFrom false links) mid [n] = .ok q := hrest
      rw [Tree.walk_plain hn, hlink] at hw
      dsimp only at hw
      rw [hstart, List.append_nil] at hw
      cases links with
      | zero => exact has_of_walk_components hv hcomp hw
      | succ links => exact has_of_walk_components hv hcomp hw

end Link

/-! ### What a finished run has done -/

section Steps

variable {d : Disk} {root path : Path}

/-- A version directory that is there is removed, or there is a problem. -/
theorem wp_removeVersionTree_gone {run : UninstallRun} {what : String}
    (hthere : ∀ e, d.tree.lstat path ≠ .error e) :
    wp (run.removeVersionTree path what)
      (fun problem d' => problem = none → ∃ real, Contained d.tree run.packages path real ∧
        Trimmed (real <+: ·) d.tree d'.tree ∧ d'.tree.node real = none)
      (fun _ _ => True) d := by
  rw [UninstallRun.removeVersionTree, wp_bind]
  refine wp_confine fun c d₁ hk hcontained habsent => ?_
  cases c with
  | absent => exact absurd (habsent rfl) (hthere _)
  | refused reason => exact trivial
  | contained =>
      obtain ⟨real, hreal⟩ := hcontained rfl
      have hne : real ≠ [] := by
        obtain ⟨rootReal, -, hpre, hne⟩ := hreal.below
        rintro rfl
        exact hne (List.prefix_nil.mp hpre).symm
      dsimp only
      rw [wp_bind, wp_attempt]
      rw [← hk.tree] at hreal hthere ⊢
      refine wp_removeTree run.os hreal.located (fun d₂ ht hgone => ?_) fun e d₂ ht hnone => ?_
      · exact fun _ => ⟨real, hreal, ht, hgone hne⟩
      · cases e with
        | notFound =>
            have hmissing : d₁.tree.lstat path = .error .notFound := by
              rw [Tree.lstat, hreal.located]
              simp [hnone rfl]
            exact absurd hmissing (hthere _)
        | _ => exact fun h => by cases h

/-- The link of a directory that is found is removed where it leads nowhere, or there is a
problem. -/
theorem wp_clearDanglingCurrent_gone {n m : Name} (hn : special n = false)
    (hm : special m = false) {E : UninstallError → Disk → Prop} :
    wp (clearDanglingCurrent root (path ++ [m] ++ [n]))
      (fun problem d' => problem = none →
        Trimmed (fun q => ∃ mid, d.tree.resolve (path ++ [m]) = .ok mid ∧ q = mid ++ [n])
          d.tree d'.tree ∧
        ∀ mid, d.tree.resolve (path ++ [m]) = .ok mid →
          (∀ q, d.tree.resolve (path ++ [m] ++ [n]) ≠ .ok q) → d'.tree.node (mid ++ [n]) = none)
      E d := by
  rw [clearDanglingCurrent, parent_concat]
  dsimp only
  rw [wp_bind]
  refine wp_confine fun c d₁ hk hcontained habsent => ?_
  cases c with
  | absent =>
      refine fun _ => ⟨Trimmed.of_eq hk.tree, fun mid hmid => ?_⟩
      obtain ⟨x, hx⟩ := Tree.lstat_of_resolve hm hmid
      rw [habsent rfl] at hx
      cases hx
  | refused reason => exact fun h => by cases h
  | contained =>
      obtain ⟨real, hreal⟩ := hcontained rfl
      dsimp only
      rw [wp_bind, wp_attempt, stat]
      refine wp_query (fun x d₂ hk₂ hx => ?_) fun e d₂ hk₂ he => ?_
      · refine fun _ => ⟨Trimmed.of_eq (hk.trans hk₂).tree, fun mid _ hnone => ?_⟩
        rw [hk.tree] at hx
        unfold Tree.stat at hx
        split at hx
        · cases hx
        next q hq => exact absurd hq (hnone q)
      · have hkept := (hk.trans hk₂).tree
        cases e with
        | notFound =>
            dsimp only
            rw [← hkept] at hreal ⊢
            rw [wp_bind, wp_attempt, removeCurrent, wp_bind, wp_attempt, lstat]
            refine wp_query (fun x d₃ hk₃ hx => ?_) fun e d₃ hk₃ he₃ => ?_
            · dsimp only
              split
              next =>
                rw [wp_mapErr]
                rw [← hk₃.tree] at hreal ⊢
                refine wp_removeFile hn hreal.resolved (fun d₄ hgone ht => ?_)
                  fun e d₄ _ _ => fun h => by cases h
                refine fun _ => ⟨ht.mono fun q hq => ⟨real, hreal.resolved, hq⟩, fun mid hmid _ => ?_⟩
                rw [hreal.resolved] at hmid
                cases hmid
                exact hgone
              next => exact fun h => by cases h
            · cases e with
              | notFound =>
                  refine fun _ => ⟨Trimmed.of_eq hk₃.tree, fun mid hmid _ => ?_⟩
                  have hmissing := he₃.own (.inr fun code hc => by cases hc)
                  rw [hreal.resolved] at hmid
                  cases hmid
                  rw [hk₃.tree]
                  by_cases hd : d₂.tree.isDir real = true
                  · rw [Tree.lstat_concat hn hreal.resolved hd] at hmissing
                    split at hmissing
                    · assumption
                    · cases hmissing
                  · exact Tree.node_below (by simp) (by simpa using hd)
              | _ => exact fun h => by cases h
        | _ => exact fun h => by cases h

end Steps

/-! ### The run, and discovery after it -/

section Run

variable {run : UninstallRun} {w w' : World} {major : PhpMajor} {pkg : PackagedPhp}

theorem io_bind_eq_ok {ε α β : Type} {x : Io ε β} {f : β → Io ε α} {a : α} {d d' : Disk} :
    (x >>= f) d = .ok a d' ↔ ∃ b d₁, x d = .ok b d₁ ∧ f b d₁ = .ok a d' := by
  show EStateM.bind x f d = _ ↔ _
  unfold EStateM.bind
  cases x d <;> simp

theorem onDisk_eq_ok {ε α : Type} {x : Io ε α} {a : α}
    (h : UninstallRun.onDisk x w = (.ok a, w')) : x w.disk = .ok a w'.disk := by
  unfold UninstallRun.onDisk at h
  split at h
  next hx =>
    cases h
    exact hx
  next => cases h

theorem problems_of_done : ∀ (rest : List Removal) {problems : List Problem} {w : World},
    run.performAll rest problems w = (.ok .done, w') → problems = []
  | [], [], _, _ => rfl
  | [], _ :: _, _, h => by cases h
  | removal :: rest, problems, w, h => by
      unfold UninstallRun.performAll at h
      split at h
      · cases h
      · exact (List.append_eq_nil_iff.mp (problems_of_done rest h)).1

/-- Each step of a run that finishes has gone through without a problem. -/
theorem step_of_done {removal : Removal} {rest : List Removal}
    (h : run.performAll (removal :: rest) [] w = (.ok .done, w')) :
    ∃ w₁, run.perform removal w = (.ok [], w₁) ∧
      run.performAll rest [] w₁ = (.ok .done, w') := by
  unfold UninstallRun.performAll at h
  split at h
  next => cases h
  next more w₁ hstep =>
    have hnil := problems_of_done rest h
    simp only [List.nil_append] at hnil h
    subst hnil
    exact ⟨w₁, hstep, h⟩

/-- A run that finishes has had no problem at any step. -/
theorem done_steps (htarget : run.target = .php major) (hpackaged : run.packaged = some pkg)
    (h : run.performUninstall w = (.ok .done, w')) :
    ∃ what d₁ d₂, run.removeVersionTree pkg.versionDir what w.disk = .ok none d₁ ∧
      (clearDanglingCurrent run.packages (run.target.packagedCurrentLink run.home) :
        Io UninstallError _) d₁ = .ok none d₂ ∧
      Trimmed (Below d₂.tree (generatedConfigRoot run.home)) d₂.tree w'.disk.tree := by
  unfold UninstallRun.performUninstall at h
  split at h
  next =>
    rw [htarget, hpackaged] at h
    obtain ⟨w₁, hfirst, h⟩ := step_of_done h
    obtain ⟨w₂, hsecond, h⟩ := step_of_done h
    obtain ⟨w₃, hthird, h⟩ := step_of_done h
    obtain ⟨problem, d₁, hversion, hfirst⟩ := io_bind_eq_ok.mp (onDisk_eq_ok hfirst)
    obtain ⟨dangling, d₂, hlink, hfirst⟩ := io_bind_eq_ok.mp hfirst
    have hnone : problem = none ∧ dangling = none ∧ d₂ = w₁.disk := by
      have heq : (EStateM.Result.ok (problem.toList ++ dangling.toList) d₂ :
          EStateM.Result UninstallError Disk (List Problem)) = .ok [] w₁.disk := hfirst
      cases problem <;> cases dangling <;> simp_all
    obtain ⟨rfl, rfl, rfl⟩ := hnone
    refine ⟨_, d₁, w₁.disk, hversion, hlink, ?_⟩
    have hpath : phpPoolConfigPath run.home major.asStr =
        generatedConfigRoot run.home ++ ["php".toList, major.asStr] ++ ["php-fpm.conf".toList] := by
      simp [phpPoolConfigPath]
    obtain ⟨problem, d₃, hfile, hsecond⟩ := io_bind_eq_ok.mp (onDisk_eq_ok hsecond)
    rw [hpath] at hfile
    have htrim := wp_ok (wp_removeGeneratedFile (by decide) (E := fun _ _ => True)) hfile
    have hd₃ : d₃ = w₂.disk := by
      have heq : (EStateM.Result.ok problem.toList d₃ :
          EStateM.Result UninstallError Disk (List Problem)) = .ok [] w₂.disk := hsecond
      simp_all
    have hdisk : w'.disk = w₂.disk := by
      have hw₃ : w₃ = w' := by
        cases h
        rfl
      have hrow : w₃ = (run.removeServiceRow (run.target.serviceId) w₂).2 := by
        rw [htarget]
        exact (congrArg Prod.snd hthird).symm
      rw [← hw₃, hrow]
      unfold UninstallRun.removeServiceRow
      split <;> rfl
    rw [hdisk, ← hd₃]
    exact htrim
  next => cases h

end Run

/-! ### What is left of the major -/

section Left

variable {t : Tree} {home : Path} {major : PhpMajor} {pkg : PackagedPhp}

def majorDir (home : Path) (major : PhpMajor) : Path :=
  (PackagesRoot.fromHome home).majorDir Php.packageName major.asStr

def currentLink (home : Path) (major : PhpMajor) : Path := majorDir home major ++ ["current".toList]

theorem majorDir_eq (home : Path) (major : PhpMajor) : majorDir home major =
    (PackagesRoot.fromHome home).asPath ++ [Php.packageName] ++ [major.asStr] := by
  simp [majorDir, PackagesRoot.majorDir]

theorem shape_of_cataloged (major : PhpMajor) : Php.isMajorMinorShape major.asStr = true := by
  have hall : ∀ m ∈ catalogue, Php.isMajorMinorShape m = true := by decide
  exact hall _ major.cataloged

theorem special_major (major : PhpMajor) : special major.asStr = false := by
  have hshape := shape_of_cataloged major
  simp only [Php.isMajorMinorShape, Bool.and_eq_true] at hshape
  exact not_special_of_shape hshape.2

/-- A packaged install, and where it stands. -/
structure Selected (t : Tree) (home : Path) (major : PhpMajor) (pkg : PackagedPhp) (real : Path)
    (version : Name) (target : List Char) : Prop where
  versionDir : pkg.versionDir = majorDir home major ++ [version]
  plain : special version = false
  selects : currentVersion t (currentLink home major) = some version
  resolved : t.resolve (majorDir home major) = .ok real
  dir : t.isDir real = true
  link : t.node (real ++ ["current".toList]) = some (.symlink target)
  relative : isAbsolute target = false
  names : components target = [version]
  there : ∀ e, t.lstat pkg.versionDir ≠ .error e

theorem selected_of_packaged (h : (Target.php major).packaged t home = some pkg) :
    ∃ real version target, Selected t home major pkg real version target := by
  obtain ⟨install, hinstall, rfl⟩ := Option.map_eq_some_iff.mp h
  unfold Php.packagedPhpInstall at hinstall
  rw [if_neg (by simp [shape_of_cataloged major])] at hinstall
  obtain ⟨hcurrent, hbin⟩ := Option.filter_eq_some_iff.mp hinstall
  unfold currentInstall at hcurrent
  split at hcurrent
  next => cases hcurrent
  next version hversion =>
    dsimp only at hcurrent
    split at hcurrent
    next => cases hcurrent
    next =>
      cases hcurrent
      obtain ⟨target, hlink, hrel, hcomp, hplain⟩ := currentVersion_eq_some hversion
      have hlocate := hlink
      have heq : (PackagesRoot.fromHome home).currentLink Php.packageName major.asStr =
          majorDir home major ++ ["current".toList] := rfl
      rw [heq, Tree.lstat, Tree.locate_concat (by decide)] at hlocate
      cases hreal : t.resolve (majorDir home major) with
      | error e => simp [hreal] at hlocate
      | ok real =>
          have hdir : t.isDir real = true := by
            by_contra hd
            simp [hreal, hd] at hlocate
          simp only [hreal, hdir, if_true] at hlocate
          have hnode : t.node (real ++ ["current".toList]) = some (.symlink target) := by
            split at hlocate
            · cases hlocate
            · cases hlocate
              assumption
          -- the binary is found through the version directory
          have hthere : ∃ q, t.resolve (majorDir home major ++ [version]) = .ok q := by
            unfold Runtime.isFile Tree.stat at hbin
            split at hbin
            next x hx =>
              split at hx
              next => cases hx
              next q hq =>
                obtain ⟨mid, _, hmid, -⟩ :=
                  Tree.resolveFrom_append Php.packagedFpmRel Tree.maxLinks [] _ hq
                exact ⟨mid, hmid⟩
            next => cases hbin
          obtain ⟨q, hq⟩ := hthere
          obtain ⟨x, hx⟩ := Tree.lstat_of_resolve hplain hq
          refine ⟨real, version, target, rfl, hplain, hversion, hreal, hdir, hnode, hrel, hcomp,
            fun e he => ?_⟩
          have hok : t.lstat (majorDir home major ++ [version]) = .error e := he
          rw [hx] at hok
          cases hok

/-- What a run has taken from the tree. -/
structure Cleared (t t' : Tree) (home : Path) (major : PhpMajor) (real : Path) (version : Name) :
    Prop where
  region : Trimmed (fun q => Below t (PackagesRoot.fromHome home).asPath q ∨
    Below t (generatedConfigRoot home) q) t t'
  /-- Nothing but the version directory, the link and generated configuration is taken. -/
  only : Trimmed (fun q => real ++ [version] <+: q ∨ q = real ++ ["current".toList] ∨
    Below t (generatedConfigRoot home) q) t t'
  gone : t'.node (real ++ [version]) = none
  /-- The link is gone wherever the directory can still be found. -/
  link : ∀ real', t'.resolve (majorDir home major) = .ok real' →
    t'.node (real ++ ["current".toList]) = none

theorem done_cleared {run : UninstallRun} {w w' : World} {real : Path} {version : Name}
    {target : List Char} (htarget : run.target = .php major) (hpackaged : run.packaged = some pkg)
    (hsel : Selected w.disk.tree run.home major pkg real version target)
    (h : run.performUninstall w = (.ok .done, w')) :
    Cleared w.disk.tree w'.disk.tree run.home major real version := by
  obtain ⟨what, d₁, d₂, hversion, hlink, hgen⟩ := done_steps htarget hpackaged h
  obtain ⟨real', hc, ht₁, hgone⟩ := wp_ok (wp_removeVersionTree_gone hsel.there) hversion rfl
  obtain rfl : real' = real ++ [version] := by
    have hlocated := hc.located
    rw [hsel.versionDir, Tree.locate_concat hsel.plain, hsel.resolved] at hlocated
    simp only [hsel.dir, if_true, Except.ok.injEq] at hlocated
    exact hlocated.symm
  have hbelow : Below w.disk.tree (PackagesRoot.fromHome run.home).asPath (real ++ [version]) :=
    hc.below
  have hne : version ≠ "current".toList := by
    rintro rfl
    exact hc.solid target hsel.link
  -- the link still stands once the version directory is gone, and leads nowhere
  have hlink₁ : d₁.tree.node (real ++ ["current".toList]) = some (.symlink target) := by
    rw [ht₁.outside, hsel.link]
    intro hpre
    have := List.IsPrefix.eq_of_length hpre (by simp)
    exact hne (by simpa using this)
  have hpath : run.target.packagedCurrentLink run.home =
      (PackagesRoot.fromHome run.home).asPath ++ [Php.packageName] ++ [major.asStr] ++
        ["current".toList] := by
    rw [htarget, ← majorDir_eq]
    rfl
  rw [hpath] at hlink
  obtain ⟨ht₂, hgone₂⟩ := wp_ok
    (wp_clearDanglingCurrent_gone (by decide) (special_major major) (E := fun _ _ => True)) hlink rfl
  rw [← majorDir_eq] at ht₂ hgone₂
  have hmid : ∀ mid, d₁.tree.resolve (majorDir run.home major) = .ok mid → mid = real :=
    fun mid hmid => Except.ok.inj ((ht₁.resolve hmid).symm.trans hsel.resolved)
  have hdead : ∀ mid, d₁.tree.resolve (majorDir run.home major) = .ok mid →
      ∀ q, d₁.tree.resolve (majorDir run.home major ++ ["current".toList]) ≠ .ok q := by
    intro mid hm q hq
    obtain rfl := hmid mid hm
    have hhas := has_version (by decide) hsel.plain hm hlink₁ hsel.relative hsel.names hq
    simp [Tree.has, hgone] at hhas
  have ht₂' : Trimmed (fun q => q = real ++ ["current".toList]) d₁.tree d₂.tree := by
    refine ht₂.mono fun q hq => ?_
    obtain ⟨mid, hm, hq⟩ := hq
    rw [hq, hmid mid hm]
  have htrim₂ : Trimmed (fun q => real ++ [version] <+: q ∨ q = real ++ ["current".toList])
      w.disk.tree d₂.tree := (ht₁.mono fun _ => .inl).trans (ht₂'.mono fun _ => .inr)
  have hgen' : Trimmed (Below w.disk.tree (generatedConfigRoot run.home)) d₂.tree w'.disk.tree :=
    hgen.mono fun q hq => hq.of_trimmed htrim₂
  have hcurrent : Below w.disk.tree (PackagesRoot.fromHome run.home).asPath
      (real ++ ["current".toList]) := by
    obtain ⟨rootReal, hroot, hpre, hne'⟩ := hbelow
    have habove : rootReal <+: real := by
      rcases List.prefix_concat_iff.mp hpre with heq | hpre
      · exact absurd heq.symm hne'
      · exact hpre
    refine ⟨rootReal, hroot, habove.trans (List.prefix_append _ _), fun heq => ?_⟩
    have hlen := habove.length_le
    rw [← heq, List.length_append, List.length_singleton] at hlen
    omega
  refine ⟨?_, ?_, ?_, fun real' hreal' => ?_⟩
  · refine (htrim₂.mono fun q hq => ?_).trans (hgen'.mono fun _ => .inr)
    rcases hq with hq | rfl
    · exact .inl (hbelow.append hq)
    · exact .inl hcurrent
  · exact (htrim₂.mono fun q hq => Or.imp_right .inl hq).trans (hgen'.mono fun _ hq => .inr (.inr hq))
  · rcases ht₂' (real ++ [version]) with heq | ⟨hnone, -⟩
    · rcases hgen (real ++ [version]) with heq' | ⟨hnone, -⟩
      · rw [heq', heq, hgone]
      · exact hnone
    · rcases hgen (real ++ [version]) with heq' | ⟨hnone', -⟩
      · rw [heq', hnone]
      · exact hnone'
  · have hm₂ := hgen.resolve hreal'
    have hm₁ := ht₂.resolve hm₂
    have hnone : d₂.tree.node (real ++ ["current".toList]) = none := by
      have := hgone₂ real' hm₁ (hdead real' hm₁)
      rwa [hmid real' hm₁] at this
    rcases hgen (real ++ ["current".toList]) with heq | ⟨hnone', -⟩
    · rw [heq, hnone]
    · exact hnone'

end Left

/-! ### Discovery after the run -/

section Discovery

variable {t t' : Tree} {home : Path} {major : PhpMajor} {pkg : PackagedPhp} {real : Path}
  {version : Name} {target : List Char}

/-- The major's directory holds what `current` selects, the link, and nothing else. -/
def Alone (t : Tree) (home : Path) (major : PhpMajor) : Prop :=
  ∀ names, t.readDir (majorDir home major) = .ok names → ∀ n ∈ names,
    n = "current".toList ∨ currentVersion t (currentLink home major) = some n

/-- No path down from a Homebrew prefix goes through the application's own trees. -/
def Separate (t : Tree) (home : Path) (prefixes : List Path) : Prop :=
  ∀ pre ∈ prefixes, ∀ s, Plain s → ∀ w, t.Walks ([], pre ++ s) w →
    ∀ root ∈ [(PackagesRoot.fromHome home).asPath, generatedConfigRoot home], ∀ real,
      t.resolve root = .ok real → ¬ real <+: w.1

/-- The directories of the application are where it made them, and no links. -/
structure Laid (t : Tree) (home : Path) (major : PhpMajor) : Prop where
  plain : Plain home
  dir : t.isDir (majorDir home major) = true
  generated : t.Straight (generatedConfigRoot home)

/-- Discovery of what an uninstall has left shows no more of the packaged major, and of
Homebrew's what it showed before. -/
structure Converged (t t' : Tree) (home : Path) (major : PhpMajor) (prefixes : List Path)
    (probe : Path → Option (List Char)) : Prop where
  runtime : ∀ rt ∈ (Php.discoverPhp t' (PackagesRoot.fromHome home) prefixes probe).runtimes,
    rt.major = major.asStr → rt.source = .homebrew
  unidentified : majorDir home major ∉
    (Php.phpEngine.discoverPackaged t' (PackagesRoot.fromHome home)).unidentified
  packaged : (Target.php major).packaged t' home = none
  homebrew : ∀ rt : Php.PhpRuntime, rt.major = major.asStr →
    (rt ∈ (Php.discoverPhp t' (PackagesRoot.fromHome home) prefixes probe).runtimes ↔
      rt ∈ (Php.phpEngine.discoverBrew t prefixes probe).runtimes)

/-- Nothing is packaged where the link is gone. -/
theorem packagedPhpInstall_none (hsel : Selected t home major pkg real version target)
    (hc : Cleared t t' home major real version) :
    Php.packagedPhpInstall t' (PackagesRoot.fromHome home) major.asStr = none := by
  cases h : (Target.php major).packaged t' home with
  | none => simpa [Target.packaged] using h
  | some pkg' =>
      obtain ⟨real', version', target', hsel'⟩ := selected_of_packaged h
      have hreal : real' = real :=
        Except.ok.inj ((hc.region.resolve hsel'.resolved).symm.trans hsel.resolved)
      have hnone := hc.link real' hsel'.resolved
      rw [← hreal, hsel'.link] at hnone
      cases hnone

/-- What is listed as unidentified of the major is a directory that is found and not empty. -/
theorem mem_unidentified_iff (hnone : Php.packagedPhpInstall t' (PackagesRoot.fromHome home)
      major.asStr = none) :
    majorDir home major ∈
      (Php.phpEngine.discoverPackaged t' (PackagesRoot.fromHome home)).unidentified ↔
    (∃ names, t'.readDir ((PackagesRoot.fromHome home).asPath ++ [Php.packageName]) = .ok names ∧
      major.asStr ∈ names) ∧ looksLikeABrokenInstall t' (majorDir home major) = true := by
  rw [Engine.mem_unidentified_packaged]
  have hname : Php.phpEngine.ofName major.asStr = some major.asStr := if_pos (shape_of_cataloged major)
  have hp : Php.phpEngine.packaged t' (PackagesRoot.fromHome home) major.asStr = none := by
    show Php.packagedPhpRuntime _ _ _ = none
    rw [Php.packagedPhpRuntime, hnone]
    rfl
  constructor
  · rintro ⟨names, m, hnames, hmem, -, -, hbroken, hdir⟩
    have hm : m = major.asStr := by
      have : (PackagesRoot.fromHome home).asPath ++ [Php.packageName, major.asStr] =
          (PackagesRoot.fromHome home).asPath ++ [Php.packageName, m] := hdir
      simpa using this.symm
    subst hm
    exact ⟨⟨names, hnames, hmem⟩, hbroken⟩
  · rintro ⟨⟨names, hnames, hmem⟩, hbroken⟩
    exact ⟨names, major.asStr, hnames, hmem, hname, hp, hbroken, rfl⟩

/-- A major that stood alone is not listed any more. -/
theorem not_broken_of_alone (hsel : Selected t home major pkg real version target)
    (hc : Cleared t t' home major real version) (halone : Alone t home major) :
    looksLikeABrokenInstall t' (majorDir home major) = false := by
  have hreal : ∀ real', t'.resolve (majorDir home major) = .ok real' → real' = real :=
    fun real' h => Except.ok.inj ((hc.region.resolve h).symm.trans hsel.resolved)
  have hread : t.readDir (majorDir home major) = .ok (t.entries real) := by
    rw [Tree.readDir, hsel.resolved]
    simp [hsel.dir]
  unfold looksLikeABrokenInstall
  split
  next names hnames =>
    rw [Bool.not_eq_false', List.isEmpty_iff]
    unfold Tree.readDir at hnames
    split at hnames
    next => cases hnames
    next real' hreal' =>
      obtain rfl := hreal real' hreal'
      split at hnames
      next =>
        cases hnames
        by_contra hne
        obtain ⟨n, hn⟩ := List.exists_mem_of_ne_nil _ hne
        obtain ⟨hhas, hplain⟩ := Tree.mem_entries.mp hn
        obtain ⟨x, hx⟩ := Option.isSome_iff_exists.mp hhas
        have hentry : n ∈ t.entries real' :=
          Tree.mem_entries.mpr ⟨Tree.has_of_node (hc.region.node hx), hplain⟩
        rcases halone _ hread n hentry with rfl | hversion
        · rw [hc.link real' hreal'] at hx
          cases hx
        · rw [hsel.selects] at hversion
          cases hversion
          rw [hc.gone] at hx
          cases hx
      next => cases hnames
  next hfail =>
    unfold Runtime.pathExists
    split
    next x hx =>
      unfold Tree.stat at hx
      split at hx
      next => cases hx
      next real' hreal' =>
        obtain rfl := hreal real' hreal'
        have hdir : t'.isDir real' = true := by
          have hnode : t'.has real' = true := Tree.has_of_resolve hreal'
          obtain ⟨y, hy⟩ := Option.isSome_iff_exists.mp hnode
          have := hsel.dir
          rw [Tree.isDir, hc.region.node hy] at this
          rw [Tree.isDir, hy]
          exact this
        rw [Tree.readDir, hreal'] at hfail
        simp [hdir] at hfail
    next => rfl

/-- What stays of a major that did not stand alone is listed. -/
theorem broken_of_not_alone (hsel : Selected t home major pkg real version target)
    (hc : Cleared t t' home major real version) (hlaid : Laid t home major) {n : Name}
    {names : List Name} (hnames : t.readDir (majorDir home major) = .ok names) (hn : n ∈ names)
    (hcurrent : n ≠ "current".toList) (hversion : n ≠ version) :
    (∃ names, t'.readDir ((PackagesRoot.fromHome home).asPath ++ [Php.packageName]) = .ok names ∧
      major.asStr ∈ names) ∧ looksLikeABrokenInstall t' (majorDir home major) = true := by
  have hplain : Plain (majorDir home major) := by
    rw [majorDir_eq]
    refine Tree.plain_append.mpr ⟨Tree.plain_append.mpr ⟨Tree.plain_append.mpr ⟨hlaid.plain, by decide⟩,
      by decide⟩, ?_⟩
    exact Tree.plain_cons.mpr ⟨special_major major, by simp [Plain]⟩
  have hreal : majorDir home major = real := by
    have := hsel.resolved
    rw [Tree.resolve_real hplain hlaid.dir] at this
    exact Except.ok.inj this
  rw [Tree.readDir_of_isDir hplain hlaid.dir] at hnames
  cases hnames
  obtain ⟨hhas, hsp⟩ := Tree.mem_entries.mp hn
  -- the generated configuration is elsewhere
  have hgen : ∀ q, ¬ Below t (generatedConfigRoot home) (majorDir home major ++ q) := by
    rintro q ⟨root, hroot, hpre, -⟩
    have hplain' : Plain (generatedConfigRoot home) :=
      Tree.plain_append.mpr ⟨hlaid.plain, by decide⟩
    rw [Tree.resolve_straight hplain' hlaid.generated] at hroot
    split at hroot
    · cases hroot
      have : generatedConfigRoot home <+:
          home ++ (["packages".toList, Php.packageName, major.asStr] ++ q) := by
        simpa [majorDir, PackagesRoot.majorDir, PackagesRoot.fromHome] using hpre
      rw [generatedConfigRoot, List.prefix_append_right_inj] at this
      obtain ⟨s, hs⟩ := this
      have hhead := congrArg List.head? hs
      revert hhead
      simp
    · cases hroot
  have hkeep : t'.node (majorDir home major ++ [n]) = t.node (majorDir home major ++ [n]) := by
    refine hc.only.outside ?_
    rintro (hpre | heq | hbelow)
    · rw [← hreal] at hpre
      have := List.IsPrefix.eq_of_length hpre (by simp)
      exact hversion (by simpa using this.symm)
    · rw [← hreal] at heq
      exact hcurrent (by simpa using heq)
    · exact hgen [n] hbelow
  have hhas' : t'.has (majorDir home major ++ [n]) = true := by
    rw [Tree.has, hkeep]
    exact hhas
  have hdir : t'.isDir (majorDir home major) = true := Tree.isDir_of_child hhas'
  refine ⟨⟨t'.entries ((PackagesRoot.fromHome home).asPath ++ [Php.packageName]), ?_, ?_⟩, ?_⟩
  · rw [majorDir_eq] at hdir hplain
    exact Tree.readDir_of_isDir (Tree.plain_append.mp hplain).1
      (Tree.isDir_of_child (Tree.has_of_isDir hdir))
  · rw [majorDir_eq] at hdir
    exact Tree.mem_entries.mpr ⟨Tree.has_of_isDir hdir, special_major major⟩
  · rw [looksLikeABrokenInstall, Tree.readDir_of_isDir hplain hdir]
    have hmem : n ∈ t'.entries (majorDir home major) := Tree.mem_entries.mpr ⟨hhas', hsp⟩
    dsimp only
    rw [Bool.not_eq_true', List.isEmpty_eq_false_iff]
    exact List.ne_nil_of_mem hmem

section Homebrew

variable {prefixes : List Path} {probe : Path → Option (List Char)} {pre dir : Path}
  {m : List Char}

/-- A walk down to a real directory whose links stay inside, and on from it, is above it or
inside. -/
theorem above_or_inside (hpre : Plain pre) (hdir : t.isDir pre = true)
    (hlinks : t.LinksInside pre) {s : Path} (hs : Plain s) {w : Path × List Name}
    (h : t.Walks ([], pre ++ s) w) :
    (∃ r, w.1 ++ r = pre ∧ w.2 = r ++ s) ∨ Tree.Inside pre w := by
  induction h with
  | refl => exact .inl ⟨pre, rfl, rfl⟩
  | @tail w w' _ hstep ih =>
      have hinside : Tree.Inside pre w → Tree.Inside pre w' :=
        fun h => Tree.inside_step hlinks h hstep
      rcases ih with ⟨r, hcur, hrest⟩ | ih
      · cases r with
        | nil =>
            refine .inr (hinside ⟨[], ?_, .of_not_mem (fun hm => ?_) _⟩)
            · simpa using hcur
            · rw [hrest] at hm
              exact absurd (hs _ (List.mem_of_mem_filter hm)) (by decide)
        | cons c r =>
            have hc : special c = false := hpre c (hcur ▸ by simp)
            obtain ⟨cur, rest⟩ := w
            obtain ⟨tail, rfl, htail⟩ : ∃ tail, rest = c :: tail ∧ tail = r ++ s := ⟨_, hrest, rfl⟩
            have hdown : (cur ++ [c]) ++ r = pre := by simpa using hcur
            cases hstep with
            | stay hskip => rcases hskip with rfl | rfl <;> cases hc
            | up => cases hc
            | down | file => exact .inl ⟨r, hdown, htail⟩
            | link _ hn =>
                have hreal : t.isDir (cur ++ [c]) = true := Tree.isDir_above ⟨r, hdown⟩ hdir
                rw [Tree.isDir, hn] at hreal
                cases hreal
      · exact .inr (hinside ih)

/-- Real prefixes whose links stay inside are separate from the application's trees. -/
theorem separate_of_linksInside
    (h : ∀ pre ∈ prefixes, Plain pre ∧ t.isDir pre = true ∧ t.LinksInside pre ∧
      ∀ root ∈ [(PackagesRoot.fromHome home).asPath, generatedConfigRoot home], ∀ real,
        t.resolve root = .ok real → ¬ real <+: pre ∧ ¬ pre <+: real) :
    Separate t home prefixes := by
  intro pre hpre s hs w hw root hroot real hreal hup
  obtain ⟨hplain, hdir, hlinks, hother⟩ := h pre hpre
  obtain ⟨habove, hbelow⟩ := hother root hroot real hreal
  rcases above_or_inside hplain hdir hlinks hs hw with ⟨r, hcur, -⟩ | hinside
  · exact habove (hup.trans ⟨r, hcur⟩)
  · rcases List.prefix_or_prefix_of_prefix hup hinside.below with hle | hle
    · exact habove hle
    · exact hbelow hle

theorem special_formula {name : Name} (h : Php.phpEngine.isFormula name = true) :
    special name = false := by
  rcases Bool.or_eq_true_iff.mp h with heq | hpre
  · rw [beq_iff_eq.mp heq]
    decide
  · obtain ⟨s, rfl⟩ := List.isPrefixOf_iff_prefix.mp hpre
    simp [special, Php.phpEngine]

/-- A separate Homebrew prefix reports what it did. -/
theorem reports_same (hregion : Trimmed (fun q => Below t (PackagesRoot.fromHome home).asPath q ∨
      Below t (generatedConfigRoot home) q) t t') (hsep : Separate t home prefixes)
    (hpre : pre ∈ prefixes) :
    Php.phpEngine.Reports t' probe pre dir m ↔ Php.phpEngine.Reports t probe pre dir m := by
  have haway : ∀ s, Plain s → Tree.Away (fun q => Below t (PackagesRoot.fromHome home).asPath q ∨
      Below t (generatedConfigRoot home) q) t ([], pre ++ s) := by
    intro s hs w hw n hbelow
    have houtside : ∀ root ∈ [(PackagesRoot.fromHome home).asPath, generatedConfigRoot home],
        ¬ Below t root (w.1 ++ [n]) := by
      rintro root hroot ⟨real, hreal, hpre', hne⟩
      rcases List.prefix_concat_iff.mp hpre' with heq | hup
      · exact hne heq.symm
      · exact hsep pre hpre s hs w hw root hroot real hreal hup
    rcases hbelow with h | h
    · exact houtside _ (by simp) h
    · exact houtside _ (by simp) h
  have hcand : dir ∈ Php.phpEngine.candidates t' pre ↔ dir ∈ Php.phpEngine.candidates t pre := by
    rw [Engine.mem_candidates, Engine.mem_candidates]
    simp only [Tree.listed_same hregion (haway ["opt".toList] (by decide))]
  have hdir : ∀ name rel, dir = pre ++ ["opt".toList, name] →
      dir ++ rel = pre ++ (["opt".toList, name] ++ rel) := by
    rintro name rel rfl
    simp
  have hrest : ∀ name, Php.phpEngine.isFormula name = true → dir = pre ++ ["opt".toList, name] →
      Php.phpEngine.complete t' dir = Php.phpEngine.complete t dir ∧
      Php.phpEngine.reported t' probe dir = Php.phpEngine.reported t probe dir := by
    intro name hformula hname
    have hplain : Plain ["opt".toList, name] :=
      List.forall_mem_cons.mpr ⟨by decide, List.forall_mem_singleton.mpr (special_formula hformula)⟩
    constructor
    · have hserver : Plain (["opt".toList, name] ++ Php.phpEngine.server) :=
        Tree.plain_append.mpr ⟨hplain, by decide⟩
      have hclients : Php.phpEngine.clients = [] := rfl
      unfold Engine.complete Runtime.isFile
      simp only [hclients, List.all_cons, hdir name _ hname,
        Tree.stat_same hregion (haway _ hserver), List.all_nil]
    · unfold Engine.reported Engine.versionOf resolveKeg
      rw [hname, Tree.resolve_same hregion (haway _ hplain)]
  constructor
  · rintro ⟨hc, hcomplete, hreported⟩
    obtain ⟨name, hformula, -, hname⟩ := (Engine.mem_candidates _ _).mp hc
    obtain ⟨h₁, h₂⟩ := hrest name hformula hname
    exact ⟨hcand.mp hc, h₁ ▸ hcomplete, h₂ ▸ hreported⟩
  · rintro ⟨hc, hcomplete, hreported⟩
    obtain ⟨name, hformula, -, hname⟩ := (Engine.mem_candidates _ _).mp hc
    obtain ⟨h₁, h₂⟩ := hrest name hformula hname
    exact ⟨hcand.mpr hc, h₁.symm ▸ hcomplete, h₂.symm ▸ hreported⟩

theorem fromHomebrew_same {i : Nat}
    (hrep : ∀ pre ∈ prefixes, ∀ dir m, Php.phpEngine.Reports t' probe pre dir m ↔
      Php.phpEngine.Reports t probe pre dir m) :
    Php.phpEngine.FromHomebrew t' prefixes probe i pre dir m ↔
      Php.phpEngine.FromHomebrew t prefixes probe i pre dir m := by
  constructor
  · intro h
    have hpre := List.mem_of_getElem? h.index
    exact ⟨h.index, (hrep pre hpre dir m).mp h.reports,
      fun j pre' hj dir' hd => h.earliest j pre' hj dir'
        ((hrep pre' (List.mem_of_getElem? hj) dir' m).mpr hd),
      fun hu dir' hd => h.versioned hu dir' ((hrep pre hpre dir' m).mpr hd),
      fun hu dir' hd => h.unversioned hu dir' ((hrep pre hpre dir' m).mpr hd)⟩
  · intro h
    have hpre := List.mem_of_getElem? h.index
    exact ⟨h.index, (hrep pre hpre dir m).mpr h.reports,
      fun j pre' hj dir' hd => h.earliest j pre' hj dir'
        ((hrep pre' (List.mem_of_getElem? hj) dir' m).mp hd),
      fun hu dir' hd => h.versioned hu dir' ((hrep pre hpre dir' m).mp hd),
      fun hu dir' hd => h.unversioned hu dir' ((hrep pre hpre dir' m).mp hd)⟩

end Homebrew

end Discovery

/-! ### The two together -/

/-- **A finished uninstall converges with discovery where the version stood alone.** -/
theorem gone_iff_alone {run : UninstallRun} {w w' : World} {major : PhpMajor} {pkg : PackagedPhp}
    (htarget : run.target = .php major)
    (hread : run.packaged = run.target.packaged w.disk.tree run.home)
    (hpackaged : run.packaged = some pkg) (h : run.performUninstall w = (.ok .done, w'))
    (prefixes : List Path) (probe : Path → Option (List Char)) :
    (Alone w.disk.tree run.home major → Separate w.disk.tree run.home prefixes →
      Converged w.disk.tree w'.disk.tree run.home major prefixes probe) ∧
    (Laid w.disk.tree run.home major →
      Converged w.disk.tree w'.disk.tree run.home major prefixes probe →
        Alone w.disk.tree run.home major) := by
  have hsome : (Target.php major).packaged w.disk.tree run.home = some pkg := by
    rw [← htarget, ← hread, hpackaged]
  obtain ⟨real, version, target, hsel⟩ := selected_of_packaged hsome
  have hc := done_cleared htarget hpackaged hsel h
  have hnone := packagedPhpInstall_none hsel hc
  constructor
  · intro halone hsep
    have hp : Php.phpEngine.packaged w'.disk.tree (PackagesRoot.fromHome run.home) major.asStr =
        none := by
      show Php.packagedPhpRuntime _ _ _ = none
      rw [Php.packagedPhpRuntime, hnone]
      rfl
    have hrep : ∀ pre ∈ prefixes, ∀ dir m, Php.phpEngine.Reports w'.disk.tree probe pre dir m ↔
        Php.phpEngine.Reports w.disk.tree probe pre dir m :=
      fun pre hpre dir m => reports_same hc.region hsep hpre
    have hmem : ∀ rt : Php.PhpRuntime, rt.major = major.asStr →
        (rt ∈ (Php.discoverPhp w'.disk.tree (PackagesRoot.fromHome run.home) prefixes
          probe).runtimes ↔ rt ∈ (Php.phpEngine.discoverBrew w.disk.tree prefixes probe).runtimes) := by
      intro rt hrt
      rw [Php.discoverPhp, Engine.mem_discover, Engine.mem_discoverBrew]
      constructor
      · intro hprovided
        cases hprovided with
        | @packaged m _ hm =>
            have hmajor : rt.major = m := Php.phpEngine.major_packaged hm
            rw [← hmajor, hrt, hp] at hm
            cases hm
        | homebrew _ hfrom => exact ⟨_, _, _, _, (fromHomebrew_same hrep).mp hfrom, rfl⟩
      · rintro ⟨m, i, pre, dir, hfrom, rfl⟩
        have hm : m = major.asStr := hrt
        subst hm
        exact .homebrew hp ((fromHomebrew_same hrep).mpr hfrom)
    refine ⟨fun rt hrt hmajor => ?_, fun hun => ?_, ?_, hmem⟩
    · obtain ⟨m, i, pre, dir, -, rfl⟩ :=
        (Engine.mem_discoverBrew _ _ _ _).mp ((hmem rt hmajor).mp hrt)
      rfl
    · have := ((mem_unidentified_iff hnone).mp hun).2
      rw [not_broken_of_alone hsel hc halone] at this
      cases this
    · rw [Target.packaged, hnone]
      rfl
  · intro hlaid hconv names hnames n hn
    by_contra hother
    rw [not_or] at hother
    have hversion : n ≠ version := by
      rintro rfl
      exact hother.2 hsel.selects
    exact hconv.unidentified ((mem_unidentified_iff hnone).mpr
      (broken_of_not_alone hsel hc hlaid hnames hn hother.1 hversion))

/-! ### Two homes -/

def php84 : PhpMajor := ⟨"8.4".toList, by decide⟩

def sampleMajorDir : Path := ["h".toList, "packages".toList, "php".toList, "8.4".toList]

/-- PHP 8.4.24 is installed, and nothing else. -/
def oneVersion : Tree :=
  Tree.ofNodes [(["h".toList], .dir none), (["h".toList, "packages".toList], .dir none),
    (["h".toList, "packages".toList, "php".toList], .dir none), (sampleMajorDir, .dir none),
    (sampleMajorDir ++ ["8.4.24".toList], .dir none),
    (sampleMajorDir ++ ["8.4.24".toList, "bin".toList], .dir none),
    (sampleMajorDir ++ ["8.4.24".toList, "bin".toList, "php-fpm".toList], .file [] none),
    (sampleMajorDir ++ ["current".toList], .symlink "8.4.24".toList)]

/-- An upgrade has left the directory of 8.4.23. -/
def twoVersions : Tree := oneVersion.put (sampleMajorDir ++ ["8.4.23".toList]) (.dir none)

theorem trimmed_self : ∀ (_ : Fault) (q : Path) (t : Tree), Trimmed (q <+: ·) t t :=
  fun _ _ _ => Trimmed.refl _ _

def sampleRun : UninstallRun where
  target := .php php84
  home := ["h".toList]
  sites := []
  keg := none
  packaged := some ⟨sampleMajorDir ++ ["8.4.24".toList]⟩
  brew w := (.ok (some 0), w)
  os := ⟨fun _ _ t => t, trimmed_self⟩

def sampleWorld (t : Tree) : World := ⟨⟨t, [], []⟩, []⟩

def brewPrefix : Path := ["brew".toList]

def brewLink : Path := brewPrefix ++ ["opt".toList, "php@8.4".toList]

/-- Homebrew has 8.4.20 beside the packaged version. -/
def besideHomebrew : Tree :=
  let keg : Path := brewPrefix ++ ["Cellar".toList, "php@8.4".toList]
  [(brewPrefix, .dir none), (brewPrefix ++ ["opt".toList], .dir none),
    (brewPrefix ++ ["Cellar".toList], .dir none), (keg, .dir none),
    (keg ++ ["8.4.20".toList], .dir none), (keg ++ ["8.4.20".toList, "sbin".toList], .dir none),
    (keg ++ ["8.4.20".toList, "sbin".toList, "php-fpm".toList], .file [] none),
    (brewLink, .symlink "../Cellar/php@8.4/8.4.20".toList)].foldl
      (fun t (x : Path × Node) => t.put x.1 x.2) oneVersion

theorem separate_besideHomebrew : Separate besideHomebrew ["h".toList] [brewPrefix] := by
  refine separate_of_linksInside fun pre hpre => ?_
  obtain rfl := List.mem_singleton.mp hpre
  have hnode : besideHomebrew.node brewLink = some (.symlink "../Cellar/php@8.4/8.4.20".toList) := by
    decide
  refine ⟨by decide, by decide, fun s n target hlink => ?_, fun root hroot real hreal => ?_⟩
  · have honly : ∀ q ∈ besideHomebrew.paths, (besideHomebrew.node q).any Node.isSymlink = true →
        q.head? = some "brew".toList → q = brewLink := by decide
    have heq : brewPrefix ++ s ++ [n] = brewLink :=
      honly _ (besideHomebrew.mem_paths _ (by rw [hlink]; rfl)) (by rw [hlink]; rfl) rfl
    rw [heq, hnode] at hlink
    cases hlink
    have hs : s.length = 1 := by
      have hlength := congrArg List.length heq
      simp [brewPrefix, brewLink] at hlength
      omega
    rw [hs]
    exact ⟨by decide, 1, ["Cellar".toList, "php@8.4".toList, "8.4.20".toList], by decide, by decide,
      Nat.le_refl 1⟩
  · rcases List.mem_cons.mp hroot with rfl | hroot
    · have hroot : besideHomebrew.resolve (PackagesRoot.fromHome ["h".toList]).asPath =
          .ok ["h".toList, "packages".toList] := by decide
      rw [hroot] at hreal
      cases hreal
      exact ⟨by decide, by decide⟩
    · rw [List.mem_singleton.mp hroot] at hreal
      have hnone : besideHomebrew.resolve (generatedConfigRoot ["h".toList]) = .error .notFound := by
        decide
      rw [hnone] at hreal
      cases hreal

/-- The packaged version goes, and Homebrew's is what discovery then has. -/
theorem gone_iff_alone_one :
    Converged besideHomebrew
        (sampleRun.performUninstall (sampleWorld besideHomebrew)).2.disk.tree ["h".toList] php84
        [brewPrefix] (fun _ => none) ∧
      (Php.discoverPhp (sampleRun.performUninstall (sampleWorld besideHomebrew)).2.disk.tree
        (PackagesRoot.fromHome ["h".toList]) [brewPrefix] fun _ => none).runtimes =
          [⟨"8.4".toList, brewLink ++ Php.fpmRel, .homebrew⟩] := by
  have hdone : (sampleRun.performUninstall (sampleWorld besideHomebrew)).1 = .ok .done := by
    decide
  have hread : sampleRun.packaged = sampleRun.target.packaged besideHomebrew sampleRun.home := by
    decide
  refine ⟨(gone_iff_alone rfl hread rfl (Prod.ext hdone rfl) [brewPrefix] fun _ => none).1 ?_
    separate_besideHomebrew, by decide⟩
  have hnames : besideHomebrew.readDir (majorDir ["h".toList] php84) =
      .ok ["current".toList, "8.4.24".toList] := by
    decide
  have hversion : currentVersion besideHomebrew (currentLink ["h".toList] php84) =
      some "8.4.24".toList := by
    decide
  intro names h n hn
  rw [show besideHomebrew.readDir (majorDir ["h".toList] php84) = .ok names from h] at hnames
  cases hnames
  rcases List.mem_cons.mp hn with rfl | hn
  · exact .inl rfl
  · rw [List.mem_singleton.mp hn]
    exact .inr hversion

/-- **An older version directory is reported as a broken install** once the selected one
is gone. -/
theorem older_version_stays :
    (sampleRun.performUninstall (sampleWorld twoVersions)).1 = .ok .done ∧
    sampleRun.packaged = sampleRun.target.packaged twoVersions sampleRun.home ∧
    ¬ Converged twoVersions (sampleRun.performUninstall (sampleWorld twoVersions)).2.disk.tree
      ["h".toList] php84 [] fun _ => none := by
  have hlisted : majorDir ["h".toList] php84 ∈ (Php.phpEngine.discoverPackaged
      (sampleRun.performUninstall (sampleWorld twoVersions)).2.disk.tree
      (PackagesRoot.fromHome ["h".toList])).unidentified := by
    decide
  exact ⟨by decide, by decide, fun h => h.unidentified hlisted⟩

end OpenVHost.Uninstall
