/-
# What an uninstall cleans up, and when

The generated pool configuration and the service row of a version are to be removed only
once the program files are gone. A package tree whose removal is refused ends the run; one
whose removal fails is a problem to report, and the run goes on.

* `performAll_trace` — a run is its steps.
* `cleansUpLast_iff` — when no step cleans up in front of the program files.
-/

import OpenVHost.Uninstall.Converge

namespace OpenVHost.Uninstall

open FileTree FileTree.Io OpenVHost.Runtime
open Proc (ServiceId ServiceState ServiceStatus)

/-! ### The steps of a run -/

/-- A removal that was tried, and the world before and after it. -/
structure Step where
  removal : Removal
  before : World
  after : World

def Removal.isCleanUp : Removal → Bool
  | .brewFormula _ _ | .packageTree _ _ => false
  | .generatedFile _ _ | .serviceRow _ => true

/-- A file or a row is there before the step and not after it. -/
def Step.Removes (s : Step) : Prop :=
  (∃ q, s.before.disk.tree.has q = true ∧ s.after.disk.tree.has q = false) ∨
    ∃ row ∈ s.before.rows, row ∉ s.after.rows

namespace UninstallRun

variable (run : UninstallRun)

/-- The steps of `performAll`. -/
def trace : List Removal → World → List Step
  | [], _ => []
  | removal :: rest, w =>
      match run.perform removal w with
      | (.error _, w') => [⟨removal, w, w'⟩]
      | (.ok _, w') => ⟨removal, w, w'⟩ :: trace rest w'

/-- The steps of `performUninstall`. -/
def steps (w : World) : List Step :=
  match blockers run.target w.rows run.sites run.keg run.packaged with
  | [] => run.trace (inventory run.target run.home run.packaged) w
  | _ :: _ => []

/-- The program files that a removal is for are gone in `u`, in a run from `w`. -/
def ProgramFilesGone (w u : World) : Removal → Prop
  | .brewFormula _ _ => run.uninstallSpec = .ok () ∧ (run.brew w).1 = .ok (some 0)
  | .packageTree path _ => ∀ real, w.disk.tree.locate path = .ok real →
      u.disk.tree.node real = none
  | .generatedFile _ _ | .serviceRow _ => True

/-- Whatever rows there are, a run from this disk cleans up only after the program files. -/
def CleansUpLast (d : Disk) : Prop :=
  ∀ rows, ∀ s ∈ run.steps ⟨d, rows⟩, s.removal.isCleanUp = true → s.Removes →
    ∀ removal ∈ inventory run.target run.home run.packaged,
      run.ProgramFilesGone ⟨d, rows⟩ s.before removal

/-- A package tree that was found to be the application's own is still there when its recursive
removal has failed. -/
def LeavesTree (path : Path) (d : Disk) : Prop :=
  ∃ d₁ e d₂ real, (confine run.packages path : Io UninstallError _) d = .ok .contained d₁ ∧
    d₁.tree.locate path = .ok real ∧ Io.removeTree run.os path d₁ = .error e d₂ ∧
    d₂.tree.has real = true

/-- No site is in the way, and the package tree is left. -/
def TreeLeft (d : Disk) : Prop :=
  siteBlocker run.target run.sites = none ∧
    ∃ path what, .packageTree path what ∈ inventory run.target run.home run.packaged ∧
      run.LeavesTree path d

variable {run} {w w' u : World} {removal : Removal} {rest : List Removal} {s : Step}

theorem trace_cons_ok {problems : List Problem}
    (h : run.perform removal w = (.ok problems, w')) :
    run.trace (removal :: rest) w = ⟨removal, w, w'⟩ :: run.trace rest w' := by
  rw [trace, h]

/-- **A run is its steps**: each starts where the one before it ends, and so does the result. -/
theorem performAll_trace : ∀ (rest : List Removal) (problems : List Problem) (w : World),
    (run.performAll rest problems w).2 = ((run.trace rest w).getLast?.map Step.after).getD w
  | [], [], _ => rfl
  | [], _ :: _, _ => rfl
  | removal :: rest, problems, w => by
      unfold performAll trace
      cases hstep : run.perform removal w with
      | mk r w' =>
          cases r with
          | error e => rfl
          | ok more =>
              dsimp only
              rw [performAll_trace rest (problems ++ more) w', List.getLast?_cons]
              cases (run.trace rest w').getLast? <;> rfl

/-- What follows the program files takes entries away, and adds none. -/
theorem trimmed_of_mem_trace : ∀ {rest : List Removal} {w : World},
    (∀ r ∈ rest, Follows r) → s ∈ run.trace rest w →
      Trimmed (run.Region w.disk.tree) w.disk.tree s.before.disk.tree
  | removal :: rest, w, hf, hs => by
      obtain ⟨problems, w', hstep, ht⟩ := run.perform_follows (hf removal List.mem_cons_self) w
      rw [trace_cons_ok hstep] at hs
      rcases List.mem_cons.mp hs with rfl | hs
      · exact Trimmed.refl _ _
      · have hrest := trimmed_of_mem_trace (fun r hr => hf r (List.mem_cons_of_mem _ hr)) hs
        exact run.trimmed_trans ht hrest

/-! ### A package tree that is gone -/

theorem attempt_eq_ok {ε ε' α : Type} {x : Io ε α} {r : Except ε α} {d d' : Disk} :
    (attempt x : Io ε' _) d = .ok r d' ↔
      (∃ a, r = .ok a ∧ x d = .ok a d') ∨ ∃ e, r = .error e ∧ x d = .error e d' := by
  unfold attempt
  cases x d with
  | ok a d₁ =>
      constructor
      · intro h
        cases h
        exact .inl ⟨a, rfl, rfl⟩
      · rintro (⟨a', rfl, h⟩ | ⟨e, rfl, h⟩) <;> cases h
        rfl
  | error e d₁ =>
      constructor
      · intro h
        cases h
        exact .inr ⟨e, rfl, rfl⟩
      · rintro (⟨a', rfl, h⟩ | ⟨e, rfl, h⟩) <;> cases h
        rfl

/-- A removal that goes on has removed the tree, or has left it. -/
theorem gone_of_removeVersionTree {d d' : Disk} {path : Path} {what : String}
    {problem : Option Problem} (h : run.removeVersionTree path what d = .ok problem d') :
    (∀ real, d.tree.locate path = .ok real → d'.tree.node real = none) ∨
      run.LeavesTree path d := by
  obtain ⟨c, d₁, hconf, h⟩ := io_bind_eq_ok.mp h
  have hfound : wp (confine run.packages path : Io UninstallError _) (fun c d' => Kept d d' ∧
      (c = .contained → ∃ real, Contained d.tree run.packages path real) ∧
      (c = .absent → d.tree.lstat path = .error .notFound)) (fun _ _ => True) d :=
    wp_confine fun c d' hk hcontained habsent => ⟨hk, hcontained, habsent⟩
  obtain ⟨hk, hcontained, habsent⟩ := wp_ok hfound hconf
  cases c with
  | refused reason => cases h
  | absent =>
      refine .inl fun real hreal => ?_
      have hmissing := habsent rfl
      rw [Tree.lstat, hreal] at hmissing
      have hd' : d' = d₁ := by
        cases h
        rfl
      rw [hd', hk.tree]
      dsimp only at hmissing
      split at hmissing
      next hnone => exact hnone
      next => cases hmissing
  | contained =>
      obtain ⟨real, hreal⟩ := hcontained rfl
      rw [← hk.tree] at hreal
      have hne : real ≠ [] := by
        obtain ⟨rootReal, -, hpre, hne⟩ := hreal.below
        rintro rfl
        exact hne (List.prefix_nil.mp hpre).symm
      obtain ⟨r, d₂, hremove, h⟩ := io_bind_eq_ok.mp h
      have hd' : d' = d₂ := by
        rcases r with e | ⟨⟩
        · cases e <;> cases h <;> rfl
        · cases h
          rfl
      rw [hd', ← hk.tree]
      rcases attempt_eq_ok.mp hremove with ⟨⟨⟩, -, hok⟩ | ⟨e, -, herr⟩
      · refine .inl fun real' hreal' => ?_
        have hgone : wp (Io.removeTree run.os path)
            (fun _ d' => real ≠ [] → d'.tree.node real = none) (fun _ _ => True) d₁ :=
          wp_removeTree run.os hreal.located (fun _ _ hgone => hgone) fun _ _ _ _ => trivial
        rw [hreal.located] at hreal'
        cases hreal'
        exact wp_ok hgone hok hne
      · cases hleft : d₂.tree.has real with
        | true => exact .inr ⟨d₁, e, d₂, real, hconf, hreal.located, herr, hleft⟩
        | false =>
            refine .inl fun real' hreal' => ?_
            rw [hreal.located] at hreal'
            cases hreal'
            exact Option.not_isSome_iff_eq_none.mp (by simpa [Tree.has] using hleft)

/-- The link that selected the version is all that the step removes besides the tree. -/
theorem wp_clearDanglingCurrent_link {ε : Type} {d : Disk} {root path : Path} {n : Name}
    (hn : special n = false) :
    wp (clearDanglingCurrent root (path ++ [n]) : Io ε _)
      (fun _ d' => Trimmed (fun q => ∃ target, d.tree.node q = some (.symlink target))
        d.tree d'.tree) (fun _ _ => False) d := by
  rw [clearDanglingCurrent, parent_concat]
  dsimp only
  rw [wp_bind]
  refine wp_confine fun c d₁ hk hcontained _ => ?_
  cases c with
  | absent => exact Trimmed.of_eq hk.tree
  | refused reason => exact Trimmed.of_eq hk.tree
  | contained =>
      obtain ⟨real, hreal⟩ := hcontained rfl
      dsimp only
      rw [wp_bind, wp_attempt, stat]
      refine wp_query (fun x d₂ hk₂ _ => Trimmed.of_eq (hk.trans hk₂).tree) fun e d₂ hk₂ _ => ?_
      have hkept := (hk.trans hk₂).tree
      cases e with
      | notFound =>
          dsimp only
          rw [wp_bind, wp_attempt, removeCurrent, wp_bind, wp_attempt, lstat]
          rw [← hkept] at hreal ⊢
          refine wp_query (fun x d₃ hk₃ hx => ?_) fun e d₃ hk₃ _ => ?_
          · dsimp only
            split
            next hlink =>
              rw [wp_mapErr]
              rw [← hk₃.tree] at hreal hx ⊢
              refine wp_removeFile hn hreal.resolved (fun d₄ _ ht => ?_)
                fun e d₄ hk₄ _ => Trimmed.of_eq hk₄.tree
              refine ht.mono fun q hq => ?_
              rw [hq]
              rw [Tree.lstat, Tree.locate_concat hn, hreal.resolved] at hx
              dsimp only at hx
              split at hx
              next => cases hx
              next l hl =>
                split at hl
                next =>
                  cases hl
                  split at hx
                  next => cases hx
                  next y hy =>
                    cases hx
                    cases x with
                    | symlink target => exact ⟨target, hy⟩
                    | dir m => cases hlink
                    | file content m => cases hlink
                next => cases hl
            next => exact Trimmed.of_eq hk₃.tree
          · cases e <;> exact Trimmed.of_eq hk₃.tree
      | _ => exact Trimmed.of_eq hkept

theorem gone_of_perform {path : Path} {what : String} {problems : List Problem}
    (h : run.perform (.packageTree path what) w = (.ok problems, w')) :
    (∀ real, w.disk.tree.locate path = .ok real → w'.disk.tree.node real = none) ∨
      run.LeavesTree path w.disk := by
  obtain ⟨problem, d₁, hversion, hlink⟩ := io_bind_eq_ok.mp (onDisk_eq_ok h)
  obtain ⟨dangling, d₂, hclear, hend⟩ := io_bind_eq_ok.mp hlink
  have hd₂ : d₂ = w'.disk := by
    cases hend
    rfl
  obtain ⟨above, habove⟩ := packagedCurrentLink_eq run.target run.home
  rw [habove] at hclear
  have ht := wp_ok (wp_clearDanglingCurrent_link (by decide)) hclear
  rw [hd₂] at ht
  refine (gone_of_removeVersionTree hversion).imp (fun hgone real hreal => ?_) id
  rcases ht real with heq | ⟨hnone, -⟩
  · rw [heq]
    exact hgone real hreal
  · exact hnone

theorem mem_trace_cons (h : s ∈ run.trace (removal :: rest) w) (hne : s.removal ≠ removal) :
    ∃ problems w', run.perform removal w = (.ok problems, w') ∧ s ∈ run.trace rest w' := by
  unfold trace at h
  split at h
  next w' _ =>
    rw [List.mem_singleton.mp h] at hne
    exact absurd rfl hne
  next problems w' hstep =>
    rcases List.mem_cons.mp h with rfl | h
    · exact absurd rfl hne
    · exact ⟨problems, w', hstep, h⟩

theorem exited_of_perform {formula : List Char} {what : String} {problems : List Problem}
    (h : run.perform (.brewFormula formula what) w = (.ok problems, w')) :
    run.uninstallSpec = .ok () ∧ (run.brew w).1 = .ok (some 0) := by
  unfold perform runBrew at h
  cases hspec : run.uninstallSpec with
  | error e => simp [hspec] at h
  | ok u =>
      refine ⟨rfl, ?_⟩
      simp only [hspec] at h
      cases hbrew : run.brew w with
      | mk r w₁ =>
          rw [hbrew] at h
          rcases r with e | code
          · simp at h
          · cases code with
            | none => simp at h
            | some code =>
                by_cases hzero : code = 0
                · rw [hzero]
                · simp at h

/-- A run that does not leave the tree cleans up last. -/
theorem cleansUpLast_of_not_left {d : Disk} (hleft : ¬ run.TreeLeft d) : run.CleansUpLast d := by
  intro rows s hs hclean _ removal hmem
  obtain ⟨first, rest, hinv, hfirst, hrest⟩ :=
    inventory_cases run.target run.home run.packaged
  unfold steps at hs
  cases hb : blockers run.target rows run.sites run.keg run.packaged with
  | cons blocker more => simp [hb] at hs
  | nil =>
      simp only [hb, hinv] at hs
      have hsite : siteBlocker run.target run.sites = none := by
        have hnil := (List.append_eq_nil_iff.mp hb).2
        simpa using hnil
      have hne : s.removal ≠ first := by
        rintro rfl
        rcases hfirst with ⟨formula, what, heq⟩ | ⟨path, what, heq⟩ <;>
          simp [heq, Removal.isCleanUp] at hclean
      obtain ⟨problems, w', hstep, hs⟩ := mem_trace_cons hs hne
      have ht := trimmed_of_mem_trace hrest hs
      rw [hinv] at hmem
      rcases List.mem_cons.mp hmem with rfl | hmem
      · rcases hfirst with ⟨formula, what, rfl⟩ | ⟨path, what, rfl⟩
        · exact exited_of_perform hstep
        · intro real hreal
          rcases gone_of_perform hstep with hgone | hleaves
          · rcases ht real with heq | ⟨hnone, -⟩
            · rw [heq]
              exact hgone real hreal
            · exact hnone
          · refine absurd ⟨hsite, path, what, ?_, hleaves⟩ hleft
            rw [hinv]
            exact List.mem_cons_self
      · have hf := hrest removal hmem
        cases removal with
        | brewFormula formula what => exact hf.elim
        | packageTree path what => exact hf.elim
        | generatedFile path what => exact trivial
        | serviceRow id => exact trivial

/-! ### A package tree that is left -/

/-- The run goes on behind a tree that it has left. -/
theorem perform_of_left {d : Disk} {rows : List ServiceStatus} {path : Path} (what : String)
    (h : run.LeavesTree path d) : ∃ problems d' real, d.tree.locate path = .ok real ∧
      run.perform (.packageTree path what) ⟨d, rows⟩ = (.ok problems, ⟨d', rows⟩) ∧
      d'.tree.has real = true := by
  obtain ⟨d₁, e, d₂, real, hconf, hlocated, herr, hhas⟩ := h
  have hfound : wp (confine run.packages path : Io UninstallError _) (fun c d' => Kept d d' ∧
      (c = .contained → ∃ real, Contained d.tree run.packages path real)) (fun _ _ => True) d :=
    wp_confine fun c d' hk hcontained _ => ⟨hk, hcontained⟩
  obtain ⟨hk, hcontained⟩ := wp_ok hfound hconf
  obtain ⟨real', hreal⟩ := hcontained rfl
  rw [hk.tree] at hlocated
  have hsame : real' = real := Except.ok.inj (hreal.located.symm.trans hlocated)
  subst hsame
  have hfailed : wp (Io.removeTree run.os path) (fun _ _ => True)
      (fun e d' => Trimmed (real' <+: ·) d₁.tree d'.tree ∧
        (e = .notFound → d₁.tree.node real' = none)) d₁ :=
    wp_removeTree run.os (hk.tree ▸ hlocated) (fun _ _ _ => trivial) fun _ _ ht hnone =>
      ⟨ht, hnone⟩
  obtain ⟨ht, hnone⟩ := wp_error hfailed herr
  obtain ⟨x, hx⟩ := Option.isSome_iff_exists.mp hhas
  have hx₁ := ht.node hx
  have hversion : run.removeVersionTree path what d =
      .ok (some (.treeNotRemoved what path e)) d₂ := by
    refine io_bind_eq_ok.mpr ⟨.contained, d₁, hconf, ?_⟩
    refine io_bind_eq_ok.mpr ⟨.error e, d₂, attempt_eq_ok.mpr (.inr ⟨e, rfl, herr⟩), ?_⟩
    cases e with
    | notFound =>
        rw [hnone rfl] at hx₁
        cases hx₁
    | _ => rfl
  obtain ⟨above, habove⟩ := packagedCurrentLink_eq run.target run.home
  have hclear : wp (clearDanglingCurrent run.packages (run.target.packagedCurrentLink run.home))
      (fun _ d' => Trimmed (fun q => ∃ target, d₂.tree.node q = some (.symlink target))
        d₂.tree d'.tree) (fun (_ : UninstallError) _ => False) d₂ := by
    rw [habove]
    exact wp_clearDanglingCurrent_link (by decide)
  cases hrun : (clearDanglingCurrent run.packages (run.target.packagedCurrentLink run.home) :
      Io UninstallError _) d₂ with
  | error e' d₃ => exact (wp_error hclear hrun).elim
  | ok dangling d₃ =>
      have hend : run.removePackageTree path what d =
          .ok (.treeNotRemoved what path e :: dangling.toList) d₃ :=
        io_bind_eq_ok.mpr ⟨_, d₂, hversion, io_bind_eq_ok.mpr ⟨dangling, d₃, hrun, rfl⟩⟩
      refine ⟨.treeNotRemoved what path e :: dangling.toList, d₃, real', hlocated, ?_, ?_⟩
      · simp only [perform, onDisk, hend]
      · -- what is left is no link
        have hsolid : ¬ ∃ target, d₂.tree.node real' = some (.symlink target) := by
          rintro ⟨target, htarget⟩
          rw [hx] at htarget
          cases htarget
          rw [hk.tree] at hx₁
          exact hreal.solid target hx₁
        rw [Tree.has, (wp_ok hclear hrun).outside hsolid]
        exact hhas

theorem onDisk_rows {ε α : Type} (x : Io ε α) (w : World) : (onDisk x w).2.rows = w.rows := by
  unfold onDisk
  split <;> rfl

/-- Where something is left, what follows the program files cleans up beside it. -/
theorem cleansUp_beside {row : ServiceStatus} {q : Path} (hid : row.id = run.target.serviceId)
    (hstate : row.state = .stopped) : ∀ {files : List Removal} {w : World},
      (∀ r ∈ files, Follows r ∧ ∃ path what, r = .generatedFile path what) → w.rows = [row] →
        w.disk.tree.has q = true →
          ∃ s ∈ run.trace (files ++ [.serviceRow run.target.serviceId]) w,
            s.removal.isCleanUp = true ∧ s.Removes ∧ s.before.disk.tree.has q = true
  | [], w, _, hrows, hq => by
      have hun : unregister w.rows run.target.serviceId = .ok [] := by
        simp [unregister, hrows, hid, hstate, Proc.World.checkTerminal]
      have hstep : run.perform (.serviceRow run.target.serviceId) w =
          (.ok [], { w with rows := [] }) := by
        simp only [perform, removeServiceRow, hun]
      rw [List.nil_append, trace_cons_ok hstep]
      refine ⟨_, List.mem_cons_self, rfl, .inr ⟨row, ?_, List.not_mem_nil⟩, hq⟩
      rw [hrows]
      exact List.mem_singleton_self row
  | file :: files, w, hf, hrows, hq => by
      obtain ⟨hfollows, path, what, rfl⟩ := hf file List.mem_cons_self
      obtain ⟨problems, w', hstep, -⟩ := run.perform_follows hfollows w
      rw [List.cons_append, trace_cons_ok hstep]
      by_cases hremoves : Step.Removes ⟨.generatedFile path what, w, w'⟩
      · exact ⟨_, List.mem_cons_self, rfl, hremoves, hq⟩
      · have hrows' : w'.rows = [row] := by
          have hkept : (run.perform (.generatedFile path what) w).2.rows = w.rows :=
            onDisk_rows _ w
          rw [hstep, hrows] at hkept
          exact hkept
        have hq' : w'.disk.tree.has q = true := by
          by_contra hgone
          exact hremoves (.inl ⟨q, hq, by simpa using hgone⟩)
        obtain ⟨s, hs, h⟩ := cleansUp_beside hid hstate
          (fun r hr => hf r (List.mem_cons_of_mem _ hr)) hrows' hq'
        exact ⟨s, List.mem_cons_of_mem _ hs, h⟩

theorem inventory_packageTree {target : Target} {home path : Path} {what : String}
    {packaged : Option PackagedPhp} (h : .packageTree path what ∈ inventory target home packaged) :
    target.formula packaged = none ∧ ∃ files,
      inventory target home packaged =
        .packageTree path what :: (files ++ [.serviceRow target.serviceId]) ∧
      ∀ r ∈ files, Follows r ∧ ∃ path what, r = .generatedFile path what := by
  cases target with
  | mysql major => simp [inventory] at h
  | mariadb =>
      obtain ⟨rfl, rfl⟩ : path = _ ∧ what = _ := by simpa [inventory] using h
      exact ⟨rfl, [], rfl, fun r hr => absurd hr List.not_mem_nil⟩
  | php major =>
      cases packaged with
      | none => simp [inventory] at h
      | some pkg =>
          obtain ⟨rfl, rfl⟩ : path = _ ∧ what = _ := by simpa [inventory] using h
          refine ⟨rfl, [_], rfl, fun r hr => ?_⟩
          rw [List.mem_singleton.mp hr]
          exact ⟨⟨generatedConfigRoot home ++ ["php".toList, major.asStr], "php-fpm.conf".toList,
            by simp [phpPoolConfigPath], by decide⟩, _, _, rfl⟩

/-- The row of a version whose service is stopped. -/
def stoppedRow (target : Target) : ServiceStatus := ⟨target.serviceId, "", none, none, .stopped⟩

theorem blockers_stopped {packaged : Option PackagedPhp}
    (hformula : run.target.formula packaged = none)
    (hsite : siteBlocker run.target run.sites = none) (keg : Option KegProvenance) :
    blockers run.target [stoppedRow run.target] run.sites keg packaged = [] := by
  have hkeg : (keg.bind fun keg => kegBlocker run.target keg packaged) = none := by
    cases keg with
    | none => rfl
    | some keg => simp [kegBlocker, hformula]
  simp [blockers, hkeg, hsite, stoppedRow, serviceBlocker]

/-- **An uninstall cleans up last exactly where it does not leave the package tree.** -/
theorem cleansUpLast_iff (run : UninstallRun) (d : Disk) :
    run.CleansUpLast d ↔ ¬ run.TreeLeft d := by
  refine ⟨?_, cleansUpLast_of_not_left⟩
  rintro h ⟨hsite, path, what, hmem, hleaves⟩
  obtain ⟨hformula, files, hinv, hfiles⟩ := inventory_packageTree hmem
  have hrow : (stoppedRow run.target).id = run.target.serviceId := rfl
  obtain ⟨problems, d', real, hlocated, hstep, hhas⟩ := perform_of_left what hleaves
  have hrows : (World.mk d' [stoppedRow run.target]).rows = [stoppedRow run.target] := rfl
  obtain ⟨s, hs, hclean, hremoves, hleft⟩ := cleansUp_beside hrow rfl hfiles hrows hhas
  have hsteps : s ∈ run.steps ⟨d, [stoppedRow run.target]⟩ := by
    rw [steps, blockers_stopped hformula hsite]
    dsimp only
    rw [hinv, trace_cons_ok hstep]
    exact List.mem_cons_of_mem _ hs
  have hgone := h _ s hsteps hclean hremoves _ hmem real hlocated
  rw [Tree.has, hgone] at hleft
  cases hleft

end UninstallRun

/-- The package tree of `oneVersion` cannot be removed. -/
def lockedDisk : Disk := ⟨oneVersion, [none, none, none, some ⟨13, 0⟩], []⟩

/-- A cleanup that forgets the row beside what is at `q`. -/
def forgetsBeside (row : ServiceStatus) (q : Path) (s : Step) : Bool :=
  s.removal.isCleanUp && s.before.rows.contains row && !s.after.rows.contains row &&
    s.before.disk.tree.has q

/-- **A row is forgotten while the version is installed.** The removal of the package tree is
denied, and the run goes on to the service row. -/
theorem row_forgotten_beside_tree : ¬ sampleRun.CleansUpLast lockedDisk := by
  intro h
  have hany : (sampleRun.steps ⟨lockedDisk, [UninstallRun.stoppedRow sampleRun.target]⟩).any
      (forgetsBeside (UninstallRun.stoppedRow sampleRun.target)
        (sampleMajorDir ++ ["8.4.24".toList])) = true := by
    decide
  have hlocated : lockedDisk.tree.locate (sampleMajorDir ++ ["8.4.24".toList]) =
      .ok (sampleMajorDir ++ ["8.4.24".toList]) := by
    decide
  obtain ⟨s, hs, hforgets⟩ := List.any_eq_true.mp hany
  simp only [forgetsBeside, Bool.and_eq_true, Bool.not_eq_true', List.contains_eq_mem,
    decide_eq_true_eq, decide_eq_false_iff_not] at hforgets
  obtain ⟨⟨⟨hclean, hbefore⟩, hafter⟩, hthere⟩ := hforgets
  have hgone := h _ s hs hclean (.inr ⟨_, hbefore, hafter⟩)
    (.packageTree (sampleMajorDir ++ ["8.4.24".toList]) "The PHP 8.4 program files")
    (by decide) _ hlocated
  rw [Tree.has, hgone] at hthere
  cases hthere

end OpenVHost.Uninstall
