/-
# What an uninstall can remove

* `wp_confine` — a contained path is the one that is removed, strictly inside its root.
* `uninstall_confined` — the application's own removals take entries strictly inside the
  package tree or the generated configuration, and a run that fails takes none.
-/

import OpenVHost.Uninstall.Model

namespace OpenVHost.Uninstall

open FileTree FileTree.Io OpenVHost.Runtime

/-- `q` is strictly inside what `root` resolves to. -/
def Below (t : Tree) (root q : Path) : Prop :=
  ∃ real, t.resolve root = .ok real ∧ real <+: q ∧ q ≠ real

theorem Below.of_trimmed {R : Path → Prop} {t t' : Tree} {root q : Path} (h : Trimmed R t t')
    (hq : Below t' root q) : Below t root q := by
  obtain ⟨real, hreal, hpre, hne⟩ := hq
  exact ⟨real, h.resolve hreal, hpre, hne⟩

theorem Below.append {t : Tree} {root q s : Path} (h : Below t root q) (hs : q <+: s) :
    Below t root s := by
  obtain ⟨real, hreal, hpre, hne⟩ := h
  refine ⟨real, hreal, hpre.trans hs, ?_⟩
  rintro rfl
  exact hne (List.IsPrefix.eq_of_length hpre (Nat.le_antisymm hpre.length_le hs.length_le)).symm

/-! ### The steps on the disk -/

section Steps

variable {ε : Type} {E : ε → Disk → Prop} {d : Disk} {root path : Path}

/-- What a check of a path found. -/
structure Contained (t : Tree) (root path real : Path) : Prop where
  located : t.locate path = .ok real
  solid : ∀ target, t.node real ≠ some (.symlink target)
  resolved : t.resolve path = .ok real
  below : Below t root real

theorem wp_confine {Q : Confinement → Disk → Prop}
    (h : ∀ c d', Kept d d' →
      (c = .contained → ∃ real, Contained d.tree root path real) →
      (c = .absent → d.tree.lstat path = .error .notFound) → Q c d') :
    wp (confine root path) Q E d := by
  rw [confine, wp_bind, wp_attempt, lstat]
  refine wp_query (fun x d₁ hk hx => ?_) fun e d₁ hk he => ?_
  · dsimp only
    split
    next => exact h _ d₁ hk (fun hc => by cases hc) fun hc => by cases hc
    next hlink =>
      rw [wp_bind, wp_attempt, canonicalize]
      refine wp_query (fun real d₂ hk₂ hreal => ?_) fun e d₂ hk₂ _ => ?_
      · dsimp only
        rw [wp_bind, wp_attempt, canonicalize]
        refine wp_query (fun realRoot d₃ hk₃ hroot => ?_) fun e d₃ hk₃ _ => ?_
        · have hkept := (hk.trans hk₂).trans hk₃
          rw [hk.tree] at hreal
          rw [(hk.trans hk₂).tree] at hroot
          dsimp only
          split
          next hin =>
            obtain ⟨hpre, hne⟩ : realRoot <+: real ∧ real ≠ realRoot := by
              simpa [List.isPrefixOf_iff_prefix] using hin
            have hlocated := Tree.locate_of_resolve hx (by simpa using hlink) hreal
            have hsolid : ∀ target, d.tree.node real ≠ some (.symlink target) := by
              intro target htarget
              rw [Tree.lstat, hlocated] at hx
              simp only [htarget, Except.ok.injEq] at hx
              subst hx
              simp [Node.isSymlink] at hlink
            exact h _ d₃ hkept
              (fun _ => ⟨real, hlocated, hsolid, hreal, realRoot, hroot, hpre, hne⟩)
              fun hc => by cases hc
          next => exact h _ d₃ hkept (fun hc => by cases hc) fun hc => by cases hc
        · exact h _ d₃ ((hk.trans hk₂).trans hk₃) (fun hc => by cases hc) fun hc => by cases hc
      · exact h _ d₂ (hk.trans hk₂) (fun hc => by cases hc) fun hc => by cases hc
  · cases e with
    | notFound =>
        refine h _ d₁ hk (fun hc => by cases hc) fun _ => ?_
        exact he.own (.inr fun code hc => by cases hc)
    | _ => exact h _ d₁ hk (fun hc => by cases hc) fun hc => by cases hc

theorem parent_concat (p : Path) (n : Name) : parent (p ++ [n]) = some p := by
  simp [parent]

/-- The removal of a file whose directory is contained takes at most that file. -/
theorem wp_removeFile_below {n : Name} {Q : Except Errno Unit → Disk → Prop} {real : Path}
    (hn : special n = false) (hc : Contained d.tree root path real)
    (h : ∀ r d', Trimmed (Below d.tree root) d.tree d'.tree → Q r d') :
    wp (attempt (removeFile (path ++ [n])) : Io ε _) Q E d := by
  rw [wp_attempt]
  refine wp_removeFile hn hc.resolved (fun d' _ ht => ?_) fun e d' hk _ =>
    h _ d' (Trimmed.of_eq hk.tree)
  refine h _ d' (ht.mono fun q hq => ?_)
  rw [hq]
  exact hc.below.append (List.prefix_append _ _)

theorem wp_removeGeneratedFile {n : Name} {what : String} (hn : special n = false) :
    wp (removeGeneratedFile root (path ++ [n]) what : Io ε _)
      (fun _ d' => Trimmed (Below d.tree root) d.tree d'.tree) E d := by
  rw [removeGeneratedFile, parent_concat]
  dsimp only
  rw [wp_bind]
  refine wp_confine fun c d₁ hk hcontained _ => ?_
  cases c with
  | absent => exact Trimmed.of_eq hk.tree
  | refused reason => exact Trimmed.of_eq hk.tree
  | contained =>
      obtain ⟨real, hreal⟩ := hcontained rfl
      rw [← hk.tree] at hreal ⊢
      rw [wp_bind]
      refine wp_removeFile_below hn hreal fun r d₂ ht => ?_
      rcases r with e | ⟨⟩
      · cases e <;> exact ht
      · exact ht

theorem wp_removeCurrent {n : Name} {real : Path} {E : LinkError → Disk → Prop}
    {Q : Unit → Disk → Prop} (hn : special n = false) (hc : Contained d.tree root path real)
    (h : ∀ d', Trimmed (Below d.tree root) d.tree d'.tree → Q () d' ∧ ∀ e, E e d') :
    wp (removeCurrent (path ++ [n])) Q E d := by
  rw [removeCurrent, wp_bind, wp_attempt, lstat]
  refine wp_query (fun x d₁ hk _ => ?_) fun e d₁ hk _ => ?_
  · dsimp only
    split
    next =>
      rw [wp_mapErr]
      rw [← hk.tree] at hc h
      have hstep : wp (attempt (removeFile (path ++ [n])) : Io LinkError _)
          (fun _ d₂ => Q () d₂ ∧ ∀ e, E e d₂) (fun _ _ => False) d₁ :=
        wp_removeFile_below hn hc fun _ d₂ ht => h d₂ ht
      rw [wp_attempt] at hstep
      exact wp_mono hstep (fun _ _ hq => hq.1) fun e _ hq => hq.2 _
    next => exact (h d₁ (Trimmed.of_eq hk.tree)).2 _
  · cases e with
    | notFound => exact (h d₁ (Trimmed.of_eq hk.tree)).1
    | _ => exact (h d₁ (Trimmed.of_eq hk.tree)).2 _

theorem wp_clearDanglingCurrent {n : Name} (hn : special n = false) :
    wp (clearDanglingCurrent root (path ++ [n]) : Io ε _)
      (fun _ d' => Trimmed (Below d.tree root) d.tree d'.tree) E d := by
  rw [clearDanglingCurrent, parent_concat]
  dsimp only
  rw [wp_bind]
  refine wp_confine fun c d₁ hk hcontained _ => ?_
  cases c with
  | absent => exact Trimmed.of_eq hk.tree
  | refused reason => exact Trimmed.of_eq hk.tree
  | contained =>
      obtain ⟨real, hreal⟩ := hcontained rfl
      dsimp only
      rw [wp_bind, wp_attempt, stat]
      refine wp_query (fun x d₂ hk₂ _ => ?_) fun e d₂ hk₂ _ => ?_
      · exact Trimmed.of_eq (hk.trans hk₂).tree
      · have hkept := (hk.trans hk₂).tree
        cases e with
        | notFound =>
            dsimp only
            rw [wp_bind, wp_attempt]
            rw [← hkept] at hreal ⊢
            exact wp_removeCurrent hn hreal fun d₃ ht => ⟨ht, fun e => ht⟩
        | _ => exact Trimmed.of_eq hkept

theorem wp_removeTree_below {os : Interruption} {Q : Except Errno Unit → Disk → Prop} {real : Path}
    (hc : Contained d.tree root path real)
    (h : ∀ r d', Trimmed (Below d.tree root) d.tree d'.tree → Q r d') :
    wp (attempt (removeTree os path) : Io ε _) Q E d := by
  rw [wp_attempt]
  have hmono : ∀ d' : Disk, Trimmed (real <+: ·) d.tree d'.tree →
      Trimmed (Below d.tree root) d.tree d'.tree :=
    fun d' ht => ht.mono fun q hq => hc.below.append hq
  exact wp_removeTree os hc.located (fun d' ht _ => h _ d' (hmono d' ht))
    fun e d' ht _ => h _ d' (hmono d' ht)

end Steps

/-! ### The run -/

namespace UninstallRun

variable (run : UninstallRun) {w w' : World}

/-- The two regions of an uninstall, as a tree resolves them. -/
def Region (t : Tree) (q : Path) : Prop :=
  Below t run.packages q ∨ Below t (generatedConfigRoot run.home) q

theorem Region.of_trimmed {R : Path → Prop} {t t' : Tree} {q : Path} (h : Trimmed R t t')
    (hq : run.Region t' q) : run.Region t q :=
  Or.imp (fun hb => hb.of_trimmed h) (fun hb => hb.of_trimmed h) hq

/-- Steps of a run that go through take entries of the regions. -/
theorem trimmed_trans {t t' t'' : Tree} (h : Trimmed (run.Region t) t t')
    (h' : Trimmed (run.Region t') t' t'') : Trimmed (run.Region t) t t'' :=
  h.trans (h'.mono fun _ hq => Region.of_trimmed run h hq)

/-- The directory and the name of the `current` link. -/
theorem packagedCurrentLink_eq (target : Target) (home : Path) :
    ∃ above, target.packagedCurrentLink home = above ++ ["current".toList] := by
  cases target <;> exact ⟨_, rfl⟩

theorem wp_removeVersionTree {d : Disk} {path : Path} {what : String} :
    wp (run.removeVersionTree path what)
      (fun _ d' => Trimmed (run.Region d.tree) d.tree d'.tree)
      (fun _ d' => d'.tree = d.tree) d := by
  rw [removeVersionTree, wp_bind]
  refine wp_confine fun c d₁ hk hcontained _ => ?_
  cases c with
  | absent => exact Trimmed.of_eq hk.tree
  | refused reason => exact hk.tree
  | contained =>
      obtain ⟨real, hreal⟩ := hcontained rfl
      rw [← hk.tree] at hreal
      dsimp only
      rw [wp_bind]
      refine wp_removeTree_below hreal fun r d₂ ht => ?_
      rw [hk.tree] at ht
      have ht' : Trimmed (run.Region d.tree) d.tree d₂.tree := ht.mono fun _ hq => .inl hq
      rcases r with e | ⟨⟩
      · cases e <;> exact ht'
      · exact ht'

theorem wp_removePackageTree (d : Disk) (path : Path) (what : String) :
    wp (run.removePackageTree path what)
      (fun _ d' => Trimmed (run.Region d.tree) d.tree d'.tree)
      (fun _ d' => d'.tree = d.tree) d := by
  obtain ⟨above, habove⟩ := packagedCurrentLink_eq run.target run.home
  rw [removePackageTree, wp_bind]
  refine wp_mono run.wp_removeVersionTree (fun problem d₁ ht => ?_) fun _ _ h => h
  rw [wp_bind, habove]
  have hlink : wp (clearDanglingCurrent run.packages (above ++ ["current".toList]))
      (fun _ d' => Trimmed (Below d₁.tree run.packages) d₁.tree d'.tree)
      (fun (_ : UninstallError) _ => False) d₁ :=
    wp_clearDanglingCurrent (by decide)
  refine wp_mono hlink (fun dangling d₂ ht₂ => ?_) fun _ _ h => h.elim
  exact run.trimmed_trans ht (ht₂.mono fun _ hq => .inl hq)

/-- What a removal of an inventory is: its program files, or what follows them. -/
def Follows : Removal → Prop
  | .brewFormula _ _ => False
  | .packageTree _ _ => False
  | .generatedFile path _ => ∃ above n, path = above ++ [n] ∧ special n = false
  | .serviceRow _ => True

theorem inventory_cases (target : Target) (home : Path) (packaged : Option PackagedPhp) :
    ∃ first rest, inventory target home packaged = first :: rest ∧
      ((∃ formula what, first = .brewFormula formula what) ∨
        ∃ path what, first = .packageTree path what) ∧ ∀ r ∈ rest, Follows r := by
  cases target with
  | php major =>
      refine ⟨_, _, rfl, ?_, ?_⟩
      · cases packaged with
        | none => exact .inl ⟨_, _, rfl⟩
        | some pkg => exact .inr ⟨_, _, rfl⟩
      · intro r hr
        rcases List.mem_cons.mp hr with rfl | hr
        · refine ⟨generatedConfigRoot home ++ ["php".toList, major.asStr], "php-fpm.conf".toList,
            by simp [phpPoolConfigPath], by decide⟩
        · rw [List.mem_singleton.mp hr]
          exact trivial
  | mysql major =>
      refine ⟨_, _, rfl, .inl ⟨_, _, rfl⟩, fun r hr => ?_⟩
      rw [List.mem_singleton.mp hr]
      exact trivial
  | mariadb =>
      refine ⟨_, _, rfl, .inr ⟨_, _, rfl⟩, fun r hr => ?_⟩
      rw [List.mem_singleton.mp hr]
      exact trivial

/-- What follows the program files goes through, within the regions. -/
theorem perform_follows {removal : Removal} (hf : Follows removal) (w : World) :
    ∃ problems w', run.perform removal w = (.ok problems, w') ∧
      Trimmed (run.Region w.disk.tree) w.disk.tree w'.disk.tree := by
  cases removal with
  | brewFormula formula what => exact hf.elim
  | packageTree path what => exact hf.elim
  | serviceRow id =>
      refine ⟨(run.removeServiceRow id w).1, (run.removeServiceRow id w).2, rfl, ?_⟩
      unfold removeServiceRow
      split <;> exact Trimmed.refl _ _
  | generatedFile path what =>
      obtain ⟨above, n, rfl, hn⟩ := hf
      have hwp : wp (do
          let problem ← removeGeneratedFile (generatedConfigRoot run.home) (above ++ [n]) what
          pure problem.toList : Io UninstallError (List Problem))
          (fun _ d' => Trimmed (run.Region w.disk.tree) w.disk.tree d'.tree)
          (fun _ _ => False) w.disk := by
        rw [wp_bind]
        refine wp_mono (wp_removeGeneratedFile hn) (fun _ d' ht => ?_) fun _ _ hf => hf
        exact ht.mono fun _ hq => .inr hq
      unfold perform onDisk
      unfold wp at hwp
      split at hwp
      next problems d' hrun =>
        simp only [hrun]
        exact ⟨problems, _, rfl, hwp⟩
      next => exact hwp.elim

theorem performAll_follows : ∀ (rest : List Removal) (problems : List Problem) (w : World),
    (∀ r ∈ rest, Follows r) → ∃ outcome w', run.performAll rest problems w = (.ok outcome, w') ∧
      Trimmed (run.Region w.disk.tree) w.disk.tree w'.disk.tree
  | [], [], w, _ => ⟨_, w, rfl, Trimmed.refl _ _⟩
  | [], problem :: more, w, _ => ⟨_, w, rfl, Trimmed.refl _ _⟩
  | removal :: rest, problems, w, h => by
      obtain ⟨more, w₁, hstep, ht⟩ := run.perform_follows (h removal List.mem_cons_self) w
      obtain ⟨outcome, w₂, hrest, ht₂⟩ := performAll_follows rest (problems ++ more) w₁
        fun r hr => h r (List.mem_cons_of_mem _ hr)
      refine ⟨outcome, w₂, ?_, run.trimmed_trans ht ht₂⟩
      unfold performAll
      rw [hstep]
      exact hrest

/-- The world that the application's own removals start from: after `brew`, if it is run. -/
def started (w : World) : World :=
  match blockers run.target w.rows run.sites run.keg run.packaged,
      inventory run.target run.home run.packaged with
  | [], .brewFormula _ _ :: _ => (run.runBrew w).2
  | _, _ => w

/-- **An uninstall removes only what is inside its two regions**, and nothing where it fails. -/
theorem uninstall_confined (w : World) :
    Trimmed (run.Region (run.started w).disk.tree) (run.started w).disk.tree
      (run.performUninstall w).2.disk.tree ∧
    ∀ e, (run.performUninstall w).1 = .error e →
      (run.performUninstall w).2.disk.tree = (run.started w).disk.tree ∧
      (run.performUninstall w).2.rows = (run.started w).rows := by
  obtain ⟨first, rest, hinv, hfirst, hrest⟩ :=
    inventory_cases run.target run.home run.packaged
  unfold performUninstall started
  cases hb : blockers run.target w.rows run.sites run.keg run.packaged with
  | cons blocker more => exact ⟨Trimmed.refl _ _, fun e _ => ⟨rfl, rfl⟩⟩
  | nil =>
      rw [hinv]
      dsimp only
      unfold performAll
      rcases hfirst with ⟨formula, what, rfl⟩ | ⟨path, what, rfl⟩
      · unfold perform
        cases hbrew : run.runBrew w with
        | mk r w₁ =>
            cases r with
            | error e => exact ⟨Trimmed.refl _ _, fun e _ => ⟨rfl, rfl⟩⟩
            | ok _ =>
                dsimp only
                obtain ⟨outcome, w₂, hrun, ht⟩ := run.performAll_follows rest ([] ++ []) w₁ hrest
                rw [hrun]
                exact ⟨ht, fun e he => by cases he⟩
      · have hwp := run.wp_removePackageTree w.disk path what
        unfold perform onDisk
        unfold wp at hwp
        split at hwp
        next problems d' hd =>
          simp only [hd]
          obtain ⟨outcome, w₂, hrun, ht⟩ := run.performAll_follows rest ([] ++ problems)
            { w with disk := d' } hrest
          rw [hrun]
          exact ⟨run.trimmed_trans hwp ht, fun e he => by cases he⟩
        next e d' hd =>
          simp only [hd]
          exact ⟨Trimmed.of_eq hwp, fun e _ => ⟨hwp, by trivial⟩⟩

end UninstallRun

end OpenVHost.Uninstall
