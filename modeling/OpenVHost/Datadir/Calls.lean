/-
# Sequences of staging calls

* `Step.Safe` — what one call may change: staging directories, the clutter of a vacant final
  directory, and a vacant final directory that an initialized one is moved onto.
* `staging_keeps_databases` — in a sequence of calls on paths that the builders derive, none
  of which finds a link where it acts, every call is safe and what is neither staged nor
  clutter is kept.
* `link_removed` — a link at a staging path is removed by the removal of that path.
-/

import OpenVHost.Datadir.Staging

namespace OpenVHost.Datadir

open FileTree FileTree.Io
open OpenVHost.Runtime (majorMinorShape not_special_of_shape)
open OpenVHost.Runtime.Mysql (MysqlMajor)

/-! ### Calls -/

inductive Engine where
  | mysql
  | mariadb
  deriving DecidableEq, Repr

/-- `finalize` is `finalize_staging` or `finalize_mariadb_staging`, by the engine. -/
inductive Call where
  | sweepStaleStaging (parent : Path)
  | removeStagingDir (staging : Path)
  | finalize (engine : Engine) (staging finalDir : Path)
  deriving DecidableEq, Repr

inductive Outcome where
  | swept (r : Except Errno (List Path))
  | removed (r : Except Errno Unit)
  | mysql (o : MysqlInitOutcome (FinalizeReason DatadirState))
  | mariadb (o : MariadbInitOutcome (FinalizeReason MariadbDatadirState))

def Outcome.isInitialized : Outcome → Bool
  | .mysql .initialized | .mariadb .initialized => true
  | _ => false

def Call.io (os : Os) : Call → Io Empty Outcome
  | .sweepStaleStaging parent => do
      let r ← Io.attempt (Datadir.sweepStaleStaging os parent)
      pure (.swept r)
  | .removeStagingDir staging => do
      let r ← Io.attempt (Datadir.removeStagingDir os staging)
      pure (.removed r)
  | .finalize .mysql staging finalDir => do
      let o ← finalizeStaging os staging finalDir
      pure (.mysql o)
  | .finalize .mariadb staging finalDir => do
      let o ← finalizeMariadbStaging os staging finalDir
      pure (.mariadb o)

structure Step where
  call : Call
  before : Disk
  outcome : Outcome
  after : Disk

def stepOf (os : Os) (c : Call) (d : Disk) : Step :=
  let r := settle (c.io os) d
  ⟨c, d, r.1, r.2⟩

def trace (os : Os) : List Call → Disk → List Step
  | [], _ => []
  | c :: calls, d => stepOf os c d :: trace os calls (stepOf os c d).after

def after (os : Os) : List Call → Disk → Disk
  | [], d => d
  | c :: calls, d => after os calls (stepOf os c d).after

/-! ### Derived paths -/

/-- Paths that `mysql_paths` or `mariadb_paths` derives from a home. -/
inductive Derived : EnginePaths → Prop where
  | mysql (home : Path) (major : MysqlMajor) : Derived (mysqlPaths home major)
  | mariadb (home : Path) : Derived (mariadbPaths home)

/-- A path that one of the staging path builders makes. -/
inductive StagedIn (parent : Path) : Path → Prop where
  | mysql (major : MysqlMajor) (suffix : UuidHex) :
      StagedIn parent (stagingDirPath parent major suffix)
  | mariadb (suffix : UuidHex) : StagedIn parent (mariadbStagingDirPath parent suffix)

/-- A call whose paths are derived. -/
inductive Call.Built : Call → Prop where
  | sweep {paths : EnginePaths} : Derived paths → Built (.sweepStaleStaging paths.stagingParent)
  | remove {paths : EnginePaths} {staging : Path} : Derived paths →
      StagedIn paths.stagingParent staging → Built (.removeStagingDir staging)
  | finalize {paths : EnginePaths} {staging : Path} (engine : Engine) : Derived paths →
      StagedIn paths.stagingParent staging → Built (.finalize engine staging paths.datadir)

theorem shape_mariadbSeries : majorMinorShape mariadbSeries = true := by decide

theorem Derived.datadir_eq {paths : EnginePaths} (h : Derived paths) :
    ∃ major, majorMinorShape major = true ∧ paths.datadir = paths.stagingParent ++ [major] := by
  cases h with
  | mysql home major => exact ⟨major.asStr, major.valid, rfl⟩
  | mariadb home => exact ⟨mariadbSeries, shape_mariadbSeries, rfl⟩

theorem StagedIn.path_eq {parent staging : Path} (h : StagedIn parent staging) :
    ∃ name, isStaleStagingName name = true ∧ staging = parent ++ [name] := by
  cases h with
  | mysql major suffix => exact ⟨_, isStaleStagingName_stagingName major.valid suffix, rfl⟩
  | mariadb suffix => exact ⟨_, isStaleStagingName_stagingName shape_mariadbSeries suffix, rfl⟩

/-! ### What a call may change -/

/-- No link sits at a path. -/
def NoLink (t : Tree) (p : Path) : Prop := (t.lstat p).toOption.any Node.isSymlink = false

instance (t : Tree) (p : Path) : Decidable (NoLink t p) := inferInstanceAs (Decidable (_ = _))

/-- The call finds no link in place of the staging directory or of the clutter. -/
def Step.Unlinked (s : Step) : Prop :=
  match s.call with
  | .sweepStaleStaging _ => True
  | .removeStagingDir staging => NoLink s.before.tree staging
  | .finalize _ staging finalDir =>
      NoLink s.before.tree staging ∧ NoLink s.before.tree (finalDir ++ [dsStore])

instance (s : Step) : Decidable s.Unlinked :=
  match s with
  | ⟨.sweepStaleStaging _, _, _, _⟩ => inferInstanceAs (Decidable True)
  | ⟨.removeStagingDir staging, before, _, _⟩ =>
      inferInstanceAs (Decidable (NoLink before.tree staging))
  | ⟨.finalize _ staging finalDir, before, _, _⟩ =>
      inferInstanceAs (Decidable
        (NoLink before.tree staging ∧ NoLink before.tree (finalDir ++ [dsStore])))

/-- A plain `.DS_Store` file of a final directory that holds nothing else. -/
def PlainClutter (t : Tree) (finalDir q : Path) : Prop :=
  ∃ f content mode, t.locate finalDir = .ok f ∧ Vacant t f ∧ q = f ++ [dsStore] ∧
    t.node q = some (.file content mode)

/-- The directory that a call stages in. -/
def Call.root : Call → Path
  | .sweepStaleStaging parent => parent
  | .removeStagingDir staging | .finalize _ staging _ => staging.dropLast

/-- What a call may remove or modify. -/
inductive MayChange (s : Step) (q : Path) : Prop where
  | staging : InStaging s.before.tree s.call.root q → MayChange s q
  | clutter {engine : Engine} {staging finalDir : Path} :
      s.call = .finalize engine staging finalDir → PlainClutter s.before.tree finalDir q →
      MayChange s q
  | replaced {engine : Engine} {staging finalDir f : Path} :
      s.call = .finalize engine staging finalDir → s.outcome.isInitialized = true →
      s.before.tree.locate finalDir = .ok f → Vacant s.before.tree f → f <+: q → MayChange s q

def Engine.Ready : Engine → Tree → Path → Prop
  | mysql => MysqlReady
  | mariadb => MariadbReady

structure Step.Safe (s : Step) : Prop where
  frame : ∀ q, s.after.tree.node q = s.before.tree.node q ∨ MayChange s q
  /-- A finalization that succeeds moves an initialized staging directory. -/
  published : ∀ engine staging finalDir, s.call = .finalize engine staging finalDir →
    s.outcome.isInitialized = true → ∃ dir f, s.before.tree.locate staging = .ok dir ∧
      s.before.tree.locate finalDir = .ok f ∧ engine.Ready s.before.tree staging ∧
      Published s.before.tree s.after.tree dir f
  /-- One that fails leaves the staging directory, and of the final one all but clutter. -/
  failed : ∀ engine staging finalDir, s.call = .finalize engine staging finalDir →
    s.outcome.isInitialized = false →
    (∀ dir, s.before.tree.locate staging = .ok dir → ∀ q, dir <+: q →
      s.after.tree.node q = s.before.tree.node q) ∧
    ∀ f, s.before.tree.locate finalDir = .ok f → ∀ q, f <+: q → q ≠ f ++ [dsStore] →
      s.after.tree.node q = s.before.tree.node q

/-! ### One call -/

theorem NoLink.solid {t : Tree} {p : Path} (h : NoLink t p) :
    ∀ q target, t.locate p = .ok q → t.node q ≠ some (.symlink target) := by
  intro q target hl hx
  simp [NoLink, Tree.lstat, hl, hx, Except.toOption, Node.isSymlink] at h

theorem Clutter.plain {t : Tree} {finalDir q : Path} (h : NoLink t (finalDir ++ [dsStore]))
    (hq : Clutter t finalDir q) : PlainClutter t finalDir q := by
  obtain ⟨f, x, hl, hr, hv, rfl, hx, hxd⟩ := hq
  cases x with
  | dir m => cases hxd
  | file content m => exact ⟨f, content, m, hl, hv, rfl, hx⟩
  | symlink target =>
      have hdir := Tree.isDir_of_child (Tree.has_of_node hx)
      have hlstat := Tree.lstat_concat (by decide : special dsStore = false) hr hdir
      rw [hx] at hlstat
      simp [NoLink, hlstat, Except.toOption, Node.isSymlink] at h

/-- A call that only takes what is staged. -/
theorem safe_of_trimmed {s : Step} (hcall : ∀ engine staging finalDir,
      s.call ≠ .finalize engine staging finalDir)
    (h : Trimmed (InStaging s.before.tree s.call.root) s.before.tree s.after.tree) : s.Safe where
  frame q := (h q).imp_right fun hq => .staging hq.2
  published engine staging finalDir hc := absurd hc (hcall engine staging finalDir)
  failed engine staging finalDir hc := absurd hc (hcall engine staging finalDir)

/-- What a finalization comes to. -/
def Finalized (engine : Engine) (staging finalDir : Path) (d : Disk) (o : Outcome) (d' : Disk) :
    Prop :=
  (o.isInitialized = true ∧ ∃ dir f, d.tree.locate staging = .ok dir ∧
    d.tree.locate finalDir = .ok f ∧ engine.Ready d.tree staging ∧
    Published d.tree d'.tree dir f) ∨
  (o.isInitialized = false ∧ Trimmed (Clutter d.tree finalDir) d.tree d'.tree)

theorem safe_of_finalized {s : Step} {engine : Engine} {parent : Path} {a b : Name}
    (ha : special a = false) (hb : special b = false) (hne : a ≠ b)
    (hcall : s.call = .finalize engine (parent ++ [a]) (parent ++ [b]))
    (hclutter : NoLink s.before.tree (parent ++ [b] ++ [dsStore]))
    (h : Finalized engine (parent ++ [a]) (parent ++ [b]) s.before s.outcome s.after) :
    s.Safe := by
  rcases h with ⟨ho, dir, f, hdir, hf, hready, hp⟩ | ⟨ho, htrim⟩
  · refine ⟨fun q => ?_, fun engine' staging finalDir hc _ => ?_, fun _ _ _ _ ho' => ?_⟩
    · by_cases hq : dir <+: q
      · refine .inr (.staging ⟨dir, hp.staged, ?_, hq⟩)
        rw [hcall, Call.root, List.dropLast_concat]
        exact dropLast_of_locate ha hdir
      · by_cases hqf : f <+: q
        · exact .inr (.replaced hcall ho hf hp.vacant hqf)
        · exact .inl (hp.rest q hq hqf)
    · rw [hcall] at hc
      cases hc
      exact ⟨dir, f, hdir, hf, hready, hp⟩
    · rw [ho] at ho'
      cases ho'
  · refine ⟨fun q => ?_, fun _ _ _ _ ho' => ?_, fun engine' staging finalDir hc _ => ?_⟩
    · exact (htrim q).imp_right fun hq => .clutter hcall (hq.2.plain hclutter)
    · rw [ho] at ho'
      cases ho'
    · rw [hcall] at hc
      cases hc
      refine ⟨fun dir hdir q hq => htrim.outside fun hc => ?_,
        fun f hf q _ hne' => htrim.outside fun hc => hne' ?_⟩
      · -- the clutter is beneath the final directory, beside the staged one
        obtain ⟨f, x, hf, -, -, rfl, -⟩ := hc
        rw [Tree.locate_concat ha] at hdir
        rw [Tree.locate_concat hb] at hf
        cases hr : s.before.tree.resolve parent with
        | error e => simp [hr] at hdir
        | ok r =>
            cases hd : s.before.tree.isDir r with
            | false => simp [hr, hd] at hdir
            | true =>
                simp only [hr, hd, if_true, Except.ok.injEq] at hdir hf
                subst hdir hf
                exact not_prefix_append (siblings_apart hne.symm) (siblings_apart hne) _ hq
      · obtain ⟨f', x, hf', -, -, rfl, -⟩ := hc
        rw [hf] at hf'
        cases hf'
        rfl

theorem wp_finalize_call (os : Os) (engine : Engine) {parent : Path} {a b : Name} {d : Disk}
    (ha : isStaleStagingName a = true) (hb : special b = false) (hne : a ≠ b)
    (hsolid : NoLink d.tree (parent ++ [a])) :
    wp (Call.io os (.finalize engine (parent ++ [a]) (parent ++ [b])))
      (Finalized engine (parent ++ [a]) (parent ++ [b]) d) (fun _ _ => False) d := by
  cases engine with
  | mysql =>
      simp only [Call.io, finalizeStaging, wp_bind, wp_attempt]
      refine wp_mono (wp_finalize os ha hb hne (wp_classifyDatadir os) id hsolid.solid)
        (fun _ d' h => .inl ⟨rfl, h⟩) fun _ d' h => .inr ⟨rfl, h⟩
  | mariadb =>
      simp only [Call.io, finalizeMariadbStaging, wp_bind, wp_attempt]
      refine wp_mono (wp_finalize os ha hb hne (wp_classifyMariadbDatadir os) And.left
        hsolid.solid) (fun _ d' h => .inl ⟨rfl, h⟩) fun _ d' h => .inr ⟨rfl, h⟩

/-- **A call on derived paths is safe**, unless it finds a link. -/
theorem safe_stepOf (os : Os) {c : Call} {d : Disk} (hbuilt : c.Built)
    (hlinks : (stepOf os c d).Unlinked) : (stepOf os c d).Safe := by
  cases hbuilt with
  | sweep hpaths =>
      refine safe_of_trimmed (fun _ _ _ hc => by cases hc) ?_
      refine settle_of_wp (Q := fun _ d' => Trimmed (InStaging d.tree _) d.tree d'.tree) ?_
      simp only [Call.io, wp_bind, wp_attempt, wp_pure]
      exact wp_sweepStaleStaging os
  | @remove paths _ hpaths hstaged =>
      obtain ⟨name, hname, rfl⟩ := hstaged.path_eq
      refine safe_of_trimmed (fun _ _ _ hc => by cases hc) ?_
      have hroot : (Call.removeStagingDir (paths.stagingParent ++ [name])).root =
          paths.stagingParent := List.dropLast_concat
      show Trimmed (InStaging _ (Call.removeStagingDir (paths.stagingParent ++ [name])).root) _ _
      rw [hroot]
      refine settle_of_wp (Q := fun _ d' => Trimmed (InStaging d.tree _) d.tree d'.tree) ?_
      simp only [Call.io, wp_bind, wp_attempt, wp_pure]
      exact wp_removeStagingDir os hname (NoLink.solid hlinks)
  | finalize engine hpaths hstaged =>
      obtain ⟨a, ha, rfl⟩ := hstaged.path_eq
      obtain ⟨b, hb, hdatadir⟩ := hpaths.datadir_eq
      obtain ⟨hsolid, hclutter⟩ := hlinks
      have hne : a ≠ b := by
        rintro rfl
        rw [not_staging_of_shape hb] at ha
        cases ha
      rw [hdatadir] at hclutter ⊢
      exact safe_of_finalized (not_special_of_staging ha) (not_special_of_shape hb) hne rfl
        hclutter (settle_of_wp (wp_finalize_call os engine ha (not_special_of_shape hb) hne hsolid))

/-! ### Sequences -/

/-- An entry is kept: as it was, or a directory still. -/
def Stays (t t' : Tree) (q : Path) : Prop :=
  ∀ x, t.node q = some x → ∃ y, t'.node q = some y ∧
    (y = x ∨ (x.isDir = true ∧ y.isDir = true))

/-- A path on which nothing is staged and which does not end in clutter. -/
structure Apart (q : Path) : Prop where
  plain : Plain q
  unstaged : ∀ n ∈ q, isStaleStagingName n = false
  solid : q.getLast? ≠ some dsStore

theorem Apart.not_inStaging {t : Tree} {parent q : Path} (h : Apart q) :
    ¬ InStaging t parent q := by
  rintro ⟨s, ⟨-, hname⟩, -, hs⟩
  obtain ⟨n, hn, hstale⟩ := (Option.any_eq_true _ _).mp hname
  have := h.unstaged n (hs.subset (List.mem_of_getLast? hn))
  rw [hstale] at this
  cases this

theorem stays_of_safe {s : Step} (h : s.Safe) {q : Path} (hq : Apart q) :
    Stays s.before.tree s.after.tree q := by
  intro x hx
  rcases h.frame q with heq | hchange
  · exact ⟨x, heq.trans hx, .inl rfl⟩
  · cases hchange with
    | staging hstaging => exact absurd hstaging hq.not_inStaging
    | clutter hcall hclutter =>
        obtain ⟨f, content, mode, -, -, rfl, -⟩ := hclutter
        exact absurd List.getLast?_concat hq.solid
    | @replaced engine staging finalDir f hcall ho hf hv hpre =>
        obtain ⟨dir, f', -, hf', -, hp⟩ := h.published engine staging finalDir hcall ho
        rw [hf] at hf'
        cases hf'
        obtain ⟨rest, rfl⟩ := hpre
        cases rest with
        | nil =>
            rw [List.append_nil] at hx ⊢
            have hmoved := hp.moved []
            rw [List.append_nil, List.append_nil] at hmoved
            obtain ⟨m, hm⟩ := Tree.isDir_iff.mp hp.staged.1
            refine ⟨.dir m, hmoved.trans hm, .inr ⟨?_, rfl⟩⟩
            rcases hv with hnone | ⟨hd, -⟩
            · rw [hnone] at hx
              cases hx
            · simpa [Tree.isDir, hx] using hd
        | cons n rest =>
            -- beneath a vacant directory there is nothing but clutter
            have hhas : s.before.tree.has (f ++ n :: rest) = true := Tree.has_of_node hx
            rcases hv with hnone | ⟨-, honly⟩
            · have hd := Tree.isDir_of_append (List.cons_ne_nil n rest) hhas
              simp [Tree.isDir, hnone] at hd
            · rw [List.append_cons] at hhas
              have hhas' : s.before.tree.has (f ++ [n]) = true :=  by
                by_cases hrest : rest = []
                · simpa [hrest] using hhas
                · exact Tree.has_of_isDir (Tree.isDir_of_append hrest hhas)
              obtain ⟨rfl, hnd⟩ := honly n (Tree.mem_entries.mpr
                ⟨hhas', hq.plain n (List.mem_append_right _ List.mem_cons_self)⟩)
              by_cases hrest : rest = []
              · subst hrest
                exact absurd List.getLast?_concat hq.solid
              · rw [Tree.isDir_of_append hrest hhas] at hnd
                cases hnd

theorem Stays.trans {t t' t'' : Tree} {q : Path} (h : Stays t t' q) (h' : Stays t' t'' q) :
    Stays t t'' q := by
  intro x hx
  obtain ⟨y, hy, hyx⟩ := h x hx
  obtain ⟨z, hz, hzy⟩ := h' y hy
  refine ⟨z, hz, ?_⟩
  rcases hyx with rfl | ⟨hxd, hyd⟩
  · exact hzy
  · rcases hzy with rfl | ⟨-, hzd⟩
    · exact .inr ⟨hxd, hyd⟩
    · exact .inr ⟨hxd, hzd⟩

theorem safe_of_trace (os : Os) : ∀ (calls : List Call) (d : Disk), (∀ c ∈ calls, c.Built) →
    (∀ s ∈ trace os calls d, s.Unlinked) → ∀ s ∈ trace os calls d, s.Safe
  | [], _, _, _ => fun _ hs => by cases hs
  | c :: calls, d, hbuilt, hlinks => by
      rw [trace, List.forall_mem_cons] at hlinks ⊢
      rw [List.forall_mem_cons] at hbuilt
      exact ⟨safe_stepOf os hbuilt.1 hlinks.1, safe_of_trace os calls _ hbuilt.2 hlinks.2⟩

theorem stays_of_trace (os : Os) {q : Path} (hq : Apart q) : ∀ (calls : List Call) (d : Disk),
    (∀ s ∈ trace os calls d, s.Safe) → Stays d.tree (after os calls d).tree q
  | [], _, _ => fun x hx => ⟨x, hx, .inl rfl⟩
  | c :: calls, d, hsafe => by
      rw [trace, List.forall_mem_cons] at hsafe
      have hfirst : Stays d.tree (stepOf os c d).after.tree q := stays_of_safe hsafe.1 hq
      exact hfirst.trans (stays_of_trace os hq calls _ hsafe.2)

/-- **Staging keeps the databases.** In a sequence of calls on derived paths none of which
finds a link where it acts, every call is safe, and every entry apart from what is staged
stays; staged names have the staging shape, and final ones do not. -/
theorem staging_keeps_databases (os : Os) (calls : List Call) (d : Disk)
    (hbuilt : ∀ c ∈ calls, c.Built) (hlinks : ∀ s ∈ trace os calls d, s.Unlinked) :
    (∀ s ∈ trace os calls d, s.Safe) ∧
      (∀ q, Apart q → Stays d.tree (after os calls d).tree q) ∧
      (∀ parent staging, StagedIn parent staging →
        ∃ name, staging = parent ++ [name] ∧ isStaleStagingName name = true) ∧
      ∀ paths, Derived paths →
        ∃ name, paths.datadir = paths.stagingParent ++ [name] ∧
          isStaleStagingName name = false := by
  have hsafe := safe_of_trace os calls d hbuilt hlinks
  refine ⟨hsafe, fun q hq => stays_of_trace os hq calls d hsafe, fun parent staging h => ?_,
    fun paths h => ?_⟩
  · obtain ⟨name, hname, hpath⟩ := h.path_eq
    exact ⟨name, hpath, hname⟩
  · obtain ⟨major, hmajor, hpath⟩ := h.datadir_eq
    exact ⟨major, hpath, not_staging_of_shape hmajor⟩

/-! ### Samples -/

/-- An operating system that lists in order and interrupts before the first removal. -/
def orderly : Os where
  left _ _ t := t
  below _ _ t := Trimmed.refl _ t
  whole _ _ _ _ := rfl
  order names := names
  perm names := List.Perm.refl names

def sampleHome : Path := ["h".toList]
def sampleMajor : MysqlMajor := ⟨"8.4".toList, by decide⟩
def sampleSuffix : UuidHex := ⟨"0123456789abcdef0123456789abcdef".toList, by decide⟩
def samplePaths : EnginePaths := mysqlPaths sampleHome sampleMajor
def sampleStaging : Path := stagingDirPath samplePaths.stagingParent sampleMajor sampleSuffix

def sampleRoot : List (Path × Node) :=
  [(["h".toList], .dir none), (["h".toList, "data".toList], .dir none),
    (samplePaths.stagingParent, .dir none)]

/-- A staged directory beside a final one that Finder has looked at. -/
def stagedDisk : Disk where
  tree := Tree.ofNodes (sampleRoot ++
    [(sampleStaging, .dir none), (sampleStaging ++ [sentinelDir], .dir none),
      (sampleStaging ++ [mysqlSentinelFile], .file [1] none),
      (samplePaths.datadir, .dir none), (samplePaths.datadir ++ [dsStore], .file [2] none)])
  faults := []
  writes := []

def sampleCalls : List Call :=
  [.finalize .mysql sampleStaging samplePaths.datadir,
    .sweepStaleStaging samplePaths.stagingParent]

theorem sampleCalls_built : ∀ c ∈ sampleCalls, c.Built := by
  intro c hc
  have hpaths : Derived samplePaths := .mysql sampleHome sampleMajor
  simp only [sampleCalls, List.mem_cons, List.not_mem_nil, or_false] at hc
  rcases hc with rfl | rfl
  · exact .finalize .mysql hpaths (.mysql sampleMajor sampleSuffix)
  · exact .sweep hpaths

theorem staging_keeps_databases_finder :
    (after orderly sampleCalls stagedDisk).tree.isDir (samplePaths.datadir ++ [sentinelDir]) =
        true ∧
      ∀ s ∈ trace orderly sampleCalls stagedDisk, s.Safe :=
  ⟨by decide, (staging_keeps_databases orderly sampleCalls stagedDisk sampleCalls_built
    (by decide)).1⟩

/-- A link at a staging path. -/
def linkedDisk : Disk where
  tree := Tree.ofNodes (sampleRoot ++ [(sampleStaging, .symlink "/photos".toList)])
  faults := []
  writes := []

/-- **A link at a staging path is removed**, though it is no directory. -/
theorem link_removed : (Call.removeStagingDir sampleStaging).Built ∧
    ¬ (stepOf orderly (.removeStagingDir sampleStaging) linkedDisk).Safe := by
  refine ⟨.remove (.mysql sampleHome sampleMajor) (.mysql sampleMajor sampleSuffix), ?_⟩
  intro hsafe
  have hnone : (stepOf orderly (.removeStagingDir sampleStaging) linkedDisk).after.tree.node
      sampleStaging = none := by decide
  have hlink : linkedDisk.tree.node sampleStaging = some (.symlink "/photos".toList) := by
    decide
  rcases hsafe.frame sampleStaging with heq | hchange
  · rw [hnone] at heq
    exact absurd (heq.trans hlink) (by simp)
  · cases hchange with
    | staging hstaging =>
        obtain ⟨s, ⟨hd, hname⟩, -, hs⟩ := hstaging
        have hall : ∀ s ∈ sampleStaging.inits, ¬ (linkedDisk.tree.isDir s = true ∧
            s.getLast?.any isStaleStagingName = true) := by decide
        exact hall s ((List.mem_inits _ _).mpr hs) ⟨hd, hname⟩
    | clutter hcall => cases hcall
    | replaced hcall => cases hcall

end OpenVHost.Datadir
