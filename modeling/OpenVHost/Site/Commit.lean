/-
# Installing a plan and taking it back

`commit` installs the changes of a plan one after the other, `rollback` undoes
every one of them and goes on past a failure, and `apply` does the second when
the first fails or the validator refuses what it left.

* `Stepped` — what one write or removal may change, and `Confined`, what a whole
  run may.
* `wp_commit` — a commit installs every change, or stays confined.
* `Restores.spec` — what a rollback leaves at each place, for every pattern of
  failing restores.
* `apply_all_or_nothing` — an apply that fails reports what it could not put back.
-/

import OpenVHost.Site.Atomicfile
import OpenVHost.Site.Plan

namespace OpenVHost.Site

open FileTree Io Text Conf

structure RollbackReport where
  firstError : ApplyError
  stranded : List Path

/-- The mode of a log directory. -/
def logDirMode : Nat := 0o700

def ensureLogDir (dir : Path) : Io Errno Unit := do
  createDirAll dir
  chmod dir logDirMode

def atomicWrite (path : Path) (contents : List Char) (suffix : Name) : Io ApplyError Unit :=
  mapErr (fun e => .io e.op e.path (.os e.source)) (writeAtomic path (utf8 contents) suffix)

def removeIfExists (path : Path) : Io ApplyError Unit := do
  match ← attempt (removeFile path) with
  | .ok () => pure ()
  | .error .notFound => pure ()
  | .error e => fail (.io "remove" path (.os e))

/-- One change of a commit. `suffix` is the random part of the temp file's name. -/
def commitChange (suffix : Name) (c : FileChange) : Io ApplyError Unit :=
  match c.kind with
  | .added | .modified => atomicWrite c.path (c.after.getD []) suffix
  | .removed => removeIfExists c.path

def commit (suffixes : Nat → Name) (plan : ApplyPlan) : Io ApplyError Unit := do
  plan.logDirs.forM fun dir =>
    mapErr (fun e => .io "create_log_dir" dir (.os e)) (ensureLogDir dir)
  plan.changes.zipIdx.forM fun c => commitChange (suffixes c.2) c.1

/-- One change of a rollback. -/
def restore (suffix : Name) (c : FileChange) : Io ApplyError Unit :=
  match c.kind with
  | .added => removeIfExists c.path
  | .modified => atomicWrite c.path (c.before.getD []) suffix
  | .removed =>
      match c.before with
      | some b => atomicWrite c.path b suffix
      | none => removeIfExists c.path

/-- The loop of a rollback: it goes on past a failure. -/
def rollbackFrom (suffixes : Nat → Name) :
    List (FileChange × Nat) → Option ApplyError → List Path → Io RollbackReport Unit
  | [], none, _ => pure ()
  | [], some firstError, stranded => fail ⟨firstError, stranded⟩
  | c :: rest, firstError, stranded => do
      match ← attempt (restore (suffixes c.2) c.1) with
      | .ok () => rollbackFrom suffixes rest firstError stranded
      | .error e => rollbackFrom suffixes rest (firstError <|> some e) (stranded ++ [c.1.path])

/-- The temp files of a rollback are named after those of the commit. -/
def rollback (suffixes : Nat → Name) (plan : ApplyPlan) : Io RollbackReport Unit :=
  rollbackFrom suffixes (plan.changes.zipIdx plan.changes.length) none []

def withRollback (suffixes : Nat → Name) (plan : ApplyPlan) (original : ApplyError) :
    Io ApplyError ApplyError := do
  match ← attempt (rollback suffixes plan) with
  | .ok () => pure original
  | .error report => pure (.rollbackFailed original report.firstError report.stranded)

structure ApplyOutcome where
  applied : Nat
  validatorStderr : List Char
  deriving DecidableEq, Repr

/-- Install, validate, and restore on rejection. What the validator says is a
function of the tree it reads. -/
def apply (validate : Path → Tree → Except ApplyError ValidationReport) (suffixes : Nat → Name)
    (plan : ApplyPlan) : Io ApplyError ApplyOutcome := do
  match ← attempt (commit suffixes plan) with
  | .error e =>
      let e ← withRollback suffixes plan e
      fail e
  | .ok () =>
      match validate plan.mainConf (← get).tree with
      | .ok r =>
          if r.ok then pure ⟨plan.changes.length, r.stderr⟩
          else
            let e ← withRollback suffixes plan (.validationFailed r.stderr)
            fail e
      | .error e =>
          let e ← withRollback suffixes plan e
          fail e

/-! ### What one step may change -/

/-- A place that a write or a removal at `path` may change. -/
inductive Near (path : Path) (t t' : Tree) (q : Path) : Prop where
  | path (h : q = path)
  | temp (suffix : Name) (h : q = tmpPath path suffix)
  | above (h : q <+: path.dropLast) (missing : t.node q = none) (made : t'.node q = some (.dir none))

/-- A step at `path`: everything else is left, and no link is made. -/
def Stepped (path : Path) (t t' : Tree) : Prop :=
  ∀ q, t'.node q = t.node q ∨
    (Near path t t' q ∧ ∀ target, t'.node q ≠ some (.symlink target))

section Steps

variable {home : Home} {path q : Path} {suffix : Name} {d : Disk}

theorem OwnedPath.ne_tmpPath (hq : OwnedPath home q) : q ≠ tmpPath path suffix := by
  intro h
  obtain ⟨n, hn, hsuf⟩ := hq.suffix
  rw [h, tmpPath, List.getLast?_concat, Option.some.injEq] at hn
  subst hn
  obtain ⟨r, hr⟩ := hsuf
  have hlast : (r ++ ".conf".toList).getLast? =
      (('.' :: (path.getLast?.getD [] ++ '.' :: suffix)) ++ ".tmp".toList).getLast? := by
    rw [hr]
    simp [tmpName]
  rw [List.getLast?_append_of_ne_nil _ (by decide), List.getLast?_append_of_ne_nil _ (by decide)]
    at hlast
  exact absurd hlast (by decide)

theorem Stepped.refl (path : Path) (t : Tree) : Stepped path t t := fun _ => .inl rfl

/-- A step at one generated file leaves every other one. -/
theorem Stepped.other {t t' : Tree} (h : Stepped path t t') (hp : OwnedPath home path)
    (hq : OwnedPath home q) (hne : q ≠ path) : t'.node q = t.node q := by
  rcases h q with h | ⟨hnear, -⟩
  · exact h
  · cases hnear with
    | path heq => exact absurd heq hne
    | temp suffix heq => exact absurd heq hq.ne_tmpPath
    | above hpre _ _ => exact absurd (hq.not_above hp (hpre.trans (List.dropLast_prefix path))) hne

theorem Beside.stepped {t t' : Tree} (h : Beside path (tmpPath path suffix) t t')
    (hpath : t'.node path = t.node path ∨ ∀ target, t'.node path ≠ some (.symlink target))
    (htemp : t'.node (tmpPath path suffix) = t.node (tmpPath path suffix) ∨
      ∀ target, t'.node (tmpPath path suffix) ≠ some (.symlink target)) : Stepped path t t' := by
  intro q
  by_cases hq : q = path
  · subst hq
    exact hpath.imp id fun h => ⟨.path rfl, h⟩
  · by_cases hqt : q = tmpPath path suffix
    · subst hqt
      exact htemp.imp id fun h => ⟨.temp suffix rfl, h⟩
    · rcases h q hq hqt with h | ⟨hpre, hnone, hdir⟩
      · exact .inl h
      · exact .inr ⟨.above hpre hnone hdir, by simp [hdir]⟩

theorem wp_atomicWrite {s : List Char} (hp : OwnedPath home path)
    (hs : d.tree.Straight path.dropLast) :
    wp (atomicWrite path s suffix)
      (fun _ d' => Stepped path d.tree d'.tree ∧ Holds d'.tree path (some s))
      (fun _ d' => Stepped path d.tree d'.tree ∧ d'.tree.node path = d.tree.node path) d := by
  unfold atomicWrite
  rw [wp_mapErr]
  refine wp_mono (wp_writeAtomic hp.ne_nil hp.plain hs) (fun _ d' h => ⟨?_, none, h.held⟩)
    fun _ d' h => ⟨?_, h.held⟩
  · exact h.beside.stepped (.inr (by simp [h.held])) (.inl h.temp)
  · refine h.beside.stepped (.inl h.held) (h.temp.imp id fun ⟨content, hc⟩ => ?_)
    simp [hc]

theorem wp_removeIfExists (hp : OwnedPath home path) (hs : d.tree.Straight path.dropLast) :
    wp (removeIfExists path)
      (fun _ d' => Stepped path d.tree d'.tree ∧ Holds d'.tree path none)
      (fun _ d' => Stepped path d.tree d'.tree ∧ d'.tree.node path = d.tree.node path) d := by
  unfold removeIfExists
  rw [wp_bind, wp_attempt, removeFile]
  refine wp_update (fun d' hr _ _ => ?_) fun e d' hk he => ?_
  · have hnode := Tree.removeFile_ok hp.ne_nil hp.plain hs hr
    refine ⟨fun q => ?_, by rw [Holds, hnode, if_pos rfl]⟩
    by_cases hq : q = path
    · exact .inr ⟨.path hq, by simp [hnode, hq]⟩
    · exact .inl (by rw [hnode, if_neg hq])
  · have hkept : Stepped path d.tree d'.tree := hk.tree ▸ Stepped.refl path _
    by_cases hnf : e = .notFound
    · subst hnf
      refine ⟨hkept, ?_⟩
      rw [Holds, hk.tree]
      exact Tree.removeFile_notFound hp.ne_nil hp.plain hs (he.own (.inr (by simp)))
    · have hfail : Stepped path d.tree d'.tree ∧ d'.tree.node path = d.tree.node path :=
        ⟨hkept, by rw [hk.tree]⟩
      cases e <;> first | exact absurd rfl hnf | exact hfail

end Steps

/-! ### What a run may change -/

/-- A place that a commit or a rollback of `p` may change: a generated file it
names, a temp file beside one, a log directory, or a missing directory above. -/
inductive Touched (p : ApplyPlan) (t t' : Tree) (q : Path) : Prop where
  | change (c : FileChange) (mem : c ∈ p.changes) (h : q = c.path)
  | temp (c : FileChange) (mem : c ∈ p.changes) (suffix : Name) (h : q = tmpPath c.path suffix)
  | logDir (mem : q ∈ p.logDirs)
  | above (h : (∃ c ∈ p.changes, q <+: c.path.dropLast) ∨ ∃ dir ∈ p.logDirs, q <+: dir)
      (missing : t.node q = none) (made : t'.node q = some (.dir none))

/-- Nothing but the places of the plan is touched, and no link is made. -/
def Confined (p : ApplyPlan) (t t' : Tree) : Prop :=
  ∀ q, t'.node q = t.node q ∨ (Touched p t t' q ∧ ∀ target, t'.node q ≠ some (.symlink target))

namespace Confined

variable {p : ApplyPlan} {t t' t'' : Tree}

theorem refl (p : ApplyPlan) (t : Tree) : Confined p t t := fun _ => .inl rfl

theorem trans (h : Confined p t t') (h' : Confined p t' t'') : Confined p t t'' := by
  intro q
  rcases h' q with heq | ⟨htouched, hlink⟩
  · rcases h q with heq' | ⟨htouched, hlink⟩
    · exact .inl (heq.trans heq')
    · refine .inr ⟨?_, fun target => by rw [heq]; exact hlink target⟩
      cases htouched with
      | change c mem h => exact .change c mem h
      | temp c mem suffix h => exact .temp c mem suffix h
      | logDir mem => exact .logDir mem
      | above h missing made => exact .above h missing (heq.trans made)
  · refine .inr ⟨?_, hlink⟩
    cases htouched with
    | change c mem h => exact .change c mem h
    | temp c mem suffix h => exact .temp c mem suffix h
    | logDir mem => exact .logDir mem
    | above hq missing made =>
        rcases h q with heq | ⟨htouched, -⟩
        · exact .above hq (heq.symm.trans missing) made
        · cases htouched with
          | change c mem h => exact .change c mem h
          | temp c mem suffix h => exact .temp c mem suffix h
          | logDir mem => exact .logDir mem
          | above _ _ made' =>
              rw [made'] at missing
              cases missing

theorem straight (h : Confined p t t') {q : Path} (hs : t.Straight q) : t'.Straight q := by
  intro r hr target hn
  rcases h r with heq | ⟨-, hlink⟩
  · exact hs r hr target (heq ▸ hn)
  · exact hlink target hn

theorem of_stepped {c : FileChange} (mem : c ∈ p.changes) (h : Stepped c.path t t') :
    Confined p t t' := by
  intro q
  refine (h q).imp id fun ⟨hnear, hlink⟩ => ⟨?_, hlink⟩
  cases hnear with
  | path heq => exact .change c mem heq
  | temp suffix heq => exact .temp c mem suffix heq
  | above hpre missing made => exact .above (.inl ⟨c, mem, hpre⟩) missing made

end Confined

/-! ### The commit -/

section Commit

variable [Uuid] [Tera] {input : ApplyInput} {p : ApplyPlan} {t₀ t : Tree} {d : Disk}

theorem Planned.holds {c : FileChange} (h : Planned input t c) :
    Holds t c.path c.before := by
  cases h with
  | wanted _ _ _ before => exact before
  | stale _ _ _ before => exact before

theorem Planned.owned {c : FileChange} (hv : MajorsValid input)
    (h : Planned input t c) : OwnedPath input.home c.path := by
  cases h with
  | wanted rendered path => exact path ▸ rendered.owned hv
  | stale owned => exact owned.1

/-- What the changes of a plan made on `t₀` rely on in a tree `t`: where their
places are, and that no link is above them. -/
structure Ready (input : ApplyInput) (p : ApplyPlan) (t₀ t : Tree) : Prop where
  majors : MajorsValid input
  planned : ∀ c ∈ p.changes, Planned input t₀ c
  straight : ∀ c ∈ p.changes, t.Straight c.path.dropLast

/-- What the log directories of a plan rely on. -/
structure LogsReady (input : ApplyInput) (p : ApplyPlan) (t : Tree) : Prop where
  logDirs : ∀ dir ∈ p.logDirs, LogDir input.home dir
  straight : ∀ dir ∈ p.logDirs, t.Straight dir

/-- A plan is ready to run on the tree it was made from. -/
theorem ready_of_planOf {quiet : Prop} (hv : MajorsValid input) (hn : NoLinks input t)
    (hp : PlanOf input quiet t p) : Ready input p t t where
  majors := hv
  planned := hp.planned
  straight := by
    intro c hc
    cases hp.planned c hc with
    | wanted rendered path => exact path ▸ hn _ rendered
    | stale owned =>
        obtain ⟨content, mode, hnode⟩ := owned.2.2
        exact Tree.straight_of_isDir (Tree.isDir_dropLast (Tree.has_of_node hnode))

omit [Uuid] [Tera] in
/-- A log directory and a generated file are in different parts of the home. -/
theorem LogDir.not_above {home : Home} {dir q : Path} (h : LogDir home dir)
    (hq : OwnedPath home q) : ¬ q <+: dir := by
  intro hpre
  obtain ⟨s, rfl, hlen, -⟩ := hq.under
  obtain ⟨a, b, rfl, -, -⟩ := h
  rw [Home.generated, LogPaths.root, List.append_assoc, List.append_assoc,
    List.prefix_append_right_inj] at hpre
  simp at hpre

omit [Tera] in
theorem wp_ensureLogDir (hl : LogsReady input p t) (ht : Confined p t d.tree) {dir : Path}
    (hdir : dir ∈ p.logDirs) :
    wp (ensureLogDir dir)
      (fun _ d' => Confined p t d'.tree ∧
        ∀ q, OwnedPath input.home q → d'.tree.node q = d.tree.node q)
      (fun _ d' => Confined p t d'.tree) d := by
  have hlog := hl.logDirs dir hdir
  have hs := ht.straight (hl.straight dir hdir)
  have hadds : ∀ {t : Tree}, Tree.Adds dir d.tree t → Confined p d.tree t := by
    intro t ha q
    refine (ha q).imp id fun ⟨hpre, hnone, hmade⟩ => ?_
    exact ⟨.above (.inr ⟨dir, hdir, hpre⟩) hnone hmade, by simp [hmade]⟩
  unfold ensureLogDir
  rw [wp_bind]
  refine wp_mono (wp_createDirAll hlog.plain hs) (fun _ d₁ hmade => ?_)
    fun _ d₁ hfailed => ht.trans (hadds hfailed.1.adds)
  obtain ⟨hadded, hisdir⟩ := hmade
  refine wp_update (fun d₂ hc _ _ => ?_) fun _ d₂ hk _ => ?_
  · obtain ⟨x, hx, hnode⟩ := Tree.chmod_ok hlog.plain (hadded.adds.straight hs) hc
    obtain ⟨m, hm⟩ := Tree.isDir_iff.mp hisdir
    rw [hm] at hx
    cases hx
    constructor
    · refine (ht.trans (hadds hadded.adds)).trans fun q => ?_
      by_cases hq : q = dir
      · exact .inr ⟨.logDir (hq ▸ hdir), by simp [hnode, hq, Tree.setMode]⟩
      · exact .inl (by rw [hnode, if_neg hq])
    · intro q hq
      have hne : q ≠ dir := fun heq => hlog.not_above hq (heq ▸ List.prefix_refl _)
      rw [hnode, if_neg hne]
      exact (hadded.adds q).resolve_right fun h => hlog.not_above hq h.1
  · rw [hk.tree]
    exact ht.trans (hadds hadded.adds)

/-- One change of a commit. -/
theorem wp_commitChange (hr : Ready input p t₀ t) (ht : Confined p t d.tree) {c : FileChange}
    (hc : c ∈ p.changes) (suffix : Name) :
    wp (commitChange suffix c)
      (fun _ d' => Stepped c.path d.tree d'.tree ∧ Holds d'.tree c.path c.after)
      (fun _ d' => Stepped c.path d.tree d'.tree ∧ d'.tree.node c.path = d.tree.node c.path) d := by
  have hp := hr.planned c hc
  have howned := hp.owned hr.majors
  have hs := ht.straight (hr.straight c hc)
  unfold commitChange
  cases hp with
  | wanted rendered path after before kind differs =>
      rw [after, Option.getD_some]
      cases hb : c.before with
      | none =>
          rw [hb] at kind
          rw [kind]
          exact wp_atomicWrite howned hs
      | some b =>
          rw [hb] at kind
          rw [kind]
          exact wp_atomicWrite howned hs
  | stale owned undesired after before kind =>
      rw [kind, after]
      exact wp_removeIfExists howned hs

omit [Uuid] [Tera] in
theorem exists_mem_zipIdx {c : FileChange} (h : c ∈ p.changes) (k : Nat) :
    ∃ i, (c, i) ∈ p.changes.zipIdx k := by
  rw [← List.zipIdx_map_fst k p.changes, List.mem_map] at h
  obtain ⟨⟨c', i⟩, hmem, rfl⟩ := h
  exact ⟨i, hmem⟩

/-- What a commit has done so far. -/
structure Committed (input : ApplyInput) (p : ApplyPlan) (t t' : Tree)
    (done : List (FileChange × Nat)) : Prop where
  confined : Confined p t t'
  known : ∀ x ∈ done, x.1 ∈ p.changes
  installed : ∀ x ∈ done, ∃ y ∈ done, y.1.path = x.1.path ∧ Holds t' x.1.path y.1.after
  left : ∀ q, OwnedPath input.home q → (∀ x ∈ done, x.1.path ≠ q) → t'.node q = t.node q

theorem wp_committed (hr : Ready input p t₀ t) {done : List (FileChange × Nat)}
    {x : FileChange × Nat} (hx : x.1 ∈ p.changes) (h : Committed input p t d.tree done)
    (suffix : Name) :
    wp (commitChange suffix x.1) (fun _ d' => Committed input p t d'.tree (done ++ [x]))
      (fun _ d' => Confined p t d'.tree) d := by
  have howned := (hr.planned x.1 hx).owned hr.majors
  refine wp_mono (wp_commitChange hr h.confined hx suffix) (fun _ d' hd => ?_)
    fun _ d' hd => h.confined.trans (.of_stepped hx hd.1)
  obtain ⟨hstep, hheld⟩ := hd
  constructor
  · exact h.confined.trans (.of_stepped hx hstep)
  · intro y hy
    rcases List.mem_append.mp hy with hy | hy
    · exact h.known y hy
    · exact List.mem_singleton.mp hy ▸ hx
  · intro y hy
    by_cases hpath : y.1.path = x.1.path
    · exact ⟨x, by simp, hpath.symm, hpath ▸ hheld⟩
    · have hy' : y ∈ done := by
        rcases List.mem_append.mp hy with hy | hy
        · exact hy
        · exact absurd (by rw [List.mem_singleton.mp hy]) hpath
      obtain ⟨z, hz, hzpath, hzheld⟩ := h.installed y hy'
      have hyowned := (hr.planned y.1 (h.known y hy')).owned hr.majors
      exact ⟨z, List.mem_append_left _ hz, hzpath,
        hzheld.of_node (hstep.other howned hyowned hpath)⟩
  · intro q hq hne
    have hqx : q ≠ x.1.path := fun heq => hne x (by simp) heq.symm
    rw [hstep.other howned hq hqx]
    exact h.left q hq fun y hy => hne y (List.mem_append_left _ hy)

/-- The changes of a commit, after the log directories. -/
theorem wp_commitChanges (hr : Ready input p t₀ d.tree) (suffixes : Nat → Name) :
    wp (p.changes.zipIdx.forM fun c => commitChange (suffixes c.2) c.1)
      (fun _ d' => Committed input p d.tree d'.tree p.changes.zipIdx)
      (fun _ d' => Confined p d.tree d'.tree) d := by
  refine wp_forM (I := fun done d' => Committed input p d.tree d'.tree done)
    ⟨.refl p _, by simp, by simp, fun _ _ _ => rfl⟩ (fun _ h => h)
    fun done x rest d₁ hsplit h => ?_
  have hx : x.1 ∈ p.changes := by
    refine List.fst_mem_of_mem_zipIdx (k := 0) ?_
    rw [hsplit]
    simp
  exact wp_committed hr hx h _

/-- **A commit that returns has installed every change**, and one that fails has
touched no place that is not the plan's. -/
theorem wp_commit (hr : Ready input p d.tree d.tree) (hl : LogsReady input p d.tree)
    (suffixes : Nat → Name) :
    wp (commit suffixes p) (fun _ d' => Committed input p d.tree d'.tree p.changes.zipIdx)
      (fun _ d' => Confined p d.tree d'.tree) d := by
  unfold commit
  rw [wp_bind]
  have hlogs : wp (p.logDirs.forM fun dir =>
      mapErr (fun e => ApplyError.io "create_log_dir" dir (.os e)) (ensureLogDir dir))
      (fun _ d' => Confined p d.tree d'.tree ∧
        ∀ q, OwnedPath input.home q → d'.tree.node q = d.tree.node q)
      (fun _ d' => Confined p d.tree d'.tree) d := by
    refine wp_forM (I := fun _ d' => Confined p d.tree d'.tree ∧
        ∀ q, OwnedPath input.home q → d'.tree.node q = d.tree.node q)
      ⟨.refl p _, fun _ _ => rfl⟩ (fun _ h => h) fun done dir rest d₁ hsplit h => ?_
    have hdir : dir ∈ p.logDirs := by
      rw [hsplit]
      simp
    rw [wp_mapErr]
    refine wp_mono (wp_ensureLogDir hl h.1 hdir) (fun _ d₂ h₂ => ?_) fun _ _ h => h
    exact ⟨h₂.1, fun q hq => (h₂.2 q hq).trans (h.2 q hq)⟩
  refine wp_mono hlogs (fun _ d₁ h₁ => ?_) fun _ _ h => h
  have hr₁ : Ready input p d.tree d₁.tree :=
    ⟨hr.majors, hr.planned, fun c hc => h₁.1.straight (hr.straight c hc)⟩
  refine wp_mono (wp_commitChanges hr₁ suffixes) (fun _ d₂ h₂ => ?_)
    fun _ d₂ h₂ => h₁.1.trans h₂
  exact ⟨h₁.1.trans h₂.confined, h₂.known, h₂.installed,
    fun q hq hne => (h₂.left q hq hne).trans (h₁.2 q hq)⟩

end Commit

/-! ### The rollback -/

/-- The restores of a rollback, one after the other, with the error of each. -/
inductive Restores (suffixes : Nat → Name) :
    List (FileChange × Nat) → Disk → List (Option ApplyError) → Disk → Prop where
  | done {d} : Restores suffixes [] d [] d
  | restored {c rest d d₁ results d₂} (h : restore (suffixes c.2) c.1 d = .ok () d₁)
      (hrest : Restores suffixes rest d₁ results d₂) :
      Restores suffixes (c :: rest) d (none :: results) d₂
  | failed {c rest d e d₁ results d₂} (h : restore (suffixes c.2) c.1 d = .error e d₁)
      (hrest : Restores suffixes rest d₁ results d₂) :
      Restores suffixes (c :: rest) d (some e :: results) d₂

/-- The places whose restore failed, in order. -/
def strandedOf : List FileChange → List (Option ApplyError) → List Path
  | c :: cs, some _ :: results => c.path :: strandedOf cs results
  | _ :: cs, none :: results => strandedOf cs results
  | _, _ => []

/-- The first error of the restores. -/
def firstErrorOf (results : List (Option ApplyError)) : Option ApplyError :=
  results.findSome? id

section Rollback

/-- **A rollback makes every restore** and reports the places of those that failed. -/
theorem rollbackFrom_restores (suffixes : Nat → Name) (cs : List (FileChange × Nat)) :
    ∀ (firstError : Option ApplyError) (stranded : List Path) (d : Disk),
      ∃ results d', Restores suffixes cs d results d' ∧
        rollbackFrom suffixes cs firstError stranded d =
          match firstError <|> firstErrorOf results with
          | none => .ok () d'
          | some e => .error ⟨e, stranded ++ strandedOf (cs.map Prod.fst) results⟩ d' := by
  induction cs with
  | nil =>
      intro firstError stranded d
      refine ⟨[], d, .done, ?_⟩
      cases firstError with
      | none => rfl
      | some e => simp [rollbackFrom, strandedOf, fail]
  | cons c rest ih =>
      intro firstError stranded d
      have hstep : rollbackFrom suffixes (c :: rest) firstError stranded d =
          match restore (suffixes c.2) c.1 d with
          | .ok () d₁ => rollbackFrom suffixes rest firstError stranded d₁
          | .error e d₁ =>
              rollbackFrom suffixes rest (firstError <|> some e) (stranded ++ [c.1.path]) d₁ := by
        show EStateM.bind _ _ d = _
        unfold EStateM.bind attempt
        cases restore (suffixes c.2) c.1 d <;> rfl
      cases hres : restore (suffixes c.2) c.1 d with
      | ok _ d₁ =>
          obtain ⟨results, d', hrest, heq⟩ := ih firstError stranded d₁
          refine ⟨none :: results, d', .restored hres hrest, ?_⟩
          rw [hstep, hres]
          exact heq
      | error e d₁ =>
          obtain ⟨results, d', hrest, heq⟩ :=
            ih (firstError <|> some e) (stranded ++ [c.1.path]) d₁
          refine ⟨some e :: results, d', .failed hres hrest, ?_⟩
          rw [hstep, hres]
          refine heq.trans ?_
          cases firstError <;> simp [firstErrorOf, strandedOf]

/-- Without a first error no place is stranded. -/
theorem strandedOf_eq_nil (cs : List FileChange) :
    ∀ {results : List (Option ApplyError)}, firstErrorOf results = none →
      strandedOf cs results = [] := by
  induction cs with
  | nil => intro results _; cases results <;> rfl
  | cons c cs ih =>
      intro results h
      cases results with
      | nil => rfl
      | cons r results =>
          cases r with
          | none => exact ih h
          | some e => cases h

variable [Uuid] [Tera] {input : ApplyInput} {p : ApplyPlan} {t₀ : Tree} {d d' : Disk}
  {suffixes : Nat → Name}

/-- One restore puts back what the place held, or leaves it. -/
theorem wp_restore (hr : Ready input p t₀ t₀) (ht : Confined p t₀ d.tree) {c : FileChange}
    (hc : c ∈ p.changes) (suffix : Name) :
    wp (restore suffix c)
      (fun _ d' => Stepped c.path d.tree d'.tree ∧ Holds d'.tree c.path c.before)
      (fun _ d' => Stepped c.path d.tree d'.tree ∧ d'.tree.node c.path = d.tree.node c.path) d := by
  have hp := hr.planned c hc
  have howned := hp.owned hr.majors
  have hs := ht.straight (hr.straight c hc)
  unfold restore
  cases hp with
  | wanted rendered path after before kind differs =>
      cases hb : c.before with
      | none =>
          rw [hb] at kind
          rw [kind]
          exact wp_removeIfExists howned hs
      | some b =>
          rw [hb] at kind
          rw [kind]
          exact wp_atomicWrite howned hs
  | stale owned undesired after before kind =>
      rw [kind]
      cases hb : c.before with
      | none => exact wp_removeIfExists howned hs
      | some b => exact wp_atomicWrite howned hs

/-- What a rollback leaves at a place that held `b`. -/
structure RestoredTo (cs : List FileChange) (results : List (Option ApplyError)) (t t' : Tree)
    (q : Path) (b : Option (List Char)) : Prop where
  keeps : Holds t q b → Holds t' q b
  either : Holds t' q b ∨ t'.node q = t.node q
  restored : (∃ c ∈ cs, c.path = q) → q ∉ strandedOf cs results → Holds t' q b

/-- **The restores of a rollback**, whichever of them fail. -/
theorem Restores.spec (hr : Ready input p t₀ t₀) {cs : List (FileChange × Nat)}
    {results : List (Option ApplyError)} (h : Restores suffixes cs d results d')
    (hcs : ∀ x ∈ cs, x.1 ∈ p.changes) (ht : Confined p t₀ d.tree) :
    Confined p t₀ d'.tree ∧ ∀ q b, OwnedPath input.home q →
      (∀ x ∈ cs, x.1.path = q → x.1.before = b) →
        RestoredTo (cs.map Prod.fst) results d.tree d'.tree q b := by
  induction h with
  | done => exact ⟨ht, fun q b _ _ => ⟨id, .inr rfl, fun ⟨_, hc, _⟩ => absurd hc (by simp)⟩⟩
  | @restored c rest d d₁ results d₂ hres _ ih =>
      have hc := hcs c List.mem_cons_self
      obtain ⟨hstep, hheld⟩ := wp_ok (wp_restore hr ht hc _) hres
      obtain ⟨hconf, hplaces⟩ := ih (fun x hx => hcs x (List.mem_cons_of_mem _ hx))
        (ht.trans (.of_stepped hc hstep))
      refine ⟨hconf, fun q b hq hb => ?_⟩
      have hrest := hplaces q b hq fun x hx => hb x (List.mem_cons_of_mem _ hx)
      by_cases hpath : c.1.path = q
      · have hd₁ : Holds d₁.tree q b := by
          rw [← hpath, ← hb c List.mem_cons_self hpath]
          exact hheld
        exact ⟨fun _ => hrest.keeps hd₁, .inl (hrest.keeps hd₁), fun _ _ => hrest.keeps hd₁⟩
      · have hnode : d₁.tree.node q = d.tree.node q :=
          hstep.other ((hr.planned c.1 hc).owned hr.majors) hq fun h => hpath h.symm
        refine ⟨fun h => hrest.keeps (h.of_node hnode), ?_, ?_⟩
        · exact hrest.either.imp id fun h => h.trans hnode
        · rintro ⟨x, hx, hxq⟩ hnot
          refine hrest.restored ⟨x, ?_, hxq⟩ hnot
          rcases List.mem_cons.mp hx with rfl | hx
          · exact absurd hxq hpath
          · exact hx
  | @failed c rest d e d₁ results d₂ hres _ ih =>
      have hc := hcs c List.mem_cons_self
      obtain ⟨hstep, hheld⟩ := wp_error (wp_restore hr ht hc _) hres
      obtain ⟨hconf, hplaces⟩ := ih (fun x hx => hcs x (List.mem_cons_of_mem _ hx))
        (ht.trans (.of_stepped hc hstep))
      refine ⟨hconf, fun q b hq hb => ?_⟩
      have hrest := hplaces q b hq fun x hx => hb x (List.mem_cons_of_mem _ hx)
      have hnode : d₁.tree.node q = d.tree.node q := by
        by_cases hpath : q = c.1.path
        · rw [hpath]
          exact hheld
        · exact hstep.other ((hr.planned c.1 hc).owned hr.majors) hq hpath
      refine ⟨fun h => hrest.keeps (h.of_node hnode), ?_, ?_⟩
      · exact hrest.either.imp id fun h => h.trans hnode
      · rintro ⟨x, hx, hxq⟩ hnot
        rw [List.map_cons, strandedOf, List.mem_cons, not_or] at hnot
        refine hrest.restored ⟨x, ?_, hxq⟩ hnot.2
        rcases List.mem_cons.mp hx with rfl | hx
        · exact absurd hxq.symm hnot.1
        · exact hx

end Rollback

/-! ### The apply -/

/-- Why an apply stops, and the disk it stops on. -/
inductive Stopped (validate : Path → Tree → Except ApplyError ValidationReport)
    (suffixes : Nat → Name) (p : ApplyPlan) (d : Disk) : ApplyError → Disk → Prop where
  | commit {e d₂} (h : commit suffixes p d = .error e d₂) : Stopped validate suffixes p d e d₂
  | rejected {r d₂} (h : commit suffixes p d = .ok () d₂)
      (hv : validate p.mainConf d₂.tree = .ok r) (hr : r.ok = false) :
      Stopped validate suffixes p d (.validationFailed r.stderr) d₂
  | validator {e d₂} (h : commit suffixes p d = .ok () d₂)
      (hv : validate p.mainConf d₂.tree = .error e) : Stopped validate suffixes p d e d₂

/-- The error an apply ends with. -/
def reported (p : ApplyPlan) (original : ApplyError) (results : List (Option ApplyError)) :
    ApplyError :=
  match firstErrorOf results with
  | none => original
  | some e => .rollbackFailed original e (strandedOf p.changes results)

/-- What a rollback leaves: `t₀` is the tree before the commit, `t₂` the one the
rollback found. -/
structure RolledBack (p : ApplyPlan) (t₀ t₂ t' : Tree) (results : List (Option ApplyError)) :
    Prop where
  original : ∀ c ∈ p.changes, Holds t₀ c.path c.before
  restored : firstErrorOf results = none → ∀ c ∈ p.changes, Holds t' c.path c.before
  held : ∀ c ∈ p.changes, c.path ∉ strandedOf p.changes results → Holds t' c.path c.before
  stranded : ∀ c ∈ p.changes, c.path ∈ strandedOf p.changes results →
    Holds t' c.path c.before ∨ t'.node c.path = t₂.node c.path
  confined : Confined p t₀ t'

section Apply

variable [Uuid] [Tera] {input : ApplyInput} {p : ApplyPlan} {d d₂ : Disk}
  {validate : Path → Tree → Except ApplyError ValidationReport} {suffixes : Nat → Name}

theorem rolledBack (hr : Ready input p d.tree d.tree) (ht : Confined p d.tree d₂.tree)
    {results : List (Option ApplyError)} {d' : Disk}
    (h : Restores suffixes (p.changes.zipIdx p.changes.length) d₂ results d') :
    RolledBack p d.tree d₂.tree d'.tree results := by
  obtain ⟨hconf, hplaces⟩ := h.spec hr (fun x hx => List.fst_mem_of_mem_zipIdx hx) ht
  rw [List.zipIdx_map_fst] at hplaces
  have hplace : ∀ c ∈ p.changes,
      RestoredTo p.changes results d₂.tree d'.tree c.path c.before := by
    intro c hc
    refine hplaces c.path c.before ((hr.planned c hc).owned hr.majors) fun x hx hpath => ?_
    have hx' := hr.planned x.1 (List.fst_mem_of_mem_zipIdx hx)
    exact (hpath ▸ hx'.holds).unique (hr.planned c hc).holds
  refine ⟨fun c hc => (hr.planned c hc).holds, fun hnone c hc => ?_, fun c hc hnot => ?_,
    fun c hc _ => (hplace c hc).either, hconf⟩
  · refine (hplace c hc).restored ⟨c, hc, rfl⟩ ?_
    rw [strandedOf_eq_nil p.changes hnone]
    simp
  · exact (hplace c hc).restored ⟨c, hc, rfl⟩ hnot

omit [Uuid] [Tera] in
/-- A rollback ends with the report of its restores. -/
theorem withRollback_restores (suffixes : Nat → Name) (p : ApplyPlan) (original : ApplyError)
    (d₂ : Disk) :
    ∃ results d', Restores suffixes (p.changes.zipIdx p.changes.length) d₂ results d' ∧
      (do
        let e ← withRollback suffixes p original
        (fail e : Io ApplyError ApplyOutcome)) d₂ = .error (reported p original results) d' := by
  obtain ⟨results, d', hres, heq⟩ :=
    rollbackFrom_restores suffixes (p.changes.zipIdx p.changes.length) none [] d₂
  refine ⟨results, d', hres, ?_⟩
  have hroll : rollback suffixes p d₂ =
      match firstErrorOf results with
      | none => .ok () d'
      | some e => .error ⟨e, strandedOf p.changes results⟩ d' := by
    rw [rollback, heq, List.zipIdx_map_fst]
    rfl
  show EStateM.bind (EStateM.bind _ _) _ d₂ = _
  unfold EStateM.bind attempt
  rw [hroll]
  unfold reported
  cases firstErrorOf results <;> rfl

/-- **Site apply is all-or-nothing**, up to the restores that fail: whatever stops
it, every place of the plan is put back unless its own restore failed, exactly
those are reported, and nothing else is touched but temp files, log directories
and missing directories above. -/
theorem apply_all_or_nothing {d₀ d₁ : Disk} (hplan : plan input d₀ = .ok p d₁)
    (hlinks : NoLinks input d₀.tree) (hlogs : ∀ dir ∈ p.logDirs, d₀.tree.Straight dir)
    (hd : d.tree = d₀.tree) :
    match apply validate suffixes p d with
    | .ok _ d' => Confined p d₀.tree d'.tree
    | .error e d' => ∃ original results d₂,
        Stopped validate suffixes p d original d₂ ∧ Confined p d₀.tree d₂.tree ∧
          Restores suffixes (p.changes.zipIdx p.changes.length) d₂ results d' ∧
          e = reported p original results ∧ RolledBack p d₀.tree d₂.tree d'.tree results := by
  have hp := (planOf_of_plan hlinks hplan).2
  have hr : Ready input p d.tree d.tree := by
    rw [hd]
    exact ready_of_planOf (majorsValid_of_plan hplan) hlinks hp
  have hl : LogsReady input p d.tree := ⟨(logDirs_ok hp.logDirs).2, by rwa [hd]⟩
  have hcommit := wp_commit hr hl suffixes
  have hback : ∀ {original d₂}, Stopped validate suffixes p d original d₂ →
      Confined p d.tree d₂.tree → ∃ results d', (do
        let e ← withRollback suffixes p original
        (fail e : Io ApplyError ApplyOutcome)) d₂ = .error (reported p original results) d' ∧
        Restores suffixes (p.changes.zipIdx p.changes.length) d₂ results d' ∧
        RolledBack p d₀.tree d₂.tree d'.tree results := by
    intro original d₂ _ hconf
    obtain ⟨results, d', hres, heq⟩ := withRollback_restores suffixes p original d₂
    exact ⟨results, d', heq, hres, hd ▸ rolledBack hr hconf hres⟩
  have hrun : apply validate suffixes p d =
      match commit suffixes p d with
      | .error e d₂ => (do
          let e ← withRollback suffixes p e
          (fail e : Io ApplyError ApplyOutcome)) d₂
      | .ok () d₂ =>
          (match validate p.mainConf d₂.tree with
          | .ok r =>
              if r.ok then pure ⟨p.changes.length, r.stderr⟩
              else do
                let e ← withRollback suffixes p (.validationFailed r.stderr)
                fail e
          | .error e => do
              let e ← withRollback suffixes p e
              fail e : Io ApplyError ApplyOutcome) d₂ := by
    show EStateM.bind _ _ d = _
    unfold EStateM.bind attempt
    cases commit suffixes p d with
    | error e d₂ => rfl
    | ok _ d₂ =>
        show EStateM.bind _ _ d₂ = _
        rfl
  rw [hrun]
  cases hc : commit suffixes p d with
  | error e d₂ =>
      have hconf := wp_error hcommit hc
      obtain ⟨results, d', heq, hres, hrolled⟩ := hback (.commit hc) hconf
      simp only [heq]
      exact ⟨e, results, d₂, .commit hc, hd ▸ hconf, hres, rfl, hrolled⟩
  | ok _ d₂ =>
      have hconf := (wp_ok hcommit hc).confined
      cases hv : validate p.mainConf d₂.tree with
      | error e =>
          obtain ⟨results, d', heq, hres, hrolled⟩ := hback (.validator hc hv) hconf
          simp only [hv, heq]
          exact ⟨e, results, d₂, .validator hc hv, hd ▸ hconf, hres, rfl, hrolled⟩
      | ok r =>
          cases hok : r.ok with
          | true =>
              simp only [hv, hok, if_true]
              exact hd ▸ hconf
          | false =>
              obtain ⟨results, d', heq, hres, hrolled⟩ := hback (.rejected hc hv hok) hconf
              simp only [hv, hok, Bool.false_eq_true, if_false, heq]
              exact ⟨_, results, d₂, .rejected hc hv hok, hd ▸ hconf, hres, rfl, hrolled⟩

end Apply

/-! ### Runs -/

section Sample

attribute [local instance] verbatimTera hyphenatedUuid

theorem plain_sampleDir : Plain ["h".toList] := by decide

def sampleHome : Home := ⟨"/h".toList, ["h".toList], plain_sampleDir⟩

/-- A home without sites, with the given PHP majors. -/
def sampleInput (majors : List String) : ApplyInput where
  home := sampleHome
  sites := []
  php := majors.map fun m => ⟨m.toList⟩
  settings := uncheckedDefaults
  defaultPhp := none

/-- The names of temp files in the runs below. -/
def sampleSuffixes (i : Nat) : Name := decimal i

/-- Plan on a tree, then apply with the given faults. -/
def sampleApply (majors : List String) (validates : Bool) (nodes : List (Path × Node))
    (faults : List (Option Fault)) :
    Option (ApplyPlan × EStateM.Result ApplyError Disk ApplyOutcome) :=
  let t := Tree.ofNodes nodes
  match plan (sampleInput majors) ⟨t, [], []⟩ with
  | .ok p _ =>
      some (p, apply (fun _ _ => .ok ⟨validates, []⟩) sampleSuffixes p ⟨t, faults, []⟩)
  | .error .. => none

/-- The nodes of a home that was never applied. -/
def freshHome : List (Path × Node) := [(["h".toList], .dir none)]

/-- A home whose `php/8.5` is a link that leads to `php/8.4` once `php/8.3` is there. -/
def linkedHome : List (Path × Node) :=
  let dir (names : List String) : Path × Node := ("h".toList :: names.map String.toList, .dir none)
  [dir [], dir ["config"], dir ["config", "generated"], dir ["config", "generated", "php"],
    dir ["config", "generated", "php", "8.4"],
    (sampleHome.poolConf "8.4".toList, .file (utf8 "old".toList) none),
    (sampleHome.generated ++ ["php".toList, "8.5".toList], .symlink "8.3/../8.4".toList)]

/-- What holds of the plan and of the outcome of a run. -/
def sampleMeets (majors : List String) (validates : Bool) (nodes : List (Path × Node))
    (faults : List (Option Fault))
    (ok : ApplyPlan → EStateM.Result ApplyError Disk ApplyOutcome → Bool) : Bool :=
  (sampleApply majors validates nodes faults).any fun r => ok r.1 r.2

theorem exists_of_sampleMeets {majors : List String} {validates : Bool}
    {nodes : List (Path × Node)} {faults : List (Option Fault)}
    {ok : ApplyPlan → EStateM.Result ApplyError Disk ApplyOutcome → Bool}
    (h : sampleMeets majors validates nodes faults ok = true) :
    ∃ p d₁, plan (sampleInput majors) ⟨Tree.ofNodes nodes, [], []⟩ = .ok p d₁ ∧
      ok p (apply (fun _ _ => .ok ⟨validates, []⟩) sampleSuffixes p
        ⟨Tree.ofNodes nodes, faults, []⟩) = true := by
  unfold sampleMeets sampleApply at h
  cases hp : plan (sampleInput majors) ⟨Tree.ofNodes nodes, [], []⟩ with
  | error e d₁ => simp [hp] at h
  | ok p d₁ => exact ⟨p, d₁, rfl, by simpa [hp] using h⟩

/-- A rejected apply of a fresh home puts every place back. -/
theorem apply_all_or_nothing_rejected :
    ∃ p d₁ e d', plan (sampleInput ["8.4"]) ⟨Tree.ofNodes freshHome, [], []⟩ = .ok p d₁ ∧
      apply (fun _ _ => .ok ⟨false, []⟩) sampleSuffixes p ⟨Tree.ofNodes freshHome, [], []⟩ =
        .error e d' ∧
      p.changes.length = 3 ∧ ∀ c ∈ p.changes, Holds d'.tree c.path c.before := by
  obtain ⟨p, d₁, hplan, hrun⟩ := exists_of_sampleMeets
    (show sampleMeets ["8.4"] false freshHome [] (fun p r => p.changes.length == 3 &&
      match r with
      | .ok .. => false
      | .error e _ => e == .validationFailed []) = true by decide +kernel)
  have hlinkless : ∀ p, (Tree.ofNodes freshHome).Straight p := fun p q _ target =>
    Tree.linkless_iff.mp (by decide) q target
  have hspec := @apply_all_or_nothing _ _ _ p ⟨Tree.ofNodes freshHome, [], []⟩
    (fun _ _ => .ok ⟨false, []⟩) sampleSuffixes _ _ hplan (fun f _ => hlinkless _)
    (fun dir _ => hlinkless dir) rfl
  simp only [Bool.and_eq_true, beq_iff_eq] at hrun
  obtain ⟨hlen, hrun⟩ := hrun
  split at hrun
  next => cases hrun
  next e d' happly =>
    rw [happly] at hspec
    obtain ⟨original, results, d₂, -, -, -, he, hrolled⟩ := hspec
    refine ⟨p, d₁, e, d', hplan, happly, hlen, hrolled.restored ?_⟩
    -- the error is not one of a rollback
    unfold reported at he
    split at he
    next hnone => exact hnone
    next =>
      rw [he] at hrun
      exact absurd hrun (by simp)

/-- **Three runs outside the rule**: a restore that fails on a place the commit
had not changed strands it although nothing differs there; a run makes
directories and log directories, which are no places of the plan; and where a
link leads one generated file to the place of another, a rollback that reports
no failure has removed a file. -/
theorem apply_reaches_beyond_plan :
    (∃ p d₁ e d', plan (sampleInput []) ⟨Tree.ofNodes freshHome, [], []⟩ = .ok p d₁ ∧
      apply (fun _ _ => .ok ⟨true, []⟩) sampleSuffixes p
        ⟨Tree.ofNodes freshHome, [some ⟨5, 0⟩, some ⟨5, 0⟩], []⟩ = .error e d' ∧
      (∃ original first,
        e = .rollbackFailed original first [sampleHome.mainConf]) ∧
      ∀ c ∈ p.changes, Holds d'.tree c.path c.before) ∧
    (∃ p d₁ outcome d', plan (sampleInput ["8.4"]) ⟨Tree.ofNodes freshHome, [], []⟩ = .ok p d₁ ∧
      apply (fun _ _ => .ok ⟨true, []⟩) sampleSuffixes p ⟨Tree.ofNodes freshHome, [], []⟩ =
        .ok outcome d' ∧
      ∃ q, (∀ c ∈ p.changes, c.path ≠ q) ∧ (Tree.ofNodes freshHome).node q = none ∧
        d'.tree.node q ≠ none) ∧
    ∃ p d₁ d', plan (sampleInput ["8.3", "8.4", "8.5"]) ⟨Tree.ofNodes linkedHome, [], []⟩ =
        .ok p d₁ ∧
      apply (fun _ _ => .ok ⟨false, []⟩) sampleSuffixes p ⟨Tree.ofNodes linkedHome, [], []⟩ =
        .error (.validationFailed []) d' ∧
      ∃ c ∈ p.changes, Holds (Tree.ofNodes linkedHome) c.path c.before ∧
        ¬ Holds d'.tree c.path c.before := by
  refine ⟨?_, ?_, ?_⟩
  · obtain ⟨p, d₁, hplan, hrun⟩ := exists_of_sampleMeets
      (show sampleMeets [] true freshHome [some ⟨5, 0⟩, some ⟨5, 0⟩] (fun p r =>
        match r with
        | .error (.rollbackFailed _ _ stranded) d' => stranded == [sampleHome.mainConf] &&
            decide (∀ c ∈ p.changes, Holds d'.tree c.path c.before)
        | _ => false) = true by decide +kernel)
    split at hrun
    next original first stranded d' happly =>
      simp only [Bool.and_eq_true, beq_iff_eq, decide_eq_true_eq] at hrun
      exact ⟨p, d₁, _, d', hplan, happly, ⟨original, first, by rw [hrun.1]⟩, hrun.2⟩
    next => cases hrun
  · obtain ⟨p, d₁, hplan, hrun⟩ := exists_of_sampleMeets
      (show sampleMeets ["8.4"] true freshHome [] (fun p r =>
        match r with
        | .ok _ d' =>
            let q := sampleHome.dir ++ ["logs".toList]
            decide ((∀ c ∈ p.changes, c.path ≠ q) ∧ (Tree.ofNodes freshHome).node q = none ∧
              d'.tree.node q ≠ none)
        | _ => false) = true by decide +kernel)
    split at hrun
    next outcome d' happly =>
      exact ⟨p, d₁, outcome, d', hplan, happly, _, of_decide_eq_true hrun⟩
    next => cases hrun
  · obtain ⟨p, d₁, hplan, hrun⟩ := exists_of_sampleMeets
      (show sampleMeets ["8.3", "8.4", "8.5"] false linkedHome [] (fun p r =>
        match r with
        | .error e d' => e == .validationFailed [] && decide (∃ c ∈ p.changes,
            Holds (Tree.ofNodes linkedHome) c.path c.before ∧ ¬ Holds d'.tree c.path c.before)
        | _ => false) = true by decide +kernel)
    split at hrun
    next e d' happly =>
      simp only [Bool.and_eq_true, beq_iff_eq, decide_eq_true_eq] at hrun
      exact ⟨p, d₁, d', hplan, hrun.1 ▸ happly, hrun.2⟩
    next => cases hrun

end Sample

end OpenVHost.Site
