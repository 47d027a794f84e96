/-
# Planning converges

After a plan and a commit that returns, the generated files are what the sites
render to, and there is nothing left to plan. This holds where no link sits
above a rendered file: the scan and the reads look at the last component only,
so a `php/<major>` that is a link is written through and never listed again.

* `Converged` — what a plan and its commit are to leave.
* `wp_commit_mild`, `wp_commit_link` — a commit without and with links above the
  places of its plan.
* `converged_iff` — a commit converges exactly where no such link is.
-/

import OpenVHost.Site.Commit
import OpenVHost.Site.Ingress

namespace OpenVHost.Site

open FileTree Io Text Conf

section Converge

variable [Uuid] [Tera] {input : ApplyInput} {p : ApplyPlan} {t t' : Tree} {d d₁ d₂ d₃ : Disk}

/-- What a plan `p` of `t₀` and its commit are to leave in `t`. -/
structure Converged (input : ApplyInput) (t₀ t : Tree) (p : ApplyPlan) : Prop where
  owned : ∀ q, OwnedFile input.home t q → ∃ f, Rendered input f ∧ f.path = q
  held : ∀ f, Rendered input f → Holds t f.path (some f.contents)
  replan : ∀ d, d.tree = t → (d.faults = [] → returns (plan input) d = true) ∧
    ∀ p' d', plan input d = .ok p' d' → p'.changes = []
  confined : ∀ c ∈ p.changes, OwnedPath input.home c.path ∧ t₀.Straight c.path.dropLast ∧
    Holds t₀ c.path c.before

/-! ### A settled tree -/

theorem noLinks_of_held (h : ∀ f, Rendered input f → Holds t f.path (some f.contents)) :
    NoLinks input t := by
  intro f hf
  obtain ⟨mode, hn⟩ := h f hf
  exact (Tree.straight_of_file hn).above (List.dropLast_prefix _)

/-- **A settled tree needs no change.** -/
theorem Settled.replan (hv : MajorsValid input) (h : Settled input d.tree) :
    (d.faults = [] → returns (plan input) d = true) ∧
      ∀ p d', plan input d = .ok p d' → p.changes = [] := by
  have hn := noLinks_of_held h.held
  have hplan := wp_plan (d := d) hv hn
  constructor
  · intro hf
    unfold returns
    cases hp : plan input d with
    | ok p d' => rfl
    | error e d' => exact absurd h (wp_error hplan hp hf)
  · intro p d' hp
    have hof := (wp_ok hplan hp).2
    refine List.eq_nil_iff_forall_not_mem.mpr fun c hc => ?_
    cases hof.planned c hc with
    | wanted rendered path after before kind differs =>
        have hheld := h.held _ rendered
        rw [← path] at hheld
        exact differs ((before.unique hheld).trans after.symm)
    | stale owned undesired after before kind =>
        obtain ⟨f, hf, heq⟩ := h.owned _ owned
        exact undesired f hf heq

/-! ### Without links -/

omit [Uuid] [Tera] in
theorem mild_holds {q : Path} {s : List Char} (h : Tree.Mild t t') :
    Holds t' q (some s) ↔ Holds t q (some s) := h.file

omit [Uuid] [Tera] in
theorem mild_ownedFile {home : Home} {q : Path} (h : Tree.Mild t t') :
    OwnedFile home t' q ↔ OwnedFile home t q := by
  have hfile : (∃ content mode, t'.node q = some (.file content mode)) ↔
      ∃ content mode, t.node q = some (.file content mode) :=
    exists_congr fun _ => h.file
  simp only [OwnedFile, hfile]

omit [Tera] [Uuid] in
/-- The log directories are made first, and nothing but directories is new. -/
theorem wp_logDirs_mild (dirs : List Path) :
    wp (dirs.forM fun dir =>
        mapErr (fun e => ApplyError.io "create_log_dir" dir (.os e)) (ensureLogDir dir))
      (fun _ d' => Tree.Mild d.tree d'.tree) (fun _ _ => True) d := by
  refine wp_forM (I := fun _ d' => Tree.Mild d.tree d'.tree) (.refl _) (fun _ h => h)
    fun done dir rest d₁ hsplit h => ?_
  rw [wp_mapErr, ensureLogDir, wp_bind]
  refine wp_mono wp_createDirAll_mild (fun _ d₂ h₂ => ?_) fun _ _ _ => trivial
  exact wp_update (fun d₃ hc _ _ => h.trans (h₂.trans (Tree.chmod_mild hc)))
    fun _ _ _ _ => trivial

/-- A commit that returns: the log directories, then every change. -/
theorem wp_commit_mild (hr : Ready input p d.tree d.tree) (suffixes : Nat → Name) :
    wp (commit suffixes p)
      (fun _ d' => ∃ t, Tree.Mild d.tree t ∧ Committed input p t d'.tree p.changes.zipIdx)
      (fun _ _ => True) d := by
  unfold commit
  rw [wp_bind]
  refine wp_mono (wp_logDirs_mild p.logDirs) (fun _ d₁ h₁ => ?_) fun _ _ _ => trivial
  have hr₁ : Ready input p d.tree d₁.tree :=
    ⟨hr.majors, hr.planned, fun c hc => h₁.straight (hr.straight c hc)⟩
  exact wp_mono (wp_commitChanges hr₁ suffixes) (fun _ d₂ h₂ => ⟨d₁.tree, h₁, h₂⟩)
    fun _ _ _ => trivial

omit [Uuid] [Tera] in
/-- The directory of the pools is none of the places of a plan. -/
theorem Confined.phpDir {home : Home} (howned : ∀ c ∈ p.changes, OwnedPath home c.path)
    (hlogs : ∀ dir ∈ p.logDirs, LogDir home dir) (h : Confined p t t') :
    t'.node (home.generated ++ ["php".toList]) = t.node (home.generated ++ ["php".toList]) ∨
      t'.isDir (home.generated ++ ["php".toList]) = true := by
  have hlen : ∀ c ∈ p.changes, c.path.length ≠ (home.generated ++ ["php".toList]).length := by
    intro c hc heq
    obtain ⟨s, hs, hle, -⟩ := (howned c hc).under
    rw [hs] at heq
    simp only [List.length_append, List.length_singleton] at heq
    omega
  refine (h _).imp id fun ⟨htouched, _⟩ => ?_
  cases htouched with
  | change c mem h => exact absurd (congrArg List.length h).symm (hlen c mem)
  | temp c mem suffix h =>
      have heq := congrArg List.length h
      rw [length_tmpPath (howned c mem).ne_nil] at heq
      exact absurd heq.symm (hlen c mem)
  | logDir mem =>
      obtain ⟨a, b, h, -, -⟩ := hlogs _ mem
      simp [Home.generated, LogPaths.root] at h
  | above _ _ made => exact Tree.isDir_iff.mpr ⟨none, made⟩

/-- A commit that returns leaves a settled tree. -/
theorem settled_of_committed {t₀ t₁ : Tree} {quiet : Prop} (hq : quiet) (hv : MajorsValid input)
    (hdistinct : DistinctDomains input) (hp : PlanOf input quiet t₀ p) (hm : Tree.Mild t₀ t₁)
    (hc : Committed input p t₁ t' p.changes.zipIdx) : Settled input t' := by
  have howned : ∀ c ∈ p.changes, OwnedPath input.home c.path :=
    fun c hcm => (hp.planned c hcm).owned hv
  -- what a change leaves at its place is what some rendered file says
  have hchanged : ∀ c ∈ p.changes, ∃ y ∈ p.changes, y.path = c.path ∧ Holds t' c.path y.after := by
    intro c hcm
    obtain ⟨i, hi⟩ := exists_mem_zipIdx hcm 0
    obtain ⟨y, hy, hpath, hheld⟩ := hc.installed _ hi
    exact ⟨y.1, hc.known y hy, hpath, hheld⟩
  have hleft : ∀ q, OwnedPath input.home q → (∀ c ∈ p.changes, c.path ≠ q) →
      t'.node q = t₁.node q :=
    fun q hq hne => hc.left q hq fun x hx => hne x.1 (hc.known x hx)
  have hheld : ∀ f, Rendered input f → Holds t' f.path (some f.contents) := by
    intro f hf
    by_cases hex : ∃ c ∈ p.changes, c.path = f.path
    · obtain ⟨c, hcm, hpath⟩ := hex
      obtain ⟨y, hy, hypath, hyheld⟩ := hchanged c hcm
      cases hp.planned y hy with
      | @wanted g rendered path after _ _ _ =>
          have hfg : f = g :=
            hf.unique hv hdistinct rendered (by rw [← hpath, ← hypath, path])
          rw [after, hpath, ← hfg] at hyheld
          exact hyheld
      | stale _ undesired _ _ _ => exact absurd (hypath.trans hpath).symm (undesired f hf)
    · push Not at hex
      have hsame := hleft f.path (hf.owned hv) hex
      rcases hp.wanted f hf with h | ⟨c, hcm, hpath, -⟩
      · exact ((mild_holds hm).mpr h).of_node hsame
      · exact absurd hpath (hex c hcm)
  refine ⟨hp.rendered, ⟨_, hp.logDirs⟩, hheld, ?_, ?_⟩
  · rintro q ⟨hown, hmain, content, mode, hfile⟩
    by_cases hex : ∃ c ∈ p.changes, c.path = q
    · obtain ⟨c, hcm, rfl⟩ := hex
      obtain ⟨y, hy, hypath, hyheld⟩ := hchanged c hcm
      cases hp.planned y hy with
      | wanted rendered path _ _ _ _ => exact ⟨_, rendered, path.symm.trans hypath⟩
      | stale _ _ after _ _ =>
          rw [after] at hyheld
          rw [show t'.node c.path = none from hyheld] at hfile
          cases hfile
    · push Not at hex
      rw [hleft q hown hex] at hfile
      have hstale : OwnedFile input.home t₀ q :=
        (mild_ownedFile hm).mp ⟨hown, hmain, content, mode, hfile⟩
      by_contra hnone
      push Not at hnone
      obtain ⟨c, hcm, hpath⟩ := hp.stale hq q hstale hnone
      exact hex c hcm hpath
  · intro dir hdir
    rcases List.mem_pair.mp hdir with rfl | rfl
    · obtain ⟨files, hfiles⟩ := hp.rendered
      obtain ⟨f, hf, hpath⟩ := (exists_rendered hfiles).2
      obtain ⟨mode, hn⟩ := hheld f hf
      have hdir := Tree.isDir_dropLast (Tree.has_of_node hn)
      rw [hpath] at hdir
      left
      simpa [Home.siteConf] using hdir
    · have hlogs := (logDirs_ok hp.logDirs).2
      rcases hc.confined.phpDir howned hlogs with heq | hdir
      · unfold Tree.isDir
        rw [heq]
        rcases hp.scannable (input.home.generated ++ ["php".toList]) (by simp) with h | h
        · exact .inl (hm.grows.isDir h)
        · rcases hm (input.home.generated ++ ["php".toList]) with hsame | ⟨-, hdir⟩
          · right
            rw [h] at hsame
            simpa using hsame
          · exact .inl hdir
      · exact .inl hdir

/-! ### With links -/

/-- The name of a change of a plan. -/
def ConfNamed (p : Path) : Prop :=
  ∃ n, p.getLast? = some n ∧ special n = false ∧ ".conf".toList <:+ n

omit [Uuid] [Tera] in
theorem confNamed_of_suffix {q : Path} {n : Name} (hn : q.getLast? = some n)
    (hsuf : ".conf".toList <:+ n) : ConfNamed q := by
  have hlen := hsuf.length_le
  refine ⟨n, hn, special_eq_false.mpr ⟨?_, ?_, ?_⟩, hsuf⟩ <;>
    · rintro rfl
      simp at hlen

omit [Uuid] [Tera] in
theorem gives_ownedFiles (home : Home) :
    Gives (ownedFiles home.generated) fun ps => ∀ q ∈ ps, ConfNamed q := by
  refine Gives.bind (Gives.any _) fun entries _ => ?_
  refine Gives.bind (Gives.any _) fun majors _ => ?_
  refine Gives.bind (R := fun pools : List (Option Path) => ∀ r ∈ pools, ∀ q, r = some q →
    ConfNamed q) (Gives.mapM' fun e _ => ?_) fun pools hpools => Gives.pure fun q hq => ?_
  · unfold poolOf
    split
    · refine Gives.bind (Gives.any _) fun r _ => ?_
      split
      · refine Gives.pure fun q hq => ?_
        split at hq
        next =>
          cases hq
          exact confNamed_of_suffix (n := "php-fpm.conf".toList) (by simp) (by decide)
        next => cases hq
      · exact Gives.pure (by simp)
    · exact Gives.pure (by simp)
  · rw [mem_sortByPath, List.mem_append, List.mem_filterMap, List.mem_filterMap] at hq
    rcases hq with ⟨⟨n, x⟩, -, hq⟩ | ⟨r, hr, hq⟩
    · obtain ⟨-, name, -, rfl, rfl⟩ := siteFileOf_eq_some.mp hq
      exact confNamed_of_suffix (n := name ++ ".conf".toList) (by simp [Home.siteConf])
        (List.suffix_append _ _)
    · exact hpools r hr q hq

/-- **The changes of a plan name configuration files**, whatever the tree is. -/
theorem confNamed_of_plan {d' : Disk} (h : plan input d = .ok p d') :
    ∀ c ∈ p.changes, ConfNamed c.path := by
  have hv := majorsValid_of_plan h
  have hread : ∀ f : GeneratedFile, Gives (desiredChange f) fun r => ∀ c, r = some c →
      c.path = f.path := by
    intro f
    refine Gives.bind (Gives.any _) fun b _ => ?_
    cases b with
    | none =>
        refine Gives.pure fun c hc => ?_
        cases hc
        rfl
    | some b =>
        refine Gives.pure fun c hc => ?_
        split at hc
        · cases hc
        · cases hc
          rfl
  have hstale : ∀ files q, Gives (staleChange files q) fun r => ∀ c, r = some c →
      c.path = q := by
    intro files q
    unfold staleChange
    split
    · exact Gives.pure (by simp)
    · refine Gives.bind (Gives.any _) fun b _ => Gives.pure fun c hc => ?_
      cases hc
      rfl
  refine Gives.bind (Gives.ofExcept fun files hfiles => hfiles) (fun files hfiles => ?_) d p d' h
    (P := fun p => ∀ c ∈ p.changes, ConfNamed c.path)
  refine Gives.bind (R := fun rs : List (Option FileChange) => ∀ r ∈ rs, ∀ c, r = some c →
    ConfNamed c.path) (Gives.mapM' fun f hf => ?_) fun wanted hw => ?_
  · intro d r d' hr c hc
    obtain ⟨n, hn, hsuf⟩ := (((mem_renderSet hfiles).mp hf).owned hv).suffix
    rw [hread f d r d' hr c hc]
    exact confNamed_of_suffix hn hsuf
  refine Gives.bind (gives_ownedFiles input.home) fun owned ho => ?_
  refine Gives.bind (R := fun rs : List (Option FileChange) => ∀ r ∈ rs, ∀ c, r = some c →
    ConfNamed c.path) (Gives.mapM' fun q hq => ?_) fun stale hs => ?_
  · intro d r d' hr c hc
    rw [hstale files q d r d' hr c hc]
    exact ho q hq
  refine Gives.bind (Gives.any _) fun dirs _ => Gives.pure fun c hc => ?_
  rw [mem_sortByPath, List.mem_append, List.mem_filterMap, List.mem_filterMap] at hc
  rcases hc with ⟨r, hr, rfl⟩ | ⟨r, hr, rfl⟩
  · exact hw _ hr c rfl
  · exact hs _ hr c rfl

omit [Uuid] [Tera] in
/-- **A commit leaves every link that has no configuration file's name.** -/
theorem wp_commit_link (hp : ∀ c ∈ p.changes, ConfNamed c.path) (suffixes : Nat → Name) {l : Path}
    {target : List Char} (hl : d.tree.node l = some (.symlink target))
    (hname : ∀ n, l.getLast? = some n → ¬ ".conf".toList <:+ n) :
    wp (commit suffixes p) (fun _ d' => d'.tree.node l = some (.symlink target))
      (fun _ _ => True) d := by
  unfold commit
  rw [wp_bind]
  refine wp_mono (wp_logDirs_mild p.logDirs) (fun _ d₁ h₁ => ?_) fun _ _ _ => trivial
  refine wp_forM (I := fun _ d' => d'.tree.node l = some (.symlink target)) (h₁.grows.link hl)
    (fun _ h => h) fun done x rest d₂ hsplit h₂ => ?_
  have hx : x.1 ∈ p.changes := by
    refine List.fst_mem_of_mem_zipIdx (k := 0) ?_
    rw [hsplit]
    simp
  obtain ⟨n, hn, hsp, hsuf⟩ := hp x.1 hx
  have hln : l.getLast? ≠ some n := fun heq => hname n heq hsuf
  have hwrite : ∀ s, wp (atomicWrite x.1.path s (suffixes x.2))
      (fun _ d' => d'.tree.node l = some (.symlink target)) (fun _ _ => True) d₂ := by
    intro s
    rw [atomicWrite, wp_mapErr]
    exact wp_mono (wp_writeAtomic_link hn hsp hln h₂) (fun _ _ h => h) fun _ _ h => h
  unfold commitChange
  cases x.1.kind with
  | added => exact hwrite _
  | modified => exact hwrite _
  | removed =>
      show wp (removeIfExists x.1.path) _ _ _
      rw [removeIfExists, wp_bind, wp_attempt]
      refine wp_update (fun d₃ hr _ _ => Tree.removeFile_link hn hsp h₂ hln hr)
        fun e d₃ hk _ => ?_
      cases e with
      | notFound =>
          show d₃.tree.node l = _
          rw [hk.tree]
          exact h₂
      | _ => trivial

/-- What is above a rendered file, below the home, has no configuration file's name. -/
theorem Rendered.above (hv : MajorsValid input) {f : GeneratedFile} (h : Rendered input f) :
    ∃ u n, f.path = input.home.dir ++ u ++ [n] ∧ ∀ m ∈ u, ¬ ".conf".toList <:+ m := by
  have hnginx : ∀ m ∈ ["config".toList, "generated".toList, "nginx".toList],
      ¬ ".conf".toList <:+ m := by decide
  have hsites : ∀ m ∈ ["config".toList, "generated".toList, "nginx".toList, "sites".toList],
      ¬ ".conf".toList <:+ m := by decide
  cases h with
  | main h =>
      refine ⟨_, "nginx.conf".toList, ?_, hnginx⟩
      simp [generateMainConfig_ok h, Home.mainConf, Home.generated]
  | default _ h =>
      refine ⟨_, "00-default_server.conf".toList, ?_, hsites⟩
      simp [generateDefaultSiteConfig_ok h, Home.siteConf, Home.generated]
  | @site site _ h =>
      refine ⟨_, site.domain.asStr ++ ".conf".toList, ?_, hsites⟩
      simp [renderSite_path h, Home.siteConf, Home.generated]
  | @pool rt mem h =>
      refine ⟨["config".toList, "generated".toList, "php".toList, rt.major],
        "php-fpm.conf".toList, ?_, ?_⟩
      · simp [renderPool_path (hv.oneName mem) h, Home.poolConf, Home.generated]
      · have hphp : ∀ m ∈ ["config".toList, "generated".toList, "php".toList],
            ¬ ".conf".toList <:+ m := by decide
        intro m hm
        simp only [List.mem_cons, List.not_mem_nil, or_false] at hm hphp
        rcases hm with h | h | h | rfl
        · exact hphp m (.inl h)
        · exact hphp m (.inr (.inl h))
        · exact hphp m (.inr (.inr h))
        · -- a version has digits and dots only
          rintro ⟨s, hs⟩
          have hc : 'c' ∈ rt.major := by
            rw [← hs]
            simp
          rcases (PhpVersion.mk rt.major (hv rt mem)).digit_or_dot 'c' hc with h | h
          · exact absurd h (by decide)
          · exact absurd h (by decide)

/-- **Planning converges exactly where no link sits above a rendered file.** The
home is given by its real path. -/
theorem converged_iff {suffixes : Nat → Name} (hdistinct : DistinctDomains input)
    (hhome : d.tree.Straight input.home.dir) (hfaults : d.faults = [])
    (hplan : plan input d = .ok p d₁) (htree : d₂.tree = d.tree)
    (hcommit : commit suffixes p d₂ = .ok () d₃) :
    Converged input d.tree d₃.tree p ↔ NoLinks input d.tree := by
  have hv := majorsValid_of_plan hplan
  constructor
  · intro h f hf l hl target hlink
    obtain ⟨u, n, hpath, hnames⟩ := hf.above hv
    rw [hpath, List.dropLast_concat] at hl
    have hbelow : l <+: f.path := by
      rw [hpath]
      exact hl.trans (List.prefix_append _ _)
    have hne : l ≠ f.path := by
      rintro rfl
      have := hl.length_le
      rw [hpath] at this
      simp only [List.length_append, List.length_singleton] at this
      omega
    have hname : ∀ m, l.getLast? = some m → ¬ ".conf".toList <:+ m := by
      intro m hm
      rcases List.prefix_or_prefix_of_prefix hl (List.prefix_append input.home.dir u) with hh | hh
      · exact absurd hlink (hhome l hh target)
      · obtain ⟨v, rfl⟩ := hh
        rw [List.prefix_append_right_inj] at hl
        cases hv : v.getLast? with
        | none =>
            rw [List.getLast?_eq_none_iff] at hv
            subst hv
            rw [List.append_nil] at hlink
            exact absurd hlink (hhome _ (List.prefix_refl _) target)
        | some m' =>
            rw [List.getLast?_append, hv, Option.some_or, Option.some.injEq] at hm
            exact hnames m (hl.subset (List.mem_of_getLast? (hm ▸ hv)))
    -- the link is still there, so nothing sits below it
    rw [← htree] at hlink
    have hkept := wp_ok (wp_commit_link (confNamed_of_plan hplan) suffixes hlink hname) hcommit
    obtain ⟨mode, hfile⟩ := h.held f hf
    have hdir := Tree.isDir_of_above hbelow hne (Tree.has_of_node hfile)
    rw [Tree.isDir, hkept] at hdir
    cases hdir
  · intro hlinks
    obtain ⟨hk, hp⟩ := planOf_of_plan hlinks hplan
    have hr := ready_of_planOf hv hlinks hp
    have hr₂ : Ready input p d₂.tree d₂.tree := by rwa [htree]
    obtain ⟨t₁, hm, hc⟩ := wp_ok (wp_commit_mild hr₂ suffixes) hcommit
    rw [htree] at hm
    have hset := settled_of_committed hfaults hv hdistinct hp hm hc
    refine ⟨hset.owned, hset.held, fun d' hd' => ?_, fun c hcm => ?_⟩
    · rw [← hd'] at hset
      exact hset.replan hv
    · exact ⟨(hp.planned c hcm).owned hv, hr.straight c hcm, (hp.planned c hcm).holds⟩

end Converge

/-! ### Runs -/

section Sample

attribute [local instance] verbatimTera hyphenatedUuid

/-- Plan with the given faults and commit; what holds of the plan and the tree it leaves. -/
def sampleLeaves (input : ApplyInput) (nodes : List (Path × Node)) (faults : List (Option Fault))
    (ok : ApplyPlan → Tree → Bool) : Bool :=
  match plan input ⟨Tree.ofNodes nodes, faults, []⟩ with
  | .ok p _ =>
      match commit sampleSuffixes p ⟨Tree.ofNodes nodes, [], []⟩ with
      | .ok () d => ok p d.tree
      | .error .. => false
  | .error .. => false

theorem exists_of_sampleLeaves {input : ApplyInput} {nodes : List (Path × Node)}
    {faults : List (Option Fault)} {ok : ApplyPlan → Tree → Bool}
    (h : sampleLeaves input nodes faults ok = true) :
    ∃ p d₁ d₃, plan input ⟨Tree.ofNodes nodes, faults, []⟩ = .ok p d₁ ∧
      commit sampleSuffixes p ⟨Tree.ofNodes nodes, [], []⟩ = .ok () d₃ ∧ ok p d₃.tree = true := by
  unfold sampleLeaves at h
  cases hp : plan input ⟨Tree.ofNodes nodes, faults, []⟩ with
  | error e d₁ => simp [hp] at h
  | ok p d₁ =>
      simp only [hp] at h
      cases hc : commit sampleSuffixes p ⟨Tree.ofNodes nodes, [], []⟩ with
      | error e d₃ => simp [hc] at h
      | ok u d₃ => exact ⟨p, d₁, d₃, rfl, hc, by simpa [hc] using h⟩

/-- A home with a pool of PHP 8.3, which is gone, and a site's file of an earlier apply. -/
def appliedHome : List (Path × Node) :=
  let dir (names : List String) : Path × Node := ("h".toList :: names.map String.toList, .dir none)
  [dir [], dir ["config"], dir ["config", "generated"], dir ["config", "generated", "php"],
    dir ["config", "generated", "php", "8.3"], dir ["config", "generated", "nginx"],
    dir ["config", "generated", "nginx", "sites"],
    (sampleHome.poolConf "8.3".toList, .file (utf8 "old".toList) none),
    (sampleHome.siteConf "old.test".toList, .file (utf8 "old".toList) none)]

/-- An apply of a site converges; what it no longer owns is removed. -/
theorem converged_iff_applied :
    ∃ p d₁ d₃, plan (ingressInput [plainSite]) ⟨Tree.ofNodes appliedHome, [], []⟩ = .ok p d₁ ∧
      commit sampleSuffixes p ⟨Tree.ofNodes appliedHome, [], []⟩ = .ok () d₃ ∧
      (d₃.tree.has (sampleHome.poolConf "8.3".toList) = false ∧
        d₃.tree.has (sampleHome.siteConf "old.test".toList) = false) ∧
      Converged (ingressInput [plainSite]) (Tree.ofNodes appliedHome) d₃.tree p := by
  obtain ⟨p, d₁, d₃, hplan, hcommit, hgone⟩ := exists_of_sampleLeaves
    (show sampleLeaves (ingressInput [plainSite]) appliedHome [] (fun _ t =>
      !t.has (sampleHome.poolConf "8.3".toList) && !t.has (sampleHome.siteConf "old.test".toList)) =
        true by decide +kernel)
  have hlinkless : ∀ p, (Tree.ofNodes appliedHome).Straight p := fun p q _ target =>
    Tree.linkless_iff.mp (by decide) q target
  have hiff := @converged_iff _ _ (ingressInput [plainSite]) p ⟨Tree.ofNodes appliedHome, [], []⟩
    d₁ ⟨Tree.ofNodes appliedHome, [], []⟩ d₃ sampleSuffixes (List.pairwise_singleton _ _)
    (hlinkless _) rfl hplan rfl hcommit
  simp only [Bool.and_eq_true, Bool.not_eq_true'] at hgone
  exact ⟨p, d₁, d₃, hplan, hcommit, hgone, hiff.mpr fun f _ => hlinkless _⟩

/-- A home whose pool directory is a link to one of the user's own. -/
def customHome : List (Path × Node) :=
  let dir (names : List String) : Path × Node := ("h".toList :: names.map String.toList, .dir none)
  [dir [], dir ["config"], dir ["config", "custom"], dir ["config", "generated"],
    dir ["config", "generated", "php"],
    (sampleHome.generated ++ ["php".toList, "8.4".toList], .symlink "../../custom".toList)]

/-- A home with a pool of a major that is no longer installed. -/
def staleHome : List (Path × Node) :=
  let dir (names : List String) : Path × Node := ("h".toList :: names.map String.toList, .dir none)
  [dir [], dir ["config"], dir ["config", "generated"], dir ["config", "generated", "php"],
    dir ["config", "generated", "php", "8.4"],
    (sampleHome.poolConf "8.4".toList, .file (utf8 "old".toList) none)]

/-- **Two commits that do not converge**: where `php/8.4` is a link to a custom
directory, the pool is written there; and where the look at a stale pool fails,
the pool stays. -/
theorem commit_does_not_converge :
    (∃ p d₁ d₃, plan (sampleInput ["8.4"]) ⟨Tree.ofNodes customHome, [], []⟩ = .ok p d₁ ∧
      commit sampleSuffixes p ⟨Tree.ofNodes customHome, [], []⟩ = .ok () d₃ ∧
      (d₃.tree.node (sampleHome.dir ++ ["config".toList, "custom".toList, "php-fpm.conf".toList])).any
        Node.isFile = true ∧
      ¬ Converged (sampleInput ["8.4"]) (Tree.ofNodes customHome) d₃.tree p) ∧
    ∃ p d₁ d₃, plan (sampleInput [])
        ⟨Tree.ofNodes staleHome, [none, none, none, none, none, none, some ⟨5, 0⟩], []⟩ = .ok p d₁ ∧
      commit sampleSuffixes p ⟨Tree.ofNodes staleHome, [], []⟩ = .ok () d₃ ∧
      ¬ Converged (sampleInput []) (Tree.ofNodes staleHome) d₃.tree p := by
  constructor
  · obtain ⟨p, d₁, d₃, hplan, hcommit, hleft⟩ := exists_of_sampleLeaves
      (show sampleLeaves (sampleInput ["8.4"]) customHome [] (fun p t =>
        (t.node (sampleHome.dir ++ ["config".toList, "custom".toList, "php-fpm.conf".toList])).any
            Node.isFile &&
          p.changes.any fun c => c.path == sampleHome.poolConf "8.4".toList) = true
        by decide +kernel)
    simp only [Bool.and_eq_true, List.any_eq_true, beq_iff_eq] at hleft
    obtain ⟨hfile, c, hc, hpath⟩ := hleft
    refine ⟨p, d₁, d₃, hplan, hcommit, hfile, fun h => ?_⟩
    obtain ⟨-, hs, -⟩ := h.confined c hc
    rw [hpath] at hs
    exact hs (sampleHome.generated ++ ["php".toList, "8.4".toList])
      (by simp [Home.poolConf]) "../../custom".toList (by decide +kernel)
  · obtain ⟨p, d₁, d₃, hplan, hcommit, hleft⟩ := exists_of_sampleLeaves
      (show sampleLeaves (sampleInput []) staleHome [none, none, none, none, none, none, some ⟨5, 0⟩]
        (fun _ t => decide (Holds t (sampleHome.poolConf "8.4".toList) (some "old".toList))) = true
        by decide +kernel)
    refine ⟨p, d₁, d₃, hplan, hcommit, fun h => ?_⟩
    obtain ⟨mode, hfile⟩ := of_decide_eq_true hleft
    obtain ⟨f, hf, hpath⟩ := h.owned (sampleHome.poolConf "8.4".toList)
      ⟨.pool (by decide), mainConf_ne_poolConf.symm, _, mode, hfile⟩
    cases hf with
    | main hf => exact mainConf_ne_poolConf ((generateMainConfig_ok hf).symm.trans hpath)
    | default _ hf =>
        exact siteConf_ne_poolConf ((generateDefaultSiteConfig_ok hf).symm.trans hpath)
    | site mem _ => cases mem
    | pool mem _ => cases mem

end Sample

end OpenVHost.Site
