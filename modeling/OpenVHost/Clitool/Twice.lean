/-
# Installing the tool a second time

* `wp_placeFrom_passed` — why the candidates before the chosen one were passed over.
* `wp_placeFrom_current` — where the link of a directory is current, a call without failures
  only says so.
* `current_of_settled`, `current_of_found` — the link is current after a call that reports the
  tool installed.
* `place_settles` — what a call changes, and that a second one changes nothing.
-/

import OpenVHost.Clitool.Place

namespace OpenVHost.Clitool

open FileTree FileTree.Io FileTree.Tree

variable {m : Machine} {uuid : List Char} {source : Source} {dir r : Path}

/-! ### The directory that was chosen -/

section Chosen

/-- A report of an installation is about this directory. -/
def About (dir : Path) (report : Report) : Prop := ∀ dir', report.installedIn = some dir' → dir' = dir

theorem about_error (e : CliToolError) (left : Option Path) : About dir ⟨.error e, left⟩ :=
  fun _ h => by cases h

theorem drop_about {staged : StagingLink} {result : Except CliToolError Placed}
    (h : ∀ left, About dir ⟨result, left⟩) :
    Gives (staged.drop >>= fun left => pure ⟨result, left⟩) (About dir) :=
  .bind (.any _) fun left _ => .pure (h left)

theorem finish_about {staged : StagingLink} {link : Path} {placed : Placed}
    (h : ∀ left, About dir ⟨.ok placed, left⟩) : Gives (finish staged link placed) (About dir) := by
  refine .bind (.any _) fun renamed _ => ?_
  obtain ⟨result, left⟩ := renamed
  cases result with
  | ok u => exact .pure (h left)
  | error e => exact .pure (about_error e left)

theorem install_about (staged : StagingLink) : Gives (install m dir source staged) (About dir) := by
  refine .bind (.any _) fun occupant _ => ?_
  cases occupant with
  | error e => exact drop_about fun left => about_error e left
  | ok occupant =>
      cases occupant with
      | absent => exact finish_about fun _ _ h => (Option.some.inj h).symm
      | oursStale target resolves => exact finish_about fun _ _ h => (Option.some.inj h).symm
      | oursCurrent => exact drop_about fun _ _ h => (Option.some.inj h).symm
      | foreign what => exact drop_about fun _ _ h => by cases h

end Chosen

/-- Why a candidate that is not created is passed over. -/
def Passed (m : Machine) (t : Tree) (c : Candidate) : Prop :=
  m.follow c.dir ≠ none ∨ t.namesDir c.dir = false ∨
    ∃ code, m.write c.dir = some code ∧ isPermissionDenied (.other code) = true

/-- The candidates before the one a report is about were passed over. -/
def PassedBefore (m : Machine) (t : Tree) (candidates : List Candidate) (report : Report) : Prop :=
  ∀ dir, report.installedIn = some dir → ∃ before c after, candidates = before ++ c :: after ∧
    c.dir = dir ∧ ((∀ b ∈ before, b.createIfAbsent = false) → ∀ b ∈ before, Passed m t b)

theorem PassedBefore.cons {t t' : Tree} {c : Candidate} {rest : List Candidate} {report : Report}
    (hc : c.createIfAbsent = false → t' = t ∧ Passed m t c)
    (h : PassedBefore m t' rest report) : PassedBefore m t (c :: rest) report := by
  intro dir hin
  obtain ⟨before, b, after, rfl, hb, hpassed⟩ := h dir hin
  refine ⟨c :: before, b, after, rfl, hb, fun hall => ?_⟩
  obtain ⟨hfirst, hall⟩ := List.forall_mem_cons.mp hall
  obtain ⟨rfl, hc⟩ := hc hfirst
  exact List.forall_mem_cons.mpr ⟨hc, hpassed hall⟩

theorem symlink_denied {t : Tree} {e : Errno}
    (h : t.symlink source.text (dir ++ [StagingLink.name uuid]) = .error e) :
    isPermissionDenied e = false := by
  cases e with
  | other code => exact absurd h (symlink_ne_other (special_stagingName uuid))
  | _ => rfl

/-- **Why the candidates before the chosen one were passed over**, where nothing fails. -/
theorem wp_placeFrom_passed {E : Empty → Disk → Prop} : ∀ (candidates : List Candidate)
    {tried : List Path} {d : Disk}, d.faults = [] →
    wp (placeFrom m uuid source tried candidates)
      (fun report _ => PassedBefore m d.tree candidates report) E d
  | [], tried, d, _ => fun dir hin => by cases hin
  | c :: rest, tried, d, hquiet => by
      rw [placeFrom, wp_bind]
      refine wp_mono wp_prepare (fun ready d₁ hready => ?_) fun _ _ h => h
      have hrest : ∀ {d₂ : Disk}, Kept d₁ d₂ → (c.createIfAbsent = false → Passed m d.tree c) →
          wp (placeFrom m uuid source (tried ++ [c.dir]) rest)
            (fun report _ => PassedBefore m d.tree (c :: rest) report) E d₂ := by
        intro d₂ hk hpassed
        have hquiet₂ := hk.faults (hready.quiet hquiet)
        refine wp_mono (wp_placeFrom_passed rest hquiet₂) (fun report d₃ h => ?_) fun _ _ h => h
        exact h.cons fun hc => ⟨hk.tree.trans (hready.looked hc).tree, hpassed hc⟩
      cases ready with
      | false =>
          refine hrest (Kept.refl d₁) fun hc => ?_
          rcases hready.passed hc rfl hquiet with hfollow | hnames
          · exact .inl hfollow
          · exact .inr (.inl hnames)
      | true =>
          rw [if_pos rfl, wp_bind, wp_attempt]
          refine wp_mono wp_create (fun staged d₂ _ => ?_) fun e d₂ h => ?_
          · refine wp_mono (wp_of_gives (install_about staged)) (fun report d₃ h => ?_) fun _ _ h => h
            intro dir hin
            exact ⟨[], c, rest, rfl, (h dir hin).symm, fun _ => by simp⟩
          · dsimp only
            split
            next hdenied =>
              refine hrest h.1 fun _ => ?_
              rcases h.2 with ⟨code, hcode, rfl⟩ | ⟨-, hraised⟩
              · exact .inr (.inr ⟨code, hcode, hdenied⟩)
              · rw [symlink_denied (hraised.own (.inl (hready.quiet hquiet)))] at hdenied
                cases hdenied
            next => exact fun dir hin => by cases hin

/-! ### A link that is current -/

section Current

variable {d : Disk} {E : Empty → Disk → Prop}

/-- The link in a directory leads to the binary, and the process may see that. -/
def Current (m : Machine) (source : Source) (dir : Path) (t : Tree) : Prop :=
  Granted m dir ∧ ∃ r target, t.resolve dir = .ok r ∧ t.isDir r = true ∧
    t.node (r ++ [cliBinaryName]) = some (.symlink target) ∧
    SameFile m t (dir ++ [cliBinaryName]) target source

theorem SameFile.of_grows {t t' : Tree} {link : Path} {target : List Char}
    (h : SameFile m t link target source) (hg : Grows t t') : SameFile m t' link target source := by
  obtain ⟨a, b, ha, hb, hab⟩ := h.same
  exact { h with same := ⟨a, b, hg.resolveFrom ha, hg.resolveFrom hb, hab⟩ }

theorem Current.of_same {t t' : Tree} (h : Current m source dir t) (hs : Same t t') :
    Current m source dir t' := by
  obtain ⟨hgranted, r, target, hr, hd, hx, hsame⟩ := h
  exact ⟨hgranted, r, target, hs.grows.resolveFrom hr, hs.grows.isDir hd, (hs _).trans hx,
    hsame.of_grows hs.grows⟩

theorem wp_sameFile_true {ε : Type} {E : ε → Disk → Prop} {link : Path} {target : List Char}
    (hquiet : d.faults = []) (h : SameFile m d.tree link target source) :
    wp (m.sameFile link target source) (fun b d' => b = true ∧ Kept d d') E d := by
  obtain ⟨a, b, ha, hb, hab⟩ := h.same
  have hway : (m.search link).or (m.follow (linked link target)) = none := by
    rw [h.search, h.followText]
    rfl
  rw [Machine.sameFile, wp_bind, wp_attempt, Machine.metadataOfLink, hway]
  refine wp_query (fun a' d₁ hk ha' => ?_) fun e d₁ hk he => ?_
  · obtain rfl : a = a' := Except.ok.inj (ha.symm.trans ha')
    rw [wp_bind, wp_attempt, Machine.metadata, h.follow]
    refine wp_query (fun b' d₂ hk₂ hb' => ?_) fun e d₂ hk₂ he => ?_
    · rw [hk.tree] at hb'
      obtain rfl : b = b' := Except.ok.inj (hb.symm.trans hb')
      exact ⟨by simpa using hab, hk.trans hk₂⟩
    · have hnone := he.own (.inl (hk.faults hquiet))
      rw [hk.tree, hb] at hnone
      cases hnone
  · rw [he.own (.inl hquiet)] at ha
    cases ha

theorem wp_classify_current {target : List Char} (hquiet : d.faults = [])
    (hr : d.tree.resolve dir = .ok r) (hd : d.tree.isDir r = true)
    (hx : d.tree.node (r ++ [cliBinaryName]) = some (.symlink target))
    (h : SameFile m d.tree (dir ++ [cliBinaryName]) target source) :
    wp (classify m (dir ++ [cliBinaryName]) (some source))
      (fun occupant d' => occupant = .oursCurrent ∧ Kept d d') (fun _ _ => False) d := by
  have hlocate : d.tree.locate (dir ++ [cliBinaryName]) = .ok (r ++ [cliBinaryName]) :=
    locate_entry special_cliBinaryName hr hd
  have hlstat : d.tree.lstat (dir ++ [cliBinaryName]) = .ok (.symlink target) :=
    lstat_entry special_cliBinaryName hr hd hx
  rw [classify, wp_bind, wp_attempt, h.search]
  refine wp_query (fun a d₁ hk ha => ?_) fun e d₁ hk he => ?_
  · obtain ⟨q, x⟩ := a
    rw [hlocate, hlstat] at ha
    simp only [Except.bind, Except.map, Except.ok.injEq, Prod.mk.injEq] at ha
    obtain ⟨-, rfl⟩ := ha
    have hquiet₁ := hk.faults hquiet
    dsimp only
    rw [wp_bind, wp_mapErr, permitted_none, Io.readLink]
    refine wp_query (fun text d₂ hk₂ ht => ?_) fun e d₂ hk₂ he => ?_
    · obtain rfl : target = text := by
        rw [hk.tree, Tree.readLink, hlstat] at ht
        exact Except.ok.inj ht
      have hk₂ := hk.trans hk₂
      rw [wp_bind]
      have hsame : SameFile m d₂.tree (dir ++ [cliBinaryName]) target source := hk₂.tree ▸ h
      refine wp_mono (wp_sameFile_true (hk₂.faults hquiet) hsame) (fun b d₃ hb => ?_)
        fun _ _ h => h
      obtain ⟨rfl, hk₃⟩ := hb
      exact ⟨rfl, hk₂.trans hk₃⟩
    · have hread := he.own (.inl hquiet₁)
      rw [hk.tree, Tree.readLink, hlstat] at hread
      cases hread
  · have hown := he.own (.inl hquiet)
    rw [hlocate, hlstat] at hown
    cases hown

theorem wp_install_current {mid : Tree} {target : List Char} (hquiet : d.faults = [])
    (h : Staged uuid source dir mid d.tree r)
    (hx : d.tree.node (r ++ [cliBinaryName]) = some (.symlink target))
    (hsame : SameFile m d.tree (dir ++ [cliBinaryName]) target source) :
    wp (install m dir source (some (dir ++ [StagingLink.name uuid])))
      (fun report d' => report = ⟨.ok (.unchanged dir), none⟩ ∧ Same mid d'.tree) E d := by
  rw [install, wp_bind, wp_attempt]
  refine wp_mono (wp_classify_current hquiet h.resolve h.isDir' hx hsame)
    (fun occupant d₁ hocc => ?_) fun _ _ h => h.elim
  obtain ⟨rfl, hk⟩ := hocc
  have h₁ : Staged uuid source dir mid d₁.tree r := hk.tree ▸ h
  dsimp only
  rw [wp_bind]
  refine wp_mono (wp_drop (E := E) h₁) (fun left d₂ hdrop => ?_) fun _ _ h => h
  rcases hdrop with ⟨rfl, hmid⟩ | ⟨-, -, hfaults⟩
  · exact ⟨rfl, hmid⟩
  · exact absurd (hk.faults hquiet) hfaults

theorem wp_prepare_current {c : Candidate} (hquiet : d.faults = []) (hfollow : m.follow c.dir = none)
    (hnames : d.tree.namesDir c.dir = true) :
    wp (prepare m c) (fun ready d' => ready = true ∧ Kept d d') E d := by
  rw [prepare, wp_bind]
  refine wp_machine_isDir fun b d₁ hk _ hfalse => ?_
  cases b with
  | true => exact ⟨rfl, hk⟩
  | false =>
      rcases hfalse rfl hquiet with hne | hne
      · exact absurd hfollow hne
      · rw [hnames] at hne
        cases hne

/-- A candidate that was passed over is passed over again. -/
theorem wp_placeFrom_skip {c : Candidate} {rest : List Candidate} {tried : List Path}
    {Q : Report → Disk → Prop} (hcreate : c.createIfAbsent = false)
    (hpassed : Passed m d.tree c)
    (hrest : ∀ d', Kept d d' → wp (placeFrom m uuid source (tried ++ [c.dir]) rest) Q E d') :
    wp (placeFrom m uuid source tried (c :: rest)) Q E d := by
  rw [placeFrom, wp_bind, prepare, wp_bind]
  refine wp_machine_isDir fun b d₁ hk htrue _ => ?_
  cases b with
  | false =>
      rw [if_neg (by simp), hcreate]
      exact hrest d₁ hk
  | true =>
      obtain ⟨hfollow, hnames⟩ := htrue rfl
      rcases hpassed with hne | hne | ⟨code, hcode, hdenied⟩
      · exact absurd hfollow hne
      · rw [hnames] at hne
        cases hne
      · simp only [if_pos, wp_pure]
        rw [wp_bind, wp_attempt, StagingLink.create, wp_bind, hcode]
        show wp (if isPermissionDenied (.other code) = true then _ else _) Q E d₁
        rw [if_pos hdenied]
        exact hrest d₁ hk

/-- **Where the link of a directory is current, a call without failures only says so.** -/
theorem wp_placeFrom_current {c : Candidate} {after : List Candidate} :
    ∀ (before : List Candidate) {tried : List Path} {d : Disk}, d.faults = [] →
      (∀ b ∈ before, b.createIfAbsent = false ∧ Passed m d.tree b) →
      Current m source c.dir d.tree →
      (∀ r, d.tree.node (r ++ [StagingLink.name uuid]) = none) →
      wp (placeFrom m uuid source tried (before ++ c :: after))
        (fun report d' => report = ⟨.ok (.unchanged c.dir), none⟩ ∧ Same d.tree d'.tree) E d
  | [], tried, d, hquiet, _, hcurrent, hnew => by
      obtain ⟨hgranted, r, target, hr, hd, hx, hsame⟩ := hcurrent
      rw [List.nil_append, placeFrom, wp_bind]
      have hnames : d.tree.namesDir c.dir = true := namesDir_iff.mpr ⟨r, hr, hd⟩
      refine wp_mono (wp_prepare_current hquiet hgranted.follow hnames) (fun ready d₁ hready => ?_)
        fun _ _ h => h
      obtain ⟨rfl, hk⟩ := hready
      have hquiet₁ := hk.faults hquiet
      rw [if_pos rfl, wp_bind, wp_attempt]
      refine wp_mono wp_create (fun staged d₂ h => ?_) fun e d₂ h => ?_
      · obtain ⟨rfl, -, hquiet₂, r', hstaged⟩ := h
        rw [hk.tree] at hstaged
        obtain rfl : r = r' := Except.ok.inj (hr.symm.trans hstaged.leads)
        exact wp_install_current (hquiet₂ hquiet₁) hstaged (hstaged.cli.trans hx)
          (hsame.of_grows hstaged.grows)
      · -- the staging link can be created
        exfalso
        rcases h.2 with ⟨code, hcode, -⟩ | ⟨-, hraised⟩
        · rw [hgranted.write] at hcode
          cases hcode
        · have htext : source.text ≠ [] := by
            intro hnil
            have habs := source.absolute
            simp [hnil, isAbsolute] at habs
          obtain ⟨t, ht⟩ := symlink_entry (special_stagingName uuid) htext hr hd (hnew r)
          rw [← hk.tree, hraised.own (.inl hquiet₁)] at ht
          cases ht
  | b :: before, tried, d, hquiet, hpassed, hcurrent, hnew => by
      obtain ⟨hb, hpassed⟩ := List.forall_mem_cons.mp hpassed
      rw [List.cons_append]
      refine wp_placeFrom_skip hb.1 hb.2 fun d₁ hk => ?_
      rw [← hk.tree] at hpassed hcurrent hnew ⊢
      exact wp_placeFrom_current before (hk.faults hquiet) hpassed hcurrent hnew

end Current

/-! ### After a call that reports the tool installed -/

section After

variable {candidates : List Candidate} {t mid t' : Tree}

/-- Neither a link's text nor a path of the call mentions the staging name. -/
structure Fresh (uuid : List Char) (candidates : List Candidate) (source : Source) (t : Tree) :
    Prop where
  text : Unmentioned (StagingLink.name uuid) t
  source : StagingLink.name uuid ∉ source.path
  dirs : ∀ c ∈ candidates, StagingLink.name uuid ∉ c.dir

/-- The directory and the binary are found without the link that is replaced, through fewer
links in all than one resolution may pass. -/
def LeadsApart (m : Machine) (source : Source) (dir : Path) (mid : Tree) : Prop :=
  m.follow source.path = none ∧ ∃ r a b s, a + b < maxLinks ∧
    (mid.erase (r ++ [cliBinaryName])).resolveFrom false a [] dir = .ok r ∧
    (mid.erase (r ++ [cliBinaryName])).resolveFrom false b [] source.path = .ok s

theorem Prepared.unmentioned {n : Name} (h : Prepared candidates t mid) (ht : Unmentioned n t) :
    Unmentioned n mid := by
  intro q target hq
  rcases h q with heq | ⟨-, hdir, -⟩
  · exact ht q target (heq ▸ hq)
  · rw [Tree.isDir, hq] at hdir
    cases hdir

/-- A link that was found current is current without the staging link. -/
theorem current_of_found (h : FoundCurrent m uuid source mid dir) (hgranted : Granted m dir)
    (htext : Unmentioned (StagingLink.name uuid) mid) (hsource : StagingLink.name uuid ∉ source.path)
    (hdir : StagingLink.name uuid ∉ dir) : Current m source dir mid := by
  obtain ⟨r, t, target, hstaged, hx, hsame⟩ := h
  obtain ⟨a, b, ha, hb, hab⟩ := hsame.same
  have hlink : StagingLink.name uuid ∉ dir ++ [cliBinaryName] := by
    rw [List.mem_append, List.mem_singleton, not_or]
    exact ⟨hdir, stagingName_ne uuid⟩
  rw [hstaged.sets.resolve_unnamed htext hlink] at ha
  rw [hstaged.sets.resolve_unnamed htext hsource] at hb
  exact ⟨hgranted, r, target, hstaged.leads, hstaged.isDir, hstaged.cli ▸ hx,
    { hsame with same := ⟨a, b, ha, hb, hab⟩ }⟩

/-- **A link that was set is current.** -/
theorem current_of_set (hgranted : Granted m dir) (hr : mid.resolve dir = .ok r)
    (hfile : mid.isDir (r ++ [cliBinaryName]) = false)
    (hset : Sets (r ++ [cliBinaryName]) (.symlink source.text) mid t')
    (hapart : LeadsApart m source dir mid) : Current m source dir t' := by
  obtain ⟨hfollow, r', a, b, s, hlinks, hdir, hsource⟩ := hapart
  have hdir' := resolveFrom_mono (by omega : a ≤ maxLinks) hdir
  obtain rfl : r' = r := Except.ok.inj (((erase_grows _).resolveFrom hdir').symm.trans hr)
  have hgrows := hset.grows_of_erase (by simp) hfile
  have hdir₁ := hgrows.resolveFrom hdir
  have hsource₁ := hgrows.resolveFrom hsource
  have hx : t'.node (r' ++ [cliBinaryName]) = some (.symlink source.text) := hset.at
  have hisDir : t'.isDir r' = true := isDir_of_child (has_of_node hx)
  have hstart : linkStart r' source.text = [] := if_pos source.absolute
  have hlink : t'.resolveFrom false (b + 1) r' [cliBinaryName] = .ok s := by
    apply resolveFrom_link special_cliBinaryName hx
    rw [hstart]
    exact hsource₁
  have hthrough := resolveFrom_through hisDir hlink a [] dir hdir₁
  refine ⟨hgranted, r', source.text, resolveFrom_mono (by omega) hdir₁, hisDir, hx, ?_⟩
  exact
    { search := hgranted.search
      followText := by rw [linked_source]; exact hfollow
      follow := hfollow
      same := ⟨s, s, resolveFrom_mono (by omega) hthrough, resolveFrom_mono (by omega) hsource₁, rfl⟩ }

/-- **What a call spares**: every node but a link of ours at the tool's place. -/
theorem Settled.spares {report : Report} (h : Settled uuid source mid t' report) {q : Path}
    {x : Node} (hx : mid.node q = some x)
    (hforeign : ∀ target, x = .symlink target → looksLikeOurs target = false) :
    t'.node q = some x := by
  have hkeep : ∀ {l : Path} {y : Node}, Sets l y mid t' → mid.node l = none →
      t'.node q = some x := by
    intro l y hset hfree
    rw [hset.other, hx]
    rintro rfl
    rw [hfree] at hx
    cases hx
  cases h with
  | created hr hfree hset => exact hkeep hset hfree
  | repointed hr hlink hours hset =>
      rw [hset.other, hx]
      rintro rfl
      rw [hlink] at hx
      rw [hforeign _ (Option.some.inj hx).symm] at hours
      cases hours
  | untouched hresult hsame => exact (hsame q).trans hx
  | residue hresult hr hfree hset => exact hkeep hset hfree

/-- What a second call needs to find the tool where the first has installed it: it takes the
first candidate that is ready by then, and only says so where the link there leads to the
binary. A candidate that was passed over must not have become ready through the directories
that the first call made; the ways to the directory and to the binary must not lead through
the link that was set, nor through a staging link, which is gone by then. -/
structure Repeatable (m : Machine) (uuid : List Char) (candidates : List Candidate)
    (source : Source) (d : Disk) (mid t' : Tree) (report : Report) (dir : Path) : Prop where
  quiet : d.faults = []
  /-- Only the last candidate may be created. -/
  last : ∀ c ∈ candidates.dropLast, c.createIfAbsent = false
  /-- The call has made none of the others a directory. -/
  passed : ∀ c ∈ candidates.dropLast, d.tree.namesDir c.dir = false → t'.namesDir c.dir = false
  fresh : Fresh uuid candidates source d.tree
  apart : report.result = .ok (.unchanged dir) ∨ LeadsApart m source dir mid

theorem current_of_installed {d d' : Disk} {report : Report}
    (hprepared : Prepared candidates d.tree mid)
    (h : Installed m uuid source mid d report d') (hin : report.installedIn = some dir)
    (hdir : StagingLink.name uuid ∉ dir)
    (hrep : Repeatable m uuid candidates source d mid d'.tree report dir) :
    Current m source dir d'.tree := by
  have hgranted := h.granted dir hin
  have hclean := h.clean hrep.quiet
  have hcurrent := h.current dir
  obtain ⟨hsettled, -, -, -⟩ := h
  cases hsettled with
  | created hr hfree hset =>
      cases hin
      refine current_of_set hgranted hr ?_ hset (hrep.apart.resolve_left fun h => by cases h)
      simp [Tree.isDir, hfree]
  | repointed hr hlink hours hset =>
      cases hin
      refine current_of_set hgranted hr ?_ hset (hrep.apart.resolve_left fun h => by cases h)
      simp [Tree.isDir, hlink, Node.isDir]
  | untouched hresult hsame =>
      cases hresult with
      | error e => cases hin
      | refused dir what => cases hin
      | unchanged dir' =>
          cases hin
          exact (current_of_found (hcurrent rfl) hgranted (hprepared.unmentioned hrep.fresh.text)
            hrep.fresh.source hdir).of_same hsame
  | residue hresult hr hfree hset => cases hclean

end After

/-- **What an installation changes, and that a second one changes nothing**: for any permissions,
any candidates and whatever fails. -/
theorem place_settles (m : Machine) (uuid : List Char) (candidates : List Candidate)
    (source : Source) (d : Disk) :
    ∃ report mid d', place m uuid candidates source d = .ok report d' ∧
      Prepared candidates d.tree mid ∧ Settled uuid source mid d'.tree report ∧
      (∀ q x, d.tree.node q = some x →
        (∀ target, x = .symlink target → looksLikeOurs target = false) →
        d'.tree.node q = some x) ∧
      (d.faults = [] → report.left = none) ∧
      ∀ dir, report.installedIn = some dir →
        Repeatable m uuid candidates source d mid d'.tree report dir →
        ∀ uuid' e, e.tree = d'.tree → e.faults = [] →
          (∀ r, e.tree.node (r ++ [StagingLink.name uuid']) = none) →
          ∃ e', place m uuid' candidates source e = .ok ⟨.ok (.unchanged dir), none⟩ e' ∧
            Same e.tree e'.tree := by
  have hwp : wp (place m uuid candidates source) (Walked m uuid source candidates d)
      (fun _ _ => False) d := wp_placeFrom candidates
  cases hrun : place m uuid candidates source d with
  | error e d' => exact nomatch e
  | ok report d' =>
      obtain ⟨mid, hprepared, hinstalled⟩ := wp_ok hwp hrun
      refine ⟨report, mid, d', rfl, hprepared, hinstalled.settled, fun q x hx hforeign => ?_,
        hinstalled.clean, fun dir hin hrep uuid' e he hquiet hnew => ?_⟩
      · refine hinstalled.settled.spares ?_ hforeign
        rcases hprepared q with heq | ⟨hnone, -⟩
        · exact heq.trans hx
        · rw [hnone] at hx
          cases hx
      · have hpassed : wp (place m uuid candidates source)
            (fun report _ => PassedBefore m d.tree candidates report) (fun _ _ => False) d :=
          wp_placeFrom_passed candidates hrep.quiet
        obtain ⟨before, c, after, rfl, rfl, hbefore⟩ := wp_ok hpassed hrun dir hin
        have hmem : ∀ b ∈ before, b ∈ (before ++ c :: after).dropLast := by
          intro b hb
          rw [List.dropLast_append_of_ne_nil (List.cons_ne_nil c after)]
          exact List.mem_append_left _ hb
        have hlast : ∀ b ∈ before, b.createIfAbsent = false :=
          fun b hb => hrep.last b (hmem b hb)
        have hagain : ∀ b ∈ before, b.createIfAbsent = false ∧ Passed m e.tree b := by
          intro b hb
          refine ⟨hlast b hb, ?_⟩
          rcases hbefore hlast b hb with hfollow | hnames | hdenied
          · exact .inl hfollow
          · exact .inr (.inl (he ▸ hrep.passed b (hmem b hb) hnames))
          · exact .inr (.inr hdenied)
        have hcurrent := current_of_installed hprepared hinstalled hin
          (hrep.fresh.dirs c (by simp)) hrep
        rw [← he] at hcurrent
        have hsecond : wp (place m uuid' (before ++ c :: after) source)
            (fun report d' => report = ⟨.ok (.unchanged c.dir), none⟩ ∧ Same e.tree d'.tree)
            (fun _ _ => False) e :=
          wp_placeFrom_current before hquiet hagain hcurrent hnew
        cases hagain : place m uuid' (before ++ c :: after) source e with
        | error e d' => exact nomatch e
        | ok report₂ d₂ =>
            obtain ⟨rfl, hsame⟩ := wp_ok hsecond hagain
            exact ⟨d₂, rfl, hsame⟩

/-- The application's own candidates meet the condition on the last. -/
theorem last_of_candidatesFrom (home : Option Path) :
    ∀ c ∈ (candidatesFrom home).dropLast, c.createIfAbsent = false := by
  cases home with
  | none => simp [candidatesFrom]
  | some home => simp [candidatesFrom]

/-! ### Where more is left, or a second call goes elsewhere -/

/-- A machine that denies nothing. -/
def open' : Machine where
  search _ := none
  follow _ := none
  write _ := none
  inode q := (0, q.flatten.foldl (fun n c => 128 * n + c.toNat) 0)
  kind _ := .file

def app : Source := ⟨"/A.app/Contents/MacOS/openvhost".toList, by decide⟩

def home : Path := ["h".toList]

def homeBin : Path := home ++ [".local".toList, "bin".toList]

/-- The application's bundle and a home directory, and what else is given. -/
def disk (others : List (Path × Node)) (faults : List (Option Fault)) : Disk where
  tree := .ofNodes ([(["A.app".toList], .dir none), (["A.app".toList, "Contents".toList], .dir none),
    (["A.app".toList, "Contents".toList, "MacOS".toList], .dir none),
    (["A.app".toList, "Contents".toList, "MacOS".toList, cliBinaryName], .file [] none),
    (home, .dir none)] ++ others)
  faults := faults
  writes := []

/-- The report of a call and the disk after it. -/
def outcome (x : Io Empty Report) (d : Disk) : Report × Disk :=
  match x d with
  | .ok report d' => (report, d')
  | .error e _ => nomatch e

def Report.failed (report : Report) : Bool :=
  match report.result with
  | .ok _ => false
  | .error _ => true

/-- Two calls, the second on what the first has left. -/
def callTwice (m : Machine) (source : Source) (candidates : List Candidate) (d : Disk) :
    (Report × Disk) × (Report × Disk) :=
  let x := outcome (place m "1".toList candidates source) d
  (x, outcome (place m "2".toList candidates source) x.2)

/-- The rename fails, and so does the removal of the staging link. -/
def renameFails : Report × Disk :=
  (callTwice open' app [⟨home, false⟩]
    (disk [] [none, none, none, some ⟨5, 0⟩, some ⟨5, 0⟩])).1

/-- The directory is made, but no link can be created in it. -/
def linkFails : Report × Disk :=
  (callTwice open' app [⟨homeBin, true⟩] (disk [] [none, none, none, none, some ⟨5, 0⟩])).1

/-- The system directory is a link to the one that the first call makes. -/
def linkedDirs : (Report × Disk) × (Report × Disk) :=
  callTwice open' app (candidatesFrom (some home)) (disk [(["usr".toList], .dir none),
    (["usr".toList, "local".toList], .dir none),
    (systemLocalBin, .symlink "/h/.local/bin".toList)] [])

/-- The first call cannot look at the system directory. -/
def probeFails : (Report × Disk) × (Report × Disk) :=
  callTwice open' app (candidatesFrom (some home)) (disk [(["usr".toList], .dir none),
    (["usr".toList, "local".toList], .dir none), (systemLocalBin, .dir none)] [some ⟨5, 0⟩])

/-- A candidate that may be created, and can be once the next one is there. -/
def creatableFirst : (Report × Disk) × (Report × Disk) :=
  callTwice open' app [⟨home ++ [['l'], ['b']], true⟩, ⟨homeBin, true⟩]
    (disk [(home ++ [['l']], .symlink "/h/.local".toList)] [])

/-- The link leads to the first call's staging link. -/
def throughStaging : (Report × Disk) × (Report × Disk) :=
  callTwice open' app [⟨home, false⟩] (disk [(home ++ [cliBinaryName],
    .symlink ("/h/".toList ++ StagingLink.name "1".toList))] [])

/-- The binary may not be examined. -/
def deniedSource : (Report × Disk) × (Report × Disk) :=
  callTwice { open' with follow := fun p => if p == app.path then some 13 else none } app
    [⟨home, false⟩] (disk [] [])

/-- There is no binary. -/
def absentSource : (Report × Disk) × (Report × Disk) :=
  callTwice open' ⟨"/B.app/Contents/MacOS/openvhost".toList, by decide⟩ [⟨home, false⟩] (disk [] [])

/-- The path to the binary leads through the link that is replaced. -/
def throughReplaced : (Report × Disk) × (Report × Disk) :=
  callTwice open' ⟨"/h/openvhost/x".toList, by decide⟩ [⟨home, false⟩]
    (disk [(["target".toList], .dir none), (["target".toList, "debug".toList], .dir none),
      (["target".toList, "debug".toList, cliBinaryName], .dir none),
      (["target".toList, "debug".toList, cliBinaryName, ['x']], .file [] none),
      (home ++ [cliBinaryName], .symlink "/target/debug/openvhost".toList)] [])

/-- Links on the way to `last`, one to the next: `n` and one more, the first named `stem` with `n`
zeros. -/
def wayOfLinks (stem last : List Char) : Nat → List (Path × Node)
  | 0 => [([stem], .symlink last)]
  | n + 1 => ([stem ++ List.replicate (n + 1) '0'],
      .symlink ('/' :: (stem ++ List.replicate n '0'))) :: wayOfLinks stem last n

/-- The directory and the binary are each behind twenty-five links. -/
def longWays : (Report × Disk) × (Report × Disk) :=
  callTwice open'
    ⟨"/s".toList ++ List.replicate 24 '0' ++ "/Contents/MacOS/openvhost".toList, by decide⟩
    [⟨['d' :: List.replicate 24 '0'], false⟩]
    (disk (wayOfLinks ['s'] "/A.app".toList 24 ++ wayOfLinks ['d'] "/h".toList 24) [])

/-- Where the two calls say that the tool is. -/
def installedIn (x : (Report × Disk) × (Report × Disk)) : Option Path × Option Path :=
  (x.1.1.installedIn, x.2.1.installedIn)

/-- A staging link stays, a directory above the candidate is made by a call that fails, and a
second call is about another directory than the first, refuses the first call's link or replaces
it: each condition on the second call is needed. -/
theorem callTwice_differs :
    (renameFails.1.failed = true ∧
      (renameFails.2.tree.node (home ++ [StagingLink.name "1".toList])).isSome = true) ∧
    (linkFails.1.failed = true ∧ (disk [] []).tree.node (home ++ [".local".toList]) = none ∧
      linkFails.2.tree.isDir (home ++ [".local".toList]) = true) ∧
    (installedIn linkedDirs = (some homeBin, some systemLocalBin) ∧
      installedIn probeFails = (some homeBin, some systemLocalBin) ∧
      installedIn creatableFirst = (some homeBin, some (home ++ [['l'], ['b']]))) ∧
    (installedIn throughStaging = (some home, none) ∧
      installedIn throughReplaced = (some home, none) ∧
      installedIn longWays = (some ['d' :: List.replicate 24 '0'], none)) ∧
    (deniedSource.1.1 = ⟨.ok (.created home), none⟩ ∧
      deniedSource.2.1 = ⟨.ok (.repointed home), none⟩) ∧
    (absentSource.1.1 = ⟨.ok (.created home), none⟩ ∧
      absentSource.2.1 = ⟨.ok (.repointed home), none⟩) := by
  refine ⟨?_, ?_, ?_, ?_, ?_, ?_⟩ <;> decide +kernel

section FirstInstallation

variable {report : Report} {mid : Tree} {d' : Disk}

theorem first_eq
    (hrun : place open' "1".toList (candidatesFrom (some home)) app (disk [] []) = .ok report d') :
    (callTwice open' app (candidatesFrom (some home)) (disk [] [])).1 = (report, d') := by
  rw [callTwice, outcome, hrun]

/-- **A first installation into a home directory** can be repeated. -/
theorem repeatable_home
    (hrun : place open' "1".toList (candidatesFrom (some home)) app (disk [] []) = .ok report d')
    (hsettled : Settled "1".toList app mid d'.tree report) :
    report = ⟨.ok (.created homeBin), none⟩ ∧
      Repeatable open' "1".toList (candidatesFrom (some home)) app (disk [] []) mid d'.tree report
        homeBin := by
  have hreport : (callTwice open' app (candidatesFrom (some home)) (disk [] [])).1.1 =
      ⟨.ok (.created homeBin), none⟩ := by decide +kernel
  have htree : (callTwice open' app (candidatesFrom (some home)) (disk [] [])).1.2 = d' := by
    rw [first_eq hrun]
  rw [first_eq hrun] at hreport
  obtain rfl : report = ⟨.ok (.created homeBin), none⟩ := hreport
  have hapart : LeadsApart open' app homeBin mid := by
    cases hsettled with
    | untouched hresult => cases hresult
    | @created _ r hr hfree hset =>
        have hleads : d'.tree.resolve homeBin = .ok homeBin := by
          rw [← htree]
          decide +kernel
        obtain rfl : r = homeBin :=
          Except.ok.inj (((hset.grows hfree).resolveFrom hr).symm.trans hleads)
        have hgrows := hset.erase_grows (by simp) rfl
        have hdir : (d'.tree.erase (homeBin ++ [cliBinaryName])).resolveFrom false 0 [] homeBin =
            .ok homeBin := by
          rw [← htree]
          decide +kernel
        have hsource : (d'.tree.erase (homeBin ++ [cliBinaryName])).resolveFrom false 0 []
            app.path = .ok (["A.app".toList, "Contents".toList, "MacOS".toList, cliBinaryName]) := by
          rw [← htree]
          decide +kernel
        exact ⟨rfl, homeBin, 0, 0, _, by decide, hgrows.resolveFrom hdir,
          hgrows.resolveFrom hsource⟩
  refine ⟨rfl, rfl, last_of_candidatesFrom _, ?_, ⟨?_, ?_, ?_⟩, .inr hapart⟩
  · rw [← htree]
    decide +kernel
  · apply unmentioned_of_linkless
    decide +kernel
  · decide +kernel
  · decide +kernel

/-- The second staging name is new after the first installation. -/
theorem absent_home
    (hrun : place open' "1".toList (candidatesFrom (some home)) app (disk [] []) = .ok report d')
    (r : Path) : d'.tree.node (r ++ [StagingLink.name "2".toList]) = none := by
  have htree : (callTwice open' app (candidatesFrom (some home)) (disk [] [])).1.2 = d' := by
    rw [first_eq hrun]
  have hnew : ∀ q ∈ d'.tree.paths, q.getLast? ≠ some (StagingLink.name "2".toList) := by
    rw [← htree]
    decide +kernel
  exact absent_of_paths hnew r

end FirstInstallation

/-- A first installation into a home directory, and the second call after it. -/
theorem place_settles_home :
    ∃ e', place open' "2".toList (candidatesFrom (some home)) app
      { (callTwice open' app (candidatesFrom (some home)) (disk [] [])).1.2 with faults := [] } =
        .ok ⟨.ok (.unchanged homeBin), none⟩ e' := by
  obtain ⟨report, mid, d', hrun, -, hsettled, -, -, htwice⟩ :=
    place_settles open' "1".toList (candidatesFrom (some home)) app (disk [] [])
  obtain ⟨rfl, hrep⟩ := repeatable_home hrun hsettled
  have habsent := absent_home hrun
  obtain ⟨e', he', -⟩ := htwice homeBin rfl hrep "2".toList { d' with faults := [] } rfl rfl habsent
  rw [first_eq hrun]
  exact ⟨e', he'⟩

example : installedIn (callTwice open' app (candidatesFrom (some home)) (disk [] [])) =
    (some homeBin, some homeBin) := by
  decide +kernel

end OpenVHost.Clitool
