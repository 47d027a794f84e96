/-
# From an installation to a new terminal

What the menu finds of the tool, what an installation reports, and how the two and the profile of
the shell fit together.

* `wp_detectFrom_installed` — the strongest finding wins, the first of them.
* `placed_found` — what a call of `place` that says the tool is installed has left.
* `installed_on_path` — an installation, the advice it gives, and the one after it.
-/

import OpenVHost.Clitool.Shell

namespace OpenVHost.Clitool

open FileTree FileTree.Io FileTree.Tree Text

/-! ### What is found -/

inductive InstallState where
  | notInstalled
  | installed (dir : Path) (pathStatus : PathStatus)
  | broken (dir : Path) (reason : List Char)
  | blocked (dir : Path) (whatIsThere : List Char)
  deriving DecidableEq, Repr

/-- The strongest finding wins. -/
def rank : InstallState → Nat
  | .notInstalled => 0
  | .blocked .. => 1
  | .broken .. => 2
  | .installed .. => 3

section Detect

variable (m : Machine) (errorText : CliToolError → List Char) (source : Option Source)
  (shell : Option (List Char)) (home : Option Path)

/-- What is said of one candidate; nothing of one where nothing is. -/
def stateAt (dir : Path) : Except CliToolError Occupant → Option InstallState
  | .ok .absent => none
  | .ok .oursCurrent => some (.installed dir (unprobedStatus dir shell home))
  | .ok (.oursStale target resolves) =>
      if resolves then some (.installed dir (unprobedStatus dir shell home))
      else some (.broken dir
        ("it points at ".toList ++ target ++ ", which no longer exists".toList))
  | .ok (.foreign what) => some (.blocked dir what)
  | .error e => some (.blocked dir
      ("something that could not be inspected (".toList ++ errorText e ++ ")".toList))

/-- The loop over the candidates. -/
def detectFrom (best : InstallState) : List Candidate → Io Empty InstallState
  | [] => pure best
  | candidate :: rest => do
      let occupant ← attempt (classify m (candidate.dir ++ [cliBinaryName]) source)
      match stateAt errorText shell home candidate.dir occupant with
      | none => detectFrom best rest
      | some found => detectFrom (if rank best < rank found then found else best) rest

def detectIn (candidates : List Candidate) : Io Empty InstallState :=
  detectFrom m errorText source shell home .notInstalled candidates

end Detect

/-! ### What is reported -/

inductive InstallOutcome where
  | installed (dir : Path) (pathStatus : PathStatus)
  | alreadyInstalled (dir : Path) (pathStatus : PathStatus)
  | repaired (dir : Path) (pathStatus : PathStatus)
  | refused (dir : Path) (whatIsThere : List Char)
  deriving DecidableEq, Repr

/-- Where an outcome says the tool is installed, and what it tells of PATH. -/
def InstallOutcome.told : InstallOutcome → Option (Path × PathStatus)
  | .installed dir status | .alreadyInstalled dir status | .repaired dir status =>
      some (dir, status)
  | .refused .. => none

section Install

variable (m : Machine) (cwd : Path) (shell : Option (List Char)) (run : ShellRun)
  (home : Option Path)

/-- What is done with the result of `place`: the login shell is asked, except after a refusal.
Beside the outcome stands the staging link that could not be removed. -/
def tell (report : Report) : Io Empty (Except CliToolError InstallOutcome × Option Path) :=
  let asked (dir : Path) (outcome : PathStatus → InstallOutcome) :
      Io Empty (Except CliToolError InstallOutcome × Option Path) := do
    let status ← pathStatus m cwd dir (loginShellPath shell run) shell home
    pure (.ok (outcome status), report.left)
  match report.result with
  | .error e => pure (.error e, report.left)
  | .ok (.refused dir what) => pure (.ok (.refused dir what), report.left)
  | .ok (.created dir) => asked dir (.installed dir)
  | .ok (.unchanged dir) => asked dir (.alreadyInstalled dir)
  | .ok (.repointed dir) => asked dir (.repaired dir)

/-- Put the tool on the user's PATH, and report what happened. -/
def installTool (uuid : List Char) (candidates : List Candidate) (source : Source) :
    Io Empty (Except CliToolError InstallOutcome × Option Path) := do
  tell m cwd shell run home (← place m uuid candidates source)

end Install

/-! ### The strongest finding -/

section Strongest

variable {m : Machine} {errorText : CliToolError → List Char} {source : Source}
  {shell : Option (List Char)} {home : Option Path} {d : Disk} {E : Empty → Disk → Prop}

/-- The tool is said to be installed in a directory. -/
def InstallState.InstalledIn (shell : Option (List Char)) (home : Option Path) (dir : Path)
    (state : InstallState) : Prop :=
  state = .installed dir (unprobedStatus dir shell home)

theorem rank_le (state : InstallState) : rank state ≤ 3 := by
  cases state with
  | notInstalled => exact Nat.zero_le 3
  | blocked dir what => exact Nat.le_of_ble_eq_true rfl
  | broken dir reason => exact Nat.le_of_ble_eq_true rfl
  | installed dir status => exact Nat.le_refl 3

/-- What is said of a candidate ranks highest only where it is said to be installed there. -/
theorem installedIn_of_rank {dir : Path} {occupant : Except CliToolError Occupant}
    {found : InstallState} (h : stateAt errorText shell home dir occupant = some found)
    (hrank : 3 ≤ rank found) : found.InstalledIn shell home dir := by
  unfold stateAt at h
  split at h
  · cases h
  · exact (Option.some.inj h).symm
  · split at h
    · exact (Option.some.inj h).symm
    · obtain rfl := Option.some.inj h
      exact absurd hrank (by simp [rank])
  · obtain rfl := Option.some.inj h
    exact absurd hrank (by simp [rank])
  · obtain rfl := Option.some.inj h
    exact absurd hrank (by simp [rank])

/-- Classifying only looks. -/
theorem wp_classify_kept {link : Path} {source : Option Source} :
    wp (classify m link source) (fun _ d' => Kept d d') (fun _ d' => Kept d d') d := by
  rw [classify, wp_bind, wp_attempt]
  refine wp_permitted (fun _ => wp_query (fun a d₁ hk _ => ?_) fun e d₁ hk _ => ?_)
    fun code _ => Kept.refl d
  · obtain ⟨q, x⟩ := a
    cases x with
    | dir mode => exact hk
    | file content mode => exact hk
    | symlink text =>
        dsimp only
        rw [wp_bind, wp_mapErr]
        refine wp_permitted_query (fun target d₂ _ hk₂ _ => ?_) fun e d₂ hk₂ _ => hk.trans hk₂
        have hk₂ := hk.trans hk₂
        have hrest : ∀ (stale : Io CliToolError Occupant) (current : Bool) (d₃ : Disk),
            Kept d d₃ → wp stale (fun _ d' => Kept d d') (fun _ d' => Kept d d') d₃ →
            wp (if current then pure .oursCurrent
              else if looksLikeOurs target then stale
              else pure (.foreign ("a symlink to ".toList ++ target)))
              (fun _ d' => Kept d d') (fun _ d' => Kept d d') d₃ := by
          intro stale current d₃ hk₃ hstale
          split
          · exact hk₃
          · split
            · exact hstale
            · exact hk₃
        cases source with
        | none =>
            rw [wp_bind]
            refine hrest _ false d₂ hk₂ ?_
            rw [wp_bind, wp_attempt]
            exact wp_permitted_query (fun _ _ _ hk₃ _ => hk₂.trans hk₃)
              fun _ _ hk₃ _ => hk₂.trans hk₃
        | some source =>
            rw [wp_bind]
            refine wp_sameFile fun current d₃ hk₃ _ => hrest _ current d₃ (hk₂.trans hk₃) ?_
            rw [wp_bind, wp_attempt]
            exact wp_permitted_query (fun _ _ _ hk₄ _ => (hk₂.trans hk₃).trans hk₄)
              fun _ _ hk₄ _ => (hk₂.trans hk₃).trans hk₄
  · cases e with
    | notFound => exact hk
    | _ => exact hk

/-- One candidate of the loop: the best finding stays, or a stronger one takes its place. -/
theorem wp_detectFrom_cons {source : Option Source} {best : InstallState} {c : Candidate}
    {rest : List Candidate} {Q : InstallState → Disk → Prop}
    (hbest : ∀ d₁, Kept d d₁ → wp (detectFrom m errorText source shell home best rest) Q E d₁)
    (hfound : ∀ occupant found d₁, stateAt errorText shell home c.dir occupant = some found →
      rank best < rank found → Kept d d₁ →
      wp (detectFrom m errorText source shell home found rest) Q E d₁) :
    wp (detectFrom m errorText source shell home best (c :: rest)) Q E d := by
  have hnext : ∀ (occupant : Except CliToolError Occupant) (d₁ : Disk), Kept d d₁ →
      wp (match stateAt errorText shell home c.dir occupant with
        | none => detectFrom m errorText source shell home best rest
        | some found => detectFrom m errorText source shell home
            (if rank best < rank found then found else best) rest) Q E d₁ := by
    intro occupant d₁ hk
    split
    next => exact hbest d₁ hk
    next found hstate =>
      split
      next hlt => exact hfound occupant found d₁ hstate hlt hk
      next => exact hbest d₁ hk
  rw [detectFrom, wp_bind, wp_attempt]
  exact wp_mono wp_classify_kept (fun occupant d₁ hk => hnext (.ok occupant) d₁ hk)
    fun e d₁ hk => hnext (.error e) d₁ hk

/-- What ranks highest stays. -/
theorem wp_detectFrom_highest {best : InstallState} (hbest : rank best = 3)
    {candidates : List Candidate} :
    wp (detectFrom m errorText source shell home best candidates)
      (fun state d' => state = best ∧ Kept d d') E d := by
  induction candidates generalizing d with
  | nil => exact ⟨rfl, Kept.refl d⟩
  | cons c rest ih =>
      refine wp_detectFrom_cons (fun d₁ hk => ?_) fun occupant found d₁ _ hlt _ => ?_
      · exact wp_mono ih (fun state d' h => ⟨h.1, hk.trans h.2⟩) fun _ _ h => h
      · have hle := rank_le found
        omega

/-- **The strongest finding wins.** Where the link of one candidate is current and no lookup fails,
the tool is said to be installed there or in a candidate before. -/
theorem wp_detectFrom_installed {src : Source} {best : InstallState} {before after : List Candidate}
    {c : Candidate} (hquiet : d.faults = []) (hbest : rank best < 3)
    (hcurrent : Current m src c.dir d.tree) :
    wp (detectFrom m errorText (some src) shell home best (before ++ c :: after))
      (fun state d' => (∃ c' ∈ before ++ [c], state.InstalledIn shell home c'.dir) ∧ Kept d d')
      E d := by
  induction before generalizing d best with
  | nil =>
      obtain ⟨-, r, target, hr, hd, hx, hsame⟩ := hcurrent
      rw [List.nil_append, detectFrom, wp_bind, wp_attempt]
      refine wp_mono (wp_classify_current hquiet hr hd hx hsame) (fun occupant d₁ h => ?_)
        fun _ _ h => h.elim
      obtain ⟨rfl, hk⟩ := h
      show wp (detectFrom m errorText (some src) shell home (if rank best < 3 then
        .installed c.dir (unprobedStatus c.dir shell home) else best) after) _ E d₁
      rw [if_pos hbest]
      refine wp_mono (wp_detectFrom_highest rfl) (fun state d₂ h => ?_) fun _ _ h => h
      exact ⟨⟨c, List.mem_cons_self, h.1⟩, hk.trans h.2⟩
  | cons b before ih =>
      -- a finding that ranks below the highest leaves the candidates after it to decide
      have hlower : ∀ best' d₁, rank best' < 3 → Kept d d₁ →
          wp (detectFrom m errorText (some src) shell home best' (before ++ c :: after))
            (fun state d' => (∃ c' ∈ b :: before ++ [c], state.InstalledIn shell home c'.dir) ∧
              Kept d d') E d₁ := by
        intro best' d₁ hbest' hk
        refine wp_mono (ih (hk.faults hquiet) hbest' (hk.tree ▸ hcurrent)) (fun state d₂ h => ?_)
          fun _ _ h => h
        obtain ⟨⟨c', hmem, hstate⟩, hk₂⟩ := h
        exact ⟨⟨c', List.mem_cons_of_mem b hmem, hstate⟩, hk.trans hk₂⟩
      refine wp_detectFrom_cons (fun d₁ hk => hlower best d₁ hbest hk)
        fun occupant found d₁ hfound _ hk => ?_
      by_cases hhigh : rank found < 3
      · exact hlower found d₁ hhigh hk
      · have hthree : rank found = 3 := Nat.le_antisymm (rank_le found) (Nat.not_lt.mp hhigh)
        refine wp_mono (wp_detectFrom_highest hthree) (fun state d₂ h => ?_) fun _ _ h => h
        obtain ⟨rfl, hk₂⟩ := h
        exact ⟨⟨b, List.mem_cons_self, installedIn_of_rank hfound hthree.ge⟩, hk.trans hk₂⟩

end Strongest

/-! ### Calls without failures -/

section Calls

variable {m : Machine} {source : Source} {ε α : Type}

theorem quiet_of_kept {x : Io ε α}
    (h : ∀ d, wp x (fun _ d' => Kept d d') (fun _ d' => Kept d d') d) : Quiet x := fun d hd =>
  wp_mono (h d) (fun _ _ hk => hk.faults hd) fun _ _ hk => hk.faults hd

theorem quiet_permitted {denied : Option Nat} {x : Io Errno α} (hx : Quiet x) :
    Quiet (permitted denied x) := by
  cases denied with
  | none => exact hx
  | some code => exact Quiet.fail _

theorem quiet_drop (staged : StagingLink) : Quiet staged.drop := by
  cases staged with
  | none => exact Quiet.pure _
  | some path =>
      refine Quiet.bind (Quiet.attempt (Quiet.update [] _)) fun removed => ?_
      cases removed with
      | ok u => exact Quiet.pure _
      | error e => exact Quiet.pure _

theorem quiet_finish (staged : StagingLink) (link : Path) (placed : Placed) :
    Quiet (finish staged link placed) := by
  refine Quiet.bind ?_ fun renamed => ?_
  · cases staged with
    | none => exact Quiet.pure _
    | some path =>
        refine Quiet.bind (Quiet.attempt (Quiet.update [] _)) fun renamed => ?_
        cases renamed with
        | ok u => exact Quiet.pure _
        | error e => exact Quiet.bind (quiet_drop _) fun left => Quiet.pure _
  · obtain ⟨result, left⟩ := renamed
    cases result with
    | ok u => exact Quiet.pure _
    | error e => exact Quiet.pure _

theorem quiet_install (dir : Path) (staged : StagingLink) :
    Quiet (install m dir source staged) := by
  have hclassify : Quiet (classify m (dir ++ [cliBinaryName]) (some source)) :=
    quiet_of_kept fun _ => wp_classify_kept
  refine Quiet.bind (Quiet.attempt hclassify) fun occupant => ?_
  cases occupant with
  | error e => exact Quiet.bind (quiet_drop staged) fun left => Quiet.pure _
  | ok occupant =>
      cases occupant with
      | absent => exact quiet_finish _ _ _
      | oursStale target resolves => exact quiet_finish _ _ _
      | oursCurrent => exact Quiet.bind (quiet_drop staged) fun left => Quiet.pure _
      | foreign what => exact Quiet.bind (quiet_drop staged) fun left => Quiet.pure _

theorem quiet_prepare (c : Candidate) : Quiet (prepare m c) := by
  refine Quiet.bind (quiet_of_kept fun d => wp_machine_isDir fun b d' hk _ _ => hk) fun isDir => ?_
  split
  · exact Quiet.pure _
  · split
    · refine Quiet.bind (Quiet.attempt (quiet_permitted (Quiet.createDirAllUp _))) fun made => ?_
      cases made with
      | ok u => exact Quiet.pure _
      | error e => exact Quiet.pure _
    · exact Quiet.pure _

theorem quiet_placeFrom (uuid : List Char) (candidates : List Candidate) (tried : List Path) :
    Quiet (placeFrom m uuid source tried candidates) := by
  induction candidates generalizing tried with
  | nil => exact Quiet.pure _
  | cons c rest ih =>
      refine Quiet.bind (quiet_prepare c) fun ready => ?_
      split
      · have hcreate : Quiet (StagingLink.create m uuid c.dir source) :=
          Quiet.bind (quiet_permitted (Quiet.update [] _)) fun _ => Quiet.pure _
        refine Quiet.bind (Quiet.attempt hcreate) fun staged => ?_
        cases staged with
        | ok staged => exact quiet_install c.dir staged
        | error e =>
            dsimp only
            split
            · exact ih _
            · exact Quiet.pure _
      · exact ih _

end Calls

/-! ### After an installation -/

section After

variable {m : Machine} {uuid : List Char} {candidates : List Candidate} {source : Source}
  {d d' : Disk} {report : Report}

/-- What a second look needs: the tool is current in a candidate, and those before it are passed
over. -/
structure Found (m : Machine) (source : Source) (candidates : List Candidate) (dir : Path)
    (t : Tree) : Prop where
  current : Current m source dir t
  split : ∃ before c after, candidates = before ++ c :: after ∧ c.dir = dir ∧
    ∀ b ∈ before, b.createIfAbsent = false ∧ Passed m t b

/-- What a call that says the tool is installed has left, where nothing failed. -/
theorem placed_found (hrun : place m uuid candidates source d = .ok report d') :
    ∃ mid, Prepared candidates d.tree mid ∧ Settled uuid source mid d'.tree report ∧
      ∀ dir, report.installedIn = some dir →
        Repeatable m uuid candidates source d mid d'.tree report dir →
        Found m source candidates dir d'.tree := by
  have hwp : wp (place m uuid candidates source) (Walked m uuid source candidates d)
      (fun _ _ => False) d := wp_placeFrom candidates
  obtain ⟨mid, hprepared, hinstalled⟩ := wp_ok hwp hrun
  refine ⟨mid, hprepared, hinstalled.settled, fun dir hin hrep => ?_⟩
  have hpassed : wp (place m uuid candidates source)
      (fun report _ => PassedBefore m d.tree candidates report) (fun _ _ => False) d :=
    wp_placeFrom_passed candidates hrep.quiet
  obtain ⟨before, c, after, rfl, rfl, hbefore⟩ := wp_ok hpassed hrun dir hin
  have hmem : ∀ b ∈ before, b ∈ (before ++ c :: after).dropLast := by
    intro b hb
    rw [List.dropLast_append_of_ne_nil (List.cons_ne_nil c after)]
    exact List.mem_append_left _ hb
  have hlast : ∀ b ∈ before, b.createIfAbsent = false := fun b hb => hrep.last b (hmem b hb)
  refine ⟨current_of_installed hprepared hinstalled hin (hrep.fresh.dirs c (by simp)) hrep,
    before, c, after, rfl, rfl, fun b hb => ⟨hlast b hb, ?_⟩⟩
  rcases hbefore hlast b hb with hfollow | hnames | hdenied
  · exact .inl hfollow
  · exact .inr (.inl (hrep.passed b (hmem b hb) hnames))
  · exact .inr (.inr hdenied)

/-- A directory whose link is current is there, and the process may see it. -/
theorem Current.identity {dir : Path} {t : Tree} (h : Current m source dir t) :
    m.identity t dir ≠ none := by
  obtain ⟨hgranted, r, target, hr, hd, -, -⟩ := h
  simp [Machine.identity, hgranted.follow, hr, hd]

variable {cwd : Path} {shell : Option (List Char)} {run : ShellRun} {home : Option Path}

/-- What is told after a call of `place`. -/
theorem installTool_eq (hrun : place m uuid candidates source d = .ok report d') :
    installTool m cwd shell run home uuid candidates source d =
      tell m cwd shell run home report d' := by
  show EStateM.bind (place m uuid candidates source) _ d = _
  rw [EStateM.bind, hrun]

/-- The line that a status carries. -/
def PathStatus.line : PathStatus → Option (List Char)
  | .onPath => none
  | .notOnPath line _ | .unknown _ line _ => some line

/-- A status that is not `onPath` carries the line for its directory. -/
theorem pathStatus_line {dir : Path} {probe : PathStatusProbe} :
    Gives (pathStatus m cwd dir probe shell home)
      fun status => status = .onPath ∨ status.line = some (exportLine dir) := by
  cases probe with
  | failed reason => exact Gives.pure (.inr rfl)
  | resolved path =>
      refine Gives.bind (Gives.any _) fun b _ => ?_
      split
      · exact Gives.pure (.inl rfl)
      · exact Gives.pure (.inr rfl)

/-- A report that the tool is installed is told with the directory and a verdict on it. -/
theorem tell_installed (cwd : Path) (shell : Option (List Char)) (run : ShellRun)
    (home : Option Path) {dir : Path} (hin : report.installedIn = some dir) :
    ∃ outcome status d', tell m cwd shell run home report d = .ok (.ok outcome, report.left) d' ∧
      outcome.told = some (dir, status) ∧
      (status = .onPath ∨ status.line = some (exportLine dir)) ∧ Kept d d' := by
  have hline : wp (pathStatus m cwd dir (loginShellPath shell run) shell home)
      (fun status _ => status = .onPath ∨ status.line = some (exportLine dir))
      (fun _ _ => False) d :=
    wp_of_gives pathStatus_line
  have hwp : wp (pathStatus m cwd dir (loginShellPath shell run) shell home)
      (fun status d' => (status = .onPath ∨ status.line = some (exportLine dir)) ∧ Kept d d')
      (fun _ _ => False) d :=
    wp_mono (wp_both hline wp_pathStatus)
      (fun status d' h => ⟨h.1, h.2.1⟩) fun _ _ h => h.1
  cases hrun : pathStatus m cwd dir (loginShellPath shell run) shell home d with
  | error e d' => exact nomatch e
  | ok status d' =>
      obtain ⟨hline, hk⟩ := wp_ok hwp hrun
      have hasked : ∀ outcome : PathStatus → InstallOutcome,
          (do
            let status ← pathStatus m cwd dir (loginShellPath shell run) shell home
            pure (.ok (outcome status), report.left) :
            Io Empty (Except CliToolError InstallOutcome × Option Path)) d =
            .ok (.ok (outcome status), report.left) d' := by
        intro outcome
        show EStateM.bind (pathStatus m cwd dir (loginShellPath shell run) shell home) _ d = _
        rw [EStateM.bind, hrun]
        rfl
      obtain ⟨result, left⟩ := report
      cases result with
      | error e => cases hin
      | ok placed =>
          cases placed with
          | refused dir' what => cases hin
          | created dir' =>
              cases hin
              exact ⟨_, status, d', hasked (.installed dir), rfl, hline, hk⟩
          | unchanged dir' =>
              cases hin
              exact ⟨_, status, d', hasked (.alreadyInstalled dir), rfl, hline, hk⟩
          | repointed dir' =>
              cases hin
              exact ⟨_, status, d', hasked (.repaired dir), rfl, hline, hk⟩

/-- **An installation after the first**, where the tool is found: it only says so, and what it tells
of PATH is the verdict on the directory. -/
theorem installTool_found {dir : Path} {path : List Char} (hquiet : d.faults = [])
    (hfound : Found m source candidates dir d.tree)
    (hnew : ∀ r, d.tree.node (r ++ [StagingLink.name uuid]) = none)
    (hprobe : loginShellPath shell run = .resolved path)
    (hon : ∀ t, m.identity t dir ≠ none → OnPath m cwd dir t path) :
    ∃ d', installTool m cwd shell run home uuid candidates source d =
      .ok (.ok (.alreadyInstalled dir .onPath), none) d' ∧ Same d.tree d'.tree := by
  obtain ⟨hcurrent, before, c, after, rfl, rfl, hbefore⟩ := hfound
  have hsecond : wp (place m uuid (before ++ c :: after) source)
      (fun report d' => (report = ⟨.ok (.unchanged c.dir), none⟩ ∧ Same d.tree d'.tree) ∧
        d'.faults = []) (fun _ _ => False) d :=
    wp_mono (wp_both (E := fun _ _ => False)
      (wp_placeFrom_current before hquiet hbefore hcurrent hnew)
      (quiet_placeFrom uuid _ [] d hquiet)) (fun _ _ h => h) fun _ _ h => h.1
  cases hrun : place m uuid (before ++ c :: after) source d with
  | error e d' => exact nomatch e
  | ok report d₁ =>
      obtain ⟨⟨rfl, hsame⟩, hquiet₁⟩ := wp_ok hsecond hrun
      obtain ⟨d₂, hstatus, hk⟩ := pathStatus_onPath shell home hquiet₁
        (hon d₁.tree (hcurrent.of_same hsame).identity)
      refine ⟨d₂, ?_, hk.tree ▸ hsame⟩
      rw [installTool_eq hrun]
      show EStateM.bind (pathStatus m cwd c.dir (loginShellPath shell run) shell home) _ d₁ = _
      rw [EStateM.bind, hprobe, hstatus]
      rfl

end After

/-! ### An installation, its advice, and the next one -/

/-- **From an installation to a new terminal.** Where a call says the tool is installed and leaves
it so that a second call finds it, what the user is told is that the directory is on PATH, or the
line for the profile. Once that line is in the profile, read as often as it may be, the next
installation changes nothing and says the directory is on PATH, and the menu shows the tool as
installed, there or in a candidate before. -/
theorem installed_on_path (m : Machine) (uuid : List Char) (cwd : Path)
    (candidates : List Candidate) (source : Source) (shell : Option (List Char)) (run : ShellRun)
    (home : Option Path) (d : Disk) :
    ∃ report mid d', place m uuid candidates source d = .ok report d' ∧
      Prepared candidates d.tree mid ∧ Settled uuid source mid d'.tree report ∧
      ∀ dir, report.installedIn = some dir →
        Repeatable m uuid candidates source d mid d'.tree report dir →
        (∃ outcome status e, installTool m cwd shell run home uuid candidates source d =
            .ok (.ok outcome, report.left) e ∧ outcome.told = some (dir, status) ∧
          (status = .onPath ∨ status.line = some (exportLine dir)) ∧ e.tree = d'.tree) ∧
        ∀ (vars : Shell.Variables) (n : Nat), ':' ∉ display dir →
          utf8Len (Shell.fronts (display dir) ':' (n + 1) ((vars pathName).getD [])) ≤
            maxPathBytes →
          ∃ vars' path,
            Shell.runAll vars (List.replicate (n + 1) (exportLine dir)) = some (vars', []) ∧
            Shell.run vars' pathScript = some (vars', path) ∧
            ∀ (sh status : List Char) (stderr : List UInt8) (uuid' : List Char) (e : Disk),
              isAbsolute sh = true → e.tree = d'.tree → e.faults = [] →
              (∀ r, e.tree.node (r ++ [StagingLink.name uuid']) = none) →
              (∃ e', installTool m cwd (some sh) (.exited true status (utf8 path) stderr) home uuid'
                  candidates source e = .ok (.ok (.alreadyInstalled dir .onPath), none) e' ∧
                Same e.tree e'.tree) ∧
              ∀ errorText, ∃ before c after state e',
                candidates = before ++ c :: after ∧ c.dir = dir ∧
                detectIn m errorText (some source) (some sh) home candidates e = .ok state e' ∧
                Kept e e' ∧ ∃ c' ∈ before ++ [c], state.InstalledIn (some sh) home c'.dir := by
  cases hrun : place m uuid candidates source d with
  | error e d' => exact nomatch e
  | ok report d' =>
      obtain ⟨mid, hprepared, hsettled, hplaced⟩ := placed_found hrun
      refine ⟨report, mid, d', rfl, hprepared, hsettled, fun dir hin hrep =>
        ⟨?_, fun vars n hcolon hlen => ?_⟩⟩
      · obtain ⟨outcome, status, e, htell, htold, hline, hk⟩ := tell_installed (m := m) (d := d')
          cwd shell run home hin
        exact ⟨outcome, status, e, (installTool_eq hrun).trans htell, htold, hline, hk.tree⟩
      · have hfound := hplaced dir hin hrep
        obtain ⟨vars', hprofile, -, hprint⟩ := follow_advice dir vars n
        refine ⟨vars', _, hprofile, hprint, ?_⟩
        intro sh status stderr uuid' e hsh he hquiet hnew
        constructor
        · exact installTool_found hquiet (he ▸ hfound) hnew (loginShellPath_printed hsh hlen)
            fun t hdir => onPath_fronts hcolon hdir
        · intro errorText
          obtain ⟨hcurrent, before, c, after, rfl, rfl, -⟩ := hfound
          have hdetect : wp
              (detectIn m errorText (some source) (some sh) home (before ++ c :: after))
              (fun state e' => (∃ c' ∈ before ++ [c], state.InstalledIn (some sh) home c'.dir) ∧
                Kept e e') (fun _ _ => False) e :=
            wp_detectFrom_installed hquiet (by decide) (he ▸ hcurrent)
          cases hstate : detectIn m errorText (some source) (some sh) home (before ++ c :: after)
              e with
          | error e d' => exact nomatch e
          | ok state e' =>
              obtain ⟨hin, hk⟩ := wp_ok hdetect hstate
              exact ⟨before, c, after, state, e', rfl, rfl, rfl, hk, hin⟩

/-- A first installation, the line it tells of in the profile of a user whose PATH was empty, and
the installation after that. -/
theorem installed_on_path_home :
    (∃ status e, installTool open' [] none .timedOut (some home) "1".toList
        (candidatesFrom (some home)) app (disk [] []) =
          .ok (.ok (.installed homeBin status), none) e ∧
        (status = .onPath ∨ status.line = some (exportLine homeBin))) ∧
      ∃ vars' path e', Shell.runAll (fun _ => none) (List.replicate 1 (exportLine homeBin)) =
          some (vars', []) ∧ Shell.run vars' pathScript = some (vars', path) ∧
        installTool open' [] (some ['/', 'z']) (.exited true [] (utf8 path) []) (some home)
          "2".toList (candidatesFrom (some home)) app
          { (callTwice open' app (candidatesFrom (some home)) (disk [] [])).1.2 with faults := [] } =
            .ok (.ok (.alreadyInstalled homeBin .onPath), none) e' := by
  obtain ⟨report, mid, d', hrun, -, hsettled, hinstalled⟩ := installed_on_path open' "1".toList []
    (candidatesFrom (some home)) app none .timedOut (some home) (disk [] [])
  obtain ⟨rfl, hrep⟩ := repeatable_home hrun hsettled
  obtain ⟨⟨outcome, status, e, htell, htold, hline, -⟩, hafter⟩ := hinstalled homeBin rfl hrep
  constructor
  · -- of a link that was created the report is that the tool was installed
    obtain ⟨s, e', htell'⟩ : ∃ s e', tell open' [] none .timedOut (some home)
        ⟨.ok (.created homeBin), none⟩ d' = .ok (.ok (.installed homeBin s), none) e' :=
      ⟨_, _, rfl⟩
    have heq := (installTool_eq hrun).symm.trans htell
    rw [htell'] at heq
    cases heq
    cases htold
    exact ⟨_, _, (installTool_eq hrun).trans htell', hline⟩
  · obtain ⟨vars', path, hprofile, hprint, hagain⟩ :=
      hafter (fun _ => none) 0 (by decide +kernel) (by decide +kernel)
    have habsent := absent_home hrun
    obtain ⟨⟨e', he', -⟩, -⟩ := hagain ['/', 'z'] [] [] "2".toList { d' with faults := [] } rfl rfl
      rfl habsent
    rw [first_eq hrun]
    exact ⟨vars', path, e', hprofile, hprint, he'⟩

end OpenVHost.Clitool
