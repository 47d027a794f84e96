/-
# What is judged initializable can be finalized

A classification reads the final directory through a link and past every `.DS_Store`; the
finalization refuses a link and deletes the `.DS_Store` as a file. Both look at the same tree.

* `wp_classifyDatadir_seen`, `wp_classifyMariadbDatadir_seen` — what a verdict says of the
  directory's listing.
* `wp_finalize_occupied` — a directory that holds anything else is refused and left alone,
  whatever fails.
* `finalize_agrees` — the two agree for both engines where neither a link nor a `.DS_Store`
  directory is in the way.
-/

import OpenVHost.Datadir.Calls
import OpenVHost.FileTree.Succeeds

namespace OpenVHost.Datadir

open FileTree FileTree.Io

/-! ### What a verdict says of the listing -/

/-- A directory that is missing or lists nothing but `.DS_Store`. -/
def Blank (t : Tree) (dir : Path) : Prop :=
  t.readDir dir = .error .notFound ∨ ∃ names, t.readDir dir = .ok names ∧ ∀ n ∈ names, n = dsStore

/-- A directory that lists something else. -/
def Occupied (t : Tree) (dir : Path) : Prop :=
  ∃ names, t.readDir dir = .ok names ∧ ∃ n ∈ names, n ≠ dsStore

section Classification

variable {d : Disk} {dir : Path} {sentinelFile : Name}

theorem wp_scanEntries_names : ∀ (names : List Name) {d : Disk},
    wp (scanEntries sentinelFile dir names)
      (fun seen d' => Kept d d' ∧ seen.names = names.filter (· != dsStore))
      (fun _ d' => Kept d d') d
  | [], d => ⟨Kept.refl d, rfl⟩
  | name :: rest, d => by
      unfold scanEntries
      split
      next hname =>
        rw [List.filter_cons_of_neg (by simp [hname])]
        exact wp_scanEntries_names rest
      next hname =>
        rw [List.filter_cons_of_pos (by simpa using hname), wp_bind]
        refine wp_query (fun x d₁ hk _ => ?_) fun e d₁ hk _ => hk
        rw [wp_bind]
        refine wp_mono (wp_scanEntries_names rest) (fun seen d₂ hseen => ?_) fun _ d₂ hk₂ =>
          hk.trans hk₂
        exact ⟨hk.trans hseen.1, congrArg _ hseen.2⟩

theorem wp_scanDir_seen (os : Os) :
    wp (scanDir os sentinelFile dir)
      (fun seen d' => Kept d d' ∧ (seen.names = [] → Blank d.tree dir) ∧
        (seen.names ≠ [] → Occupied d.tree dir)) (fun _ d' => Kept d d') d := by
  rw [scanDir, wp_bind, wp_attempt, readEntries, wp_bind]
  refine wp_query (fun names d₁ hk hread => ?_) fun e d₁ hk he => ?_
  · simp only [wp_pure]
    refine wp_mono (wp_scanEntries_names (os.order names)) (fun seen d₂ hseen => ?_)
      fun _ d₂ hk₂ => hk.trans hk₂
    obtain ⟨hk₂, hnames⟩ := hseen
    have hmem : ∀ n, n ∈ seen.names ↔ n ∈ names ∧ n ≠ dsStore := by
      intro n
      rw [hnames, List.mem_filter, (os.perm names).mem_iff]
      simp
    refine ⟨hk.trans hk₂, fun hnil => .inr ⟨names, hread, fun n hn => ?_⟩, fun hne => ?_⟩
    · by_contra hother
      have := (hmem n).mpr ⟨hn, hother⟩
      rw [hnil] at this
      exact List.not_mem_nil this
    · obtain ⟨n, hn⟩ := List.exists_mem_of_ne_nil _ hne
      exact ⟨names, hread, n, (hmem n).mp hn⟩
  · cases e with
    | notFound =>
        have hmissing := he.own (.inr fun code hc => by cases hc)
        exact ⟨hk, fun _ => .inl hmissing, fun hne => absurd rfl hne⟩
    | _ => exact hk

/-- What a classification has found when it says `state`. -/
structure Judged {σ : Type} (notInitialized : σ) (t : Tree) (dir : Path) (state : σ) : Prop where
  blank : state = notInitialized → Blank t dir
  occupied : state ≠ notInitialized → Occupied t dir

theorem Judged.of_occupied {σ : Type} {notInitialized state : σ} {t : Tree}
    (hne : state ≠ notInitialized) (h : Occupied t dir) : Judged notInitialized t dir state :=
  ⟨fun heq => absurd heq hne, fun _ => h⟩

theorem wp_classifyDatadir_seen (os : Os) :
    wp (classifyDatadir os dir)
      (fun state d' => Kept d d' ∧ Judged .notInitialized d.tree dir state)
      (fun _ d' => Kept d d') d := by
  rw [classifyDatadir, wp_bind]
  refine wp_mono (wp_scanDir_seen os) (fun seen d₁ hseen => ?_) fun _ _ h => h
  obtain ⟨hk, hblank, hoccupied⟩ := hseen
  split
  next hnil =>
    exact ⟨hk, fun _ => hblank (List.isEmpty_iff.mp hnil), fun hne => absurd rfl hne⟩
  next hnil =>
    have hocc := hoccupied fun h => hnil (List.isEmpty_iff.mpr h)
    split <;> exact ⟨hk, .of_occupied (fun h => by cases h) hocc⟩

theorem mariadbVerdict_ne (recorded : Option (List Char)) :
    mariadbVerdict dir recorded ≠ .notInitialized := by
  unfold mariadbVerdict
  split
  · intro h
    cases h
  · split <;> intro h <;> cases h

theorem wp_classifyMariadbDatadir_seen (os : Os) :
    wp (classifyMariadbDatadir os dir)
      (fun state d' => Kept d d' ∧ Judged .notInitialized d.tree dir state)
      (fun _ d' => Kept d d') d := by
  rw [classifyMariadbDatadir, wp_bind]
  refine wp_mono (wp_scanDir_seen os) (fun seen d₁ hseen => ?_) fun _ _ h => h
  obtain ⟨hk, hblank, hoccupied⟩ := hseen
  split
  next hnil =>
    exact ⟨hk, fun _ => hblank (List.isEmpty_iff.mp hnil), fun hne => absurd rfl hne⟩
  next hnil =>
    have hocc := hoccupied fun h => hnil (List.isEmpty_iff.mpr h)
    split
    next => exact ⟨hk, .of_occupied (fun h => by cases h) hocc⟩
    next =>
      rw [wp_bind, readRecordedVersion, wp_bind]
      refine wp_query (fun bytes d₂ hk₂ _ => ?_) fun _ d₂ hk₂ _ => hk.trans hk₂
      exact ⟨hk.trans hk₂, .of_occupied (mariadbVerdict_ne _) hocc⟩

end Classification

/-! ### A directory that holds anything else -/

section Occupied

variable {d : Disk} {p : Path} {b : Name}

theorem wp_clear_occupied (os : Os) (hb : special b = false) (h : Occupied d.tree (p ++ [b])) :
    wp (clearIgnorableClutter os (p ++ [b])) (fun _ _ => False) (fun _ d' => d'.tree = d.tree)
      d := by
  obtain ⟨names, hread, n, hn, hother⟩ := h
  rw [clearIgnorableClutter, wp_bind, wp_attempt]
  refine wp_query (fun x d₁ hk _ => ?_) fun e d₁ hk he => ?_
  · dsimp only
    split
    next => exact hk.tree
    next =>
      split
      next => exact hk.tree
      next =>
        rw [clearListed, wp_bind, wp_mapErr]
        refine wp_readEntries os (fun names' d₂ hk₂ hread' => ?_) fun e d₂ hk₂ =>
          (hk.trans hk₂).tree
        rw [hk.tree, hread] at hread'
        cases hread'
        cases hfind : (os.order names).find? (· != dsStore) with
        | some name => exact (hk.trans hk₂).tree
        | none =>
            have hall : ∀ m ∈ os.order names, m = dsStore := by simpa using hfind
            exact (hother (hall n ((os.perm names).mem_iff.mpr hn))).elim
  · cases e with
    | notFound =>
        have hmissing : d.tree.lstat (p ++ [b]) = .error .notFound :=
          he.own (.inr fun code hc => by cases hc)
        cases hr : d.tree.resolve (p ++ [b]) with
        | error e => simp [Tree.readDir, hr] at hread
        | ok f =>
            obtain ⟨x, hx⟩ := Tree.lstat_of_resolve hb hr
            rw [hmissing] at hx
            cases hx
    | _ => exact hk.tree

/-- **A directory that holds anything else is refused and left alone**, whatever fails. -/
theorem wp_finalize_occupied {σ : Type} (os : Os) {classify : Path → Io Errno σ}
    {isReady : σ → Bool} {staging : Path} (hb : special b = false)
    (hclassify : wp (classify staging) (fun _ d' => Kept d d') (fun _ d' => Kept d d') d)
    (h : Occupied d.tree (p ++ [b])) :
    wp (finalize os classify isReady staging (p ++ [b])) (fun _ _ => False)
      (fun _ d' => d'.tree = d.tree) d := by
  rw [finalize, wp_bind, wp_mapErr]
  refine wp_mono hclassify (fun state d₁ hk => ?_) fun _ _ hk => hk.tree
  split
  next => exact hk.tree
  next =>
    rw [← hk.tree] at h
    rw [wp_bind, wp_mapErr]
    exact wp_mono (wp_clear_occupied os hb h) (fun _ _ hf => hf.elim)
      fun _ _ ht => ht.trans hk.tree

end Occupied

/-! ### A directory that is judged initializable -/

/-- Nothing of what the two readings treat differently is at the final directory, and the way
to its parent does not lead through it. -/
structure Unobstructed (t : Tree) (p : Path) (b : Name) : Prop where
  noLink : ∀ target, t.lstat (p ++ [b]) ≠ .ok (.symlink target)
  noFolder : ∀ m, t.lstat (p ++ [b] ++ [dsStore]) ≠ .ok (.dir m)
  away : ∀ f w, t.locate (p ++ [b]) = .ok f → t.Walks ([], p) w → w.1 ≠ f

section Blank

variable {d : Disk} {p r : Path} {a b : Name}

/-- The `.DS_Store` files of a directory that lists nothing else can be deleted. -/
theorem wp_removeEach_blank {dir f : Path} {names : List Name} (hquiet : d.faults = [])
    (hproper : d.tree.Proper) (hr : d.tree.resolve dir = .ok f) (hd : d.tree.isDir f = true)
    (hnames : ∀ n, n ∈ names ↔ n ∈ d.tree.entries f) (hnodup : names.Nodup)
    (hall : ∀ n ∈ names, n = dsStore)
    (hfolder : ∀ m, d.tree.lstat (dir ++ [dsStore]) ≠ .ok (.dir m)) :
    wp (removeEach (names.map fun n => dir ++ [n]))
      (fun _ d' => d'.faults = [] ∧ Trimmed (· = f ++ [dsStore]) d.tree d'.tree ∧
        d'.tree.isDir f = true ∧ d'.tree.childless f = true) (fun _ _ => False) d := by
  match names, hnames, hnodup, hall with
  | [], hnames, _, _ =>
      refine ⟨hquiet, Trimmed.refl _ _, hd, Tree.childless_of_unlisted hproper fun n hn => ?_⟩
      exact List.not_mem_nil ((hnames n).mpr hn)
  | [n], hnames, _, hall =>
      obtain rfl : n = dsStore := hall n List.mem_cons_self
      have hhas := (Tree.mem_entries.mp ((hnames dsStore).mp List.mem_cons_self)).1
      obtain ⟨x, hx⟩ := Option.isSome_iff_exists.mp hhas
      have hfile : x.isDir = false := by
        cases x with
        | dir m => exact absurd (Tree.lstat_entry (by decide) hr hd hx) (hfolder m)
        | _ => rfl
      have herase := Tree.removeFile_entry (by decide) hr hd hx hfile
      simp only [List.map_cons, List.map_nil, removeEach, wp_bind, wp_mapErr, wp_pure]
      refine wp_update (fun d' hf _ hfaults => ?_) fun e d' _ he => ?_
      · obtain ⟨hgone, htrim, -⟩ := Tree.removeFile_trimmed (by decide) hr hf
        have hdir : d'.tree.isDir f = true := by
          rw [Tree.isDir, htrim.outside (fun h => by simpa using congrArg List.length h)]
          exact hd
        refine ⟨hfaults hquiet, htrim, hdir, ?_⟩
        refine Tree.childless_of_unlisted (hproper.of_trimmed htrim) fun n hn => ?_
        obtain ⟨hhas', hsp⟩ := Tree.mem_entries.mp hn
        obtain ⟨y, hy⟩ := Option.isSome_iff_exists.mp hhas'
        have hlisted := Tree.mem_entries.mpr ⟨Tree.has_of_node (htrim.node hy), hsp⟩
        obtain rfl : n = dsStore := by simpa using (hnames n).mpr hlisted
        rw [hgone] at hy
        cases hy
      · have hfailed := he.own (.inl hquiet)
        rw [herase] at hfailed
        cases hfailed
  | n :: m :: rest, _, hnodup, hall =>
      have hn := hall n List.mem_cons_self
      have hm := hall m (List.mem_cons_of_mem _ List.mem_cons_self)
      simp [hn, hm] at hnodup

/-- What clears a final directory finds nothing in its way. -/
theorem wp_clear_blank (os : Os) (hquiet : d.faults = []) (hproper : d.tree.Proper)
    (hb : special b = false) (hr : d.tree.resolve p = .ok r) (hd : d.tree.isDir r = true)
    (hblank : Blank d.tree (p ++ [b])) (hfree : Unobstructed d.tree p b) :
    wp (clearIgnorableClutter os (p ++ [b]))
      (fun _ d' => d'.faults = [] ∧
        Trimmed (· = r ++ [b] ++ [dsStore]) d.tree d'.tree ∧
        (d'.tree.node (r ++ [b]) = none ∨
          d'.tree.isDir (r ++ [b]) = true ∧ d'.tree.childless (r ++ [b]) = true))
      (fun _ _ => False) d := by
  rw [clearIgnorableClutter, wp_bind, wp_attempt]
  refine wp_query (fun x d₁ hk hx => ?_) fun e d₁ hk he => ?_
  · obtain ⟨r', hr', -, hnode⟩ := Tree.lstat_concat_ok hb hx
    obtain rfl : r = r' := Except.ok.inj (hr.symm.trans hr')
    cases x with
    | symlink target => exact absurd hx (hfree.noLink target)
    | file content m =>
        -- a file is not listed, which no classification takes for a missing directory
        have hresolve := Tree.resolve_append_entry hb hnode rfl hr
        have hread : d.tree.readDir (p ++ [b]) = .error .notADirectory := by
          simp [Tree.readDir, hresolve, Tree.isDir, hnode, Node.isDir]
        rcases hblank with hnone | ⟨names, hnames, -⟩
        · rw [hread] at hnone
          cases hnone
        · rw [hread] at hnames
          cases hnames
    | dir m =>
        have hdir : d.tree.isDir (r ++ [b]) = true := Tree.isDir_iff.mpr ⟨m, hnode⟩
        have hresolve := Tree.resolve_append_entry hb hnode rfl hr
        have hread : d.tree.readDir (p ++ [b]) = .ok (d.tree.entries (r ++ [b])) := by
          simp [Tree.readDir, hresolve, hdir]
        dsimp only [Node.isSymlink, Node.isDir]
        simp only [Bool.false_eq_true, if_false, Bool.not_true]
        rw [clearListed, wp_bind, wp_mapErr, readEntries, wp_bind]
        refine wp_query (fun names d₂ hk₂ hnames => ?_) fun e d₂ hk₂ he => ?_
        · rw [hk.tree, hread] at hnames
          cases hnames
          have hkept := hk.trans hk₂
          have hmem : ∀ n, n ∈ os.order (d.tree.entries (r ++ [b])) ↔
              n ∈ d.tree.entries (r ++ [b]) := fun n => (os.perm _).mem_iff
          have hall : ∀ n ∈ os.order (d.tree.entries (r ++ [b])), n = dsStore := by
            intro n hn
            rcases hblank with hnone | ⟨names, hnames, hstore⟩
            · rw [hread] at hnone
              cases hnone
            · rw [hread] at hnames
              cases hnames
              exact hstore n ((hmem n).mp hn)
          have hnodup := ((os.perm _).nodup_iff).mpr (Tree.nodup_of_readDir hread)
          have hfind : (os.order (d.tree.entries (r ++ [b]))).find? (· != dsStore) = none := by
            simpa using hall
          simp only [wp_pure, hfind]
          have hfolder := hfree.noFolder
          rw [← hkept.tree] at hdir hresolve hproper hmem hall hnodup hfolder ⊢
          refine wp_mono (wp_removeEach_blank (hkept.faults hquiet) hproper hresolve hdir hmem
            hnodup hall hfolder) (fun _ d' h => ?_) fun _ _ h => h
          exact ⟨h.1, h.2.1, .inr h.2.2⟩
        · have hfailed := he.own (.inl (hk.faults hquiet))
          rw [hk.tree, hread] at hfailed
          cases hfailed
  · have hmissing := he.own (.inl hquiet)
    rw [Tree.lstat_concat hb hr hd] at hmissing
    cases hnode : d.tree.node (r ++ [b]) with
    | some x => simp [hnode] at hmissing
    | none =>
        obtain rfl : e = .notFound := by simpa [hnode] using hmissing.symm
        exact ⟨hk.faults hquiet, Trimmed.of_eq hk.tree, .inl (hk.tree ▸ hnode)⟩

/-- **Onto a directory that is judged initializable the staged one is moved.** -/
theorem wp_finalize_blank {σ : Type} (os : Os) {classify : Path → Io Errno σ}
    {isReady : σ → Bool} (hquiet : d.faults = []) (hproper : d.tree.Proper)
    (ha : special a = false) (hb : special b = false) (hne : a ≠ b)
    (hclassify : wp (classify (p ++ [a])) (fun state d' => Kept d d' ∧ isReady state = true)
      (fun _ _ => False) d)
    (hstaged : ∃ m, d.tree.lstat (p ++ [a]) = .ok (.dir m)) (hblank : Blank d.tree (p ++ [b]))
    (hfree : Unobstructed d.tree p b) :
    wp (finalize os classify isReady (p ++ [a]) (p ++ [b])) (fun _ _ => True) (fun _ _ => False)
      d := by
  obtain ⟨m, hstaged⟩ := hstaged
  obtain ⟨r, hr, hd, hnode⟩ := Tree.lstat_concat_ok ha hstaged
  rw [finalize, wp_bind, wp_mapErr]
  refine wp_mono hclassify (fun state d₁ hstate => ?_) fun _ _ hf => hf
  obtain ⟨hk, hready⟩ := hstate
  simp only [hready, Bool.not_true, Bool.false_eq_true, if_false]
  rw [wp_bind, wp_mapErr]
  rw [← hk.tree] at hproper hr hd hnode hblank hfree
  refine wp_mono (wp_clear_blank os (hk.faults hquiet) hproper hb hr hd hblank hfree)
    (fun _ d₂ hclear => ?_) fun _ _ hf => hf
  obtain ⟨hfaults, htrim, hvacant⟩ := hclear
  -- the clutter stood beneath the final directory, off the way to its parent
  have haway : Tree.Away (· = r ++ [b] ++ [dsStore]) d₁.tree ([], p) := by
    intro w hw n heq
    exact hfree.away _ w (Tree.locate_entry hb hr hd) hw (List.append_inj_left' heq rfl)
  have hout : ∀ q : Path, q.length ≤ r.length + 1 → d₂.tree.node q = d₁.tree.node q := by
    intro q hq
    refine htrim.outside fun heq => ?_
    have hlen := congrArg List.length heq
    simp only [List.length_append, List.length_singleton] at hlen
    omega
  have hr₂ : d₂.tree.resolve p = .ok r := by rw [Tree.resolve_same htrim haway, hr]
  have hd₂ : d₂.tree.isDir r = true := by rw [Tree.isDir, hout r (by omega)]; exact hd
  have hdir : d₂.tree.isDir (r ++ [a]) = true := by
    rw [Tree.isDir, hout (r ++ [a]) (by simp), hnode]
    rfl
  have hmove := Tree.rename_vacant (Tree.locate_entry ha hr₂ hd₂) (Tree.locate_entry hb hr₂ hd₂)
    hdir (siblings_apart hne) (siblings_apart hne.symm) hvacant
  rw [wp_mapErr]
  refine wp_update (fun _ _ _ _ => trivial) fun e d₃ _ he => ?_
  have hfailed := he.own (.inl hfaults)
  rw [hmove] at hfailed
  cases hfailed

end Blank

/-! ### The two together -/

/-- What a classification reports where nothing fails. -/
def Reports {σ : Type} (classify : Path → Io Errno σ) (t : Tree) (dir : Path) (state : σ) : Prop :=
  (settle (Io.attempt (classify dir)) ⟨t, [], []⟩).1 = .ok state

instance {σ : Type} [DecidableEq σ] (classify : Path → Io Errno σ) (t : Tree) (dir : Path)
    (state : σ) : Decidable (Reports classify t dir state) :=
  inferInstanceAs (Decidable (_ = _))

/-- A real directory that reads as initialized. -/
structure Staged {σ : Type} (classify : Path → Io Errno σ) (isInitialized : σ → Bool) (t : Tree)
    (staging : Path) : Prop where
  folder : ∃ m, t.lstat staging = .ok (.dir m)
  initialized : ∃ state, Reports classify t staging state ∧ isInitialized state = true

/-- An engine's classification of a final directory, and its finalization of a staged one. -/
structure EngineCalls (σ ω : Type) where
  classify : Path → Io Errno σ
  isInitialized : σ → Bool
  notInitialized : σ
  finalizeStaging : Path → Path → Io Empty ω
  initialized : ω
  failed : FinalizeReason σ → ω

def mysqlEngine (os : Os) : EngineCalls DatadirState
    (MysqlInitOutcome (FinalizeReason DatadirState)) where
  classify := classifyDatadir os
  isInitialized := DatadirState.isInitialized
  notInitialized := .notInitialized
  finalizeStaging := finalizeStaging os
  initialized := .initialized
  failed := .failed .finalize

def mariadbEngine (os : Os) : EngineCalls MariadbDatadirState
    (MariadbInitOutcome (FinalizeReason MariadbDatadirState)) where
  classify := classifyMariadbDatadir os
  isInitialized := MariadbDatadirState.isInitialized
  notInitialized := .notInitialized
  finalizeStaging := finalizeMariadbStaging os
  initialized := .initialized
  failed := .failed .finalize

/-- What is judged initializable can be finalized, and nothing else can. -/
structure EngineCalls.Agrees {σ ω : Type} (E : EngineCalls σ ω) (t : Tree) (p : Path) (a b : Name) :
    Prop where
  moves : Reports E.classify t (p ++ [b]) E.notInitialized →
    Staged E.classify E.isInitialized t (p ++ [a]) → Unobstructed t p b →
      (settle (E.finalizeStaging (p ++ [a]) (p ++ [b])) ⟨t, [], []⟩).1 = E.initialized
  /-- Whatever fails on the disk of the finalization. -/
  refuses : ∀ state, Reports E.classify t (p ++ [b]) state → state ≠ E.notInitialized →
    ∀ d : Disk, d.tree = t →
      (∃ reason, (settle (E.finalizeStaging (p ++ [a]) (p ++ [b])) d).1 = E.failed reason) ∧
      (settle (E.finalizeStaging (p ++ [a]) (p ++ [b])) d).2.tree = t

section Together

variable {σ : Type} {classify : Path → Io Errno σ} {notInitialized state : σ} {t : Tree}
  {dir : Path}

theorem eq_ok_of_reports (h : Reports classify t dir state) :
    ∃ d, classify dir ⟨t, [], []⟩ = .ok state d := by
  unfold Reports settle Io.attempt at h
  cases hrun : classify dir ⟨t, [], []⟩ with
  | error e d => simp [hrun] at h
  | ok s d =>
      simp only [hrun, Except.ok.injEq] at h
      exact ⟨d, by rw [h]⟩

/-- What a classification that went through has found. -/
theorem judged_of_reports
    (hclassify : ∀ d, wp (classify dir)
      (fun state d' => Kept d d' ∧ Judged notInitialized d.tree dir state)
      (fun _ d' => Kept d d') d)
    (h : Reports classify t dir state) : Judged notInitialized t dir state := by
  obtain ⟨d, hrun⟩ := eq_ok_of_reports h
  exact (wp_ok (hclassify ⟨t, [], []⟩) hrun).2

/-- How an engine names the result of a finalization. -/
def named {ρ ω : Type} (done : ω) (failed : ρ → ω) : EStateM.Result ρ Disk Unit → ω × Disk
  | .ok () d => (done, d)
  | .error reason d => (failed reason, d)

theorem settle_finalizeStaging (os : Os) (staging final : Path) (d : Disk) :
    settle (finalizeStaging os staging final) d = named .initialized (.failed .finalize)
      (finalize os (classifyDatadir os) DatadirState.isInitialized staging final d) := by
  simp only [settle, finalizeStaging, bind, EStateM.bind, Io.attempt]
  cases finalize os (classifyDatadir os) DatadirState.isInitialized staging final d <;> rfl

theorem settle_finalizeMariadbStaging (os : Os) (staging final : Path) (d : Disk) :
    settle (finalizeMariadbStaging os staging final) d = named .initialized (.failed .finalize)
      (finalize os (classifyMariadbDatadir os) MariadbDatadirState.isInitialized staging
        final d) := by
  simp only [settle, finalizeMariadbStaging, bind, EStateM.bind, Io.attempt]
  cases finalize os (classifyMariadbDatadir os) MariadbDatadirState.isInitialized staging final
    d <;> rfl

/-- The engines differ in how they name the result of a finalization. -/
theorem agrees_of_finalize {ω : Type} {E : EngineCalls σ ω} (os : Os)
    (hclassify : ∀ dir d, wp (E.classify dir)
      (fun state d' => Kept d d' ∧ Judged E.notInitialized d.tree dir state)
      (fun _ d' => Kept d d') d)
    (hsettle : ∀ staging final d, settle (E.finalizeStaging staging final) d =
      named E.initialized E.failed (finalize os E.classify E.isInitialized staging final d))
    (hproper : t.Proper) {p : Path} {a b : Name} (ha : special a = false)
    (hb : special b = false) (hne : a ≠ b) : E.Agrees t p a b := by
  constructor
  · intro hreports hstaged hfree
    have hblank := (judged_of_reports (hclassify _) hreports).blank rfl
    obtain ⟨state, hready, hinit⟩ := hstaged.initialized
    obtain ⟨d, hrun⟩ := eq_ok_of_reports hready
    have hkept := (wp_ok (hclassify _ _) hrun).1
    have hstart : wp (E.classify (p ++ [a]))
        (fun state d' => Kept ⟨t, [], []⟩ d' ∧ E.isInitialized state = true) (fun _ _ => False)
        ⟨t, [], []⟩ := by
      rw [wp, hrun]
      exact ⟨hkept, hinit⟩
    have hmoved := wp_finalize_blank os rfl hproper ha hb hne hstart hstaged.folder hblank hfree
    rw [hsettle]
    unfold wp at hmoved
    split at hmoved
    next h =>
      rw [h]
      rfl
    next => exact hmoved.elim
  · intro state hreports hstate d hd
    subst hd
    have hoccupied := (judged_of_reports (hclassify _) hreports).occupied hstate
    have hstart := wp_mono (hclassify (p ++ [a]) d) (fun _ d' h => h.1) fun _ d' h => h
    have hrefused : wp (finalize os E.classify E.isInitialized (p ++ [a]) (p ++ [b]))
        (fun _ _ => False) (fun _ d' => d'.tree = d.tree) d :=
      wp_finalize_occupied os hb hstart hoccupied
    rw [hsettle]
    unfold wp at hrefused
    split at hrefused
    next => exact hrefused.elim
    next reason d' h =>
      rw [h]
      exact ⟨⟨reason, rfl⟩, hrefused⟩

/-- **What is judged initializable can be finalized, and nothing else can**, for both engines. -/
theorem finalize_agrees (os : Os) (hproper : t.Proper) {p : Path} {a b : Name}
    (ha : special a = false) (hb : special b = false) (hne : a ≠ b) :
    (mysqlEngine os).Agrees t p a b ∧ (mariadbEngine os).Agrees t p a b := by
  constructor
  · exact agrees_of_finalize os (fun _ _ => wp_classifyDatadir_seen os)
      (settle_finalizeStaging os) hproper ha hb hne
  · exact agrees_of_finalize os (fun _ _ => wp_classifyMariadbDatadir_seen os)
      (settle_finalizeMariadbStaging os) hproper ha hb hne

end Together

/-! ### Samples -/

/-- Finder has looked at the final directory of `stagedDisk`, and no link is near. -/
theorem unobstructed_finder :
    Unobstructed stagedDisk.tree samplePaths.stagingParent sampleMajor.asStr where
  noLink target h := by
    have hdir : stagedDisk.tree.lstat (samplePaths.stagingParent ++ [sampleMajor.asStr]) =
        .ok (.dir none) := by decide
    rw [hdir] at h
    cases h
  noFolder m h := by
    have hstore : stagedDisk.tree.lstat (samplePaths.stagingParent ++ [sampleMajor.asStr] ++
        [dsStore]) = .ok (.file [2] none) := by decide
    rw [hstore] at h
    cases h
  away f w hf hw heq := by
    have hlocated : stagedDisk.tree.locate (samplePaths.stagingParent ++ [sampleMajor.asStr]) =
        .ok (samplePaths.stagingParent ++ [sampleMajor.asStr]) := by decide
    have habove := Tree.above_of_walks (by decide) (by decide) hw
    rw [hlocated] at hf
    cases hf
    have hlen := congrArg List.length habove
    rw [heq, List.length_append, List.length_append, List.length_singleton] at hlen
    omega

/-- A staged directory beside a final one that somebody else uses. -/
def usedTree : Tree :=
  stagedDisk.tree.put (samplePaths.datadir ++ ["notes.txt".toList]) (.file [3] none)

theorem finalize_agrees_finder :
    (settle (finalizeStaging orderly sampleStaging samplePaths.datadir)
      ⟨stagedDisk.tree, [], []⟩).1 = .initialized ∧
    (settle (finalizeStaging orderly sampleStaging samplePaths.datadir)
      ⟨usedTree, [none, some ⟨5, 0⟩], []⟩).2.tree = usedTree := by
  have ha : special (stagingName sampleMajor.asStr sampleSuffix) = false := by decide
  have hb : special sampleMajor.asStr = false := by decide
  have hne : stagingName sampleMajor.asStr sampleSuffix ≠ sampleMajor.asStr := by decide
  constructor
  · have hfinal : Reports (classifyDatadir orderly) stagedDisk.tree
        (samplePaths.stagingParent ++ [sampleMajor.asStr]) .notInitialized := by decide
    have hstaging : Reports (classifyDatadir orderly) stagedDisk.tree
        (samplePaths.stagingParent ++ [stagingName sampleMajor.asStr sampleSuffix])
        .initialized := by
      decide
    have hagrees := (finalize_agrees orderly (t := stagedDisk.tree) (by decide)
      (p := samplePaths.stagingParent) ha hb hne).1
    exact hagrees.moves hfinal ⟨⟨none, by decide⟩, .initialized, hstaging, rfl⟩
      unobstructed_finder
  · have hused : Reports (classifyDatadir orderly) usedTree
        (samplePaths.stagingParent ++ [sampleMajor.asStr])
        (.foreign samplePaths.datadir ["notes.txt".toList]) := by
      decide
    have hagrees := (finalize_agrees orderly (t := usedTree) (by decide)
      (p := samplePaths.stagingParent) ha hb hne).1
    exact (hagrees.refuses _ hused (fun h => by cases h) _ rfl).2

/-- The final path is a link to an empty directory. -/
def linkedTree : Tree := Tree.ofNodes (sampleRoot ++
  [(["h".toList, "big".toList], .dir none), (sampleStaging, .dir none),
    (sampleStaging ++ [sentinelDir], .dir none),
    (sampleStaging ++ [mysqlSentinelFile], .file [1] none),
    (samplePaths.datadir, .symlink "/h/big".toList)])

/-- **A link to an empty directory is judged initializable and refused.** -/
theorem linked_datadir_refused :
    Reports (classifyDatadir orderly) linkedTree samplePaths.datadir .notInitialized ∧
      Staged (classifyDatadir orderly) DatadirState.isInitialized linkedTree sampleStaging ∧
      (settle (finalizeStaging orderly sampleStaging samplePaths.datadir)
        ⟨linkedTree, [], []⟩).1 = .failed .finalize (.inTheWay (.symlink samplePaths.datadir)) := by
  refine ⟨by decide, ⟨⟨none, by decide⟩, .initialized, ?_, rfl⟩, by decide⟩
  decide

end OpenVHost.Datadir
