/-
# Planning a configuration change

`plan` compares the desired set with what is on disk. It only reads: each
generated path through `readIfExists`, and the files of an earlier apply
through `ownedFiles`, which lists the site files and the pool files and
nothing else.

* `Planned` — what the changes of a plan are.
* `wp_plan` — a plan is read off the tree, and leaves it.
-/

import OpenVHost.FileTree.Replace
import OpenVHost.Site.RenderSet

namespace OpenVHost.Site

open FileTree Io Text Conf

inductive ChangeKind where
  | added
  | modified
  | removed
  deriving DecidableEq, Repr

structure FileChange where
  path : Path
  kind : ChangeKind
  before : Option (List Char)
  after : Option (List Char)
  deriving DecidableEq, Repr

structure ApplyPlan where
  genRoot : Path
  mainConf : Path
  logDirs : List Path
  changes : List FileChange
  deriving DecidableEq, Repr

/-! ### Log directories -/

namespace LogPaths

def root (home : Home) : Path := home.dir ++ ["logs".toList]

def phpFpmError (home : Home) (major : PhpVersion) : Path :=
  root home ++ ["services".toList, "php-fpm-".toList ++ major.asStr, "error.log".toList]

def siteDir (home : Home) (domain : Domain) : Path :=
  root home ++ ["sites".toList, domain.asStr]

end LogPaths

/-- The directory of a runtime's pool log. -/
def poolLogDir (home : Home) (rt : PhpRuntime) : Except ApplyError Path :=
  match PhpVersion.parse rt.major with
  | .ok major => .ok (LogPaths.phpFpmError home major).dropLast
  | .error e => .error (.core e)

def logDirs [Uuid] (input : ApplyInput) : Except ApplyError (List Path) := do
  let pools ← input.php.mapM' (poolLogDir input.home)
  let sites := (servable input.sites).map fun s => LogPaths.siteDir input.home s.domain
  .ok (sortByPath id (pools ++ sites))

/-! ### Reading -/

def readError (op : String) (path : Path) (e : Errno) : ApplyError := .io op path (.os e)

/-- The text at a path, if there is any; anything but a plain file is refused. -/
def readIfExists (path : Path) : Io ApplyError (Option (List Char)) := do
  match ← attempt (lstat path) with
  | .error .notFound => pure none
  | .error e => fail (readError "read" path e)
  | .ok (.dir _) => fail (.notAPlainFile path "a plain file" "a directory")
  | .ok (.symlink _) => fail (.notAPlainFile path "a plain file" "a symlink")
  | .ok (.file ..) => do
      let bytes ← mapErr (readError "read" path) (readFile path)
      match decodeUtf8 bytes with
      | some s => pure (some s)
      | none => fail (.io "read" path .notUtf8)

/-- One entry of a directory, with its own type. -/
def entryType (dir : Path) (n : Name) : Io ApplyError (Name × Node) := do
  let x ← mapErr (readError "read_dir" (dir ++ [n])) (lstat (dir ++ [n]))
  pure (n, x)

/-- The entries of a directory; a link to a directory is refused, and a
directory that is not there has none. -/
def readDirOrEmpty (dir : Path) : Io ApplyError (List (Name × Node)) := do
  match ← attempt (lstat dir) with
  | .error .notFound => pure []
  | .error e => fail (readError "read_dir" dir e)
  | .ok (.symlink _) => fail (.notAPlainFile dir "a plain directory" "a symlink")
  | .ok (.file ..) => fail (.notAPlainFile dir "a plain directory" "a file")
  | .ok (.dir _) => do
      match ← attempt (readDir dir) with
      | .error .notFound => pure []
      | .error e => fail (readError "read_dir" dir e)
      | .ok names => names.mapM' (entryType dir)

/-- `Path::extension`: what follows the last dot, unless the dot comes first. -/
def extension (name : Name) : Option Name :=
  let after := name.reverse.takeWhile (· != '.')
  match name.reverse.dropWhile (· != '.') with
  | _ :: _ :: _ => some after.reverse
  | _ => none

/-- The site file of an entry, if it is a plain file with the right extension. -/
def siteFileOf (sitesDir : Path) (entry : Name × Node) : Option Path :=
  if entry.2.isFile && extension entry.1 == some "conf".toList then
    some (sitesDir ++ [entry.1])
  else none

/-- The pool file in a major's directory, if it is a plain file. -/
def poolOf (phpDir : Path) (entry : Name × Node) : Io ApplyError (Option Path) :=
  if entry.2.isDir then do
    let pool := phpDir ++ [entry.1, "php-fpm.conf".toList]
    match ← attempt (lstat pool) with
    | .ok x => pure (if x.isFile then some pool else none)
    | .error _ => pure none
  else pure none

/-- The generated files an apply may delete: site files and pool files. -/
def ownedFiles (genRoot : Path) : Io ApplyError (List Path) := do
  let sitesDir := genRoot ++ ["nginx".toList, "sites".toList]
  let entries ← readDirOrEmpty sitesDir
  let phpDir := genRoot ++ ["php".toList]
  let majors ← readDirOrEmpty phpDir
  let pools ← majors.mapM' (poolOf phpDir)
  pure (sortByPath id (entries.filterMap (siteFileOf sitesDir) ++ pools.filterMap id))

/-! ### The plan -/

/-- The change a desired file needs, if any. -/
def desiredChange (f : GeneratedFile) : Io ApplyError (Option FileChange) := do
  match ← readIfExists f.path with
  | some b =>
      pure (if b = f.contents then none
        else some ⟨f.path, .modified, some b, some f.contents⟩)
  | none => pure (some ⟨f.path, .added, none, some f.contents⟩)

/-- The removal of an owned file that is not desired. -/
def staleChange (desired : List GeneratedFile) (stale : Path) :
    Io ApplyError (Option FileChange) :=
  if desired.any fun f => f.path == stale then pure none
  else do
    let before ← readIfExists stale
    pure (some ⟨stale, .removed, before, none⟩)

def plan [Uuid] [Tera] (input : ApplyInput) : Io ApplyError ApplyPlan := do
  let desired ← Io.ofExcept (renderSet input)
  let genRoot := input.home.generated
  let wanted ← desired.mapM' desiredChange
  let owned ← ownedFiles genRoot
  let stale ← owned.mapM' (staleChange desired)
  let changes := sortByPath FileChange.path (wanted.filterMap id ++ stale.filterMap id)
  let dirs ← Io.ofExcept (logDirs input)
  pure ⟨genRoot, input.home.mainConf, dirs, changes⟩

/-! ### What is read -/

/-- The path holds a text, or nothing. -/
def Holds (t : Tree) (p : Path) : Option (List Char) → Prop
  | none => t.node p = none
  | some s => ∃ mode, t.node p = some (.file (utf8 s) mode)

instance (t : Tree) (p : Path) (c : Option (List Char)) : Decidable (Holds t p c) :=
  match c with
  | none => inferInstanceAs (Decidable (t.node p = none))
  | some s =>
      match h : t.node p with
      | some (.file content mode) =>
          if hc : content = utf8 s then .isTrue ⟨mode, by rw [h, hc]⟩
          else .isFalse fun ⟨_, hn⟩ => by
            rw [h] at hn
            cases hn
            exact hc rfl
      | none => .isFalse fun ⟨_, hn⟩ => by simp [h] at hn
      | some (.dir _) => .isFalse fun ⟨_, hn⟩ => by simp [h] at hn
      | some (.symlink _) => .isFalse fun ⟨_, hn⟩ => by simp [h] at hn

section Reading

variable {p : Path} {d : Disk}

theorem Holds.unique {t : Tree} {a b : Option (List Char)} (ha : Holds t p a) (hb : Holds t p b) :
    a = b := by
  cases a with
  | none =>
      cases b with
      | none => rfl
      | some s =>
          obtain ⟨_, hn⟩ := hb
          rw [show t.node p = none from ha] at hn
          cases hn
  | some s =>
      obtain ⟨_, hs⟩ := ha
      cases b with
      | none =>
          rw [show t.node p = none from hb] at hs
          cases hs
      | some s' =>
          obtain ⟨_, hs'⟩ := hb
          rw [hs] at hs'
          simp only [Option.some.injEq, Node.file.injEq, utf8_inj] at hs'
          rw [hs'.1]

theorem Holds.of_node {t t' : Tree} {c : Option (List Char)} (h : Holds t p c)
    (hn : t'.node p = t.node p) : Holds t' p c := by
  cases c with
  | none => exact hn.trans h
  | some s =>
      obtain ⟨mode, hs⟩ := h
      exact ⟨mode, hn.trans hs⟩

/-- An error of `lstat` that is not `notFound`, on a path that holds a node. -/
theorem lstat_raised {x : Node} {e : Errno} (hne : p ≠ []) (hp : Plain p)
    (he : Raised d (d.tree.lstat p = .error e) e) (hf : d.faults = []) :
    d.tree.node p ≠ some x := by
  intro hn
  have := he.own (.inl hf)
  rw [Tree.lstat_of_node hne hp hn] at this
  cases this

/-- **`readIfExists` reads what the path holds**, and without faults it does not
fail on a path that holds a text. -/
theorem wp_readIfExists (hne : p ≠ []) (hp : Plain p) (hs : d.tree.Straight p.dropLast) :
    wp (readIfExists p) (fun c d' => Kept d d' ∧ Holds d.tree p c)
      (fun _ _ => d.faults = [] → ∀ s, ¬ Holds d.tree p (some s)) d := by
  rw [readIfExists, wp_bind, wp_attempt, lstat]
  refine wp_query (fun x d₁ hk hx => ?_) fun e d₁ hk he => ?_
  · have hn := Tree.lstat_ok hne hp hs hx
    cases x with
    | dir m =>
        intro _ s hold
        obtain ⟨_, hc⟩ := hold
        rw [hn] at hc
        cases hc
    | symlink target =>
        intro _ s hold
        obtain ⟨_, hc⟩ := hold
        rw [hn] at hc
        cases hc
    | file content m =>
        show wp (_ >>= _) _ _ d₁
        rw [wp_bind, wp_mapErr, readFile]
        have hread : d₁.tree.readFile p = .ok content := by
          rw [hk.tree]
          exact Tree.readFile_of_node hp hn
        refine wp_query (fun bytes d₂ hk₂ hb => ?_) fun e d₂ hk₂ he => ?_
        · rw [hread] at hb
          cases hb
          cases hdec : decodeUtf8 content with
          | none =>
              intro _ s hold
              obtain ⟨_, hc⟩ := hold
              rw [hn] at hc
              cases hc
              rw [decodeUtf8_utf8] at hdec
              cases hdec
          | some s => exact ⟨hk.trans hk₂, m, by rw [hn, utf8_of_decodeUtf8 hdec]⟩
        · intro hf
          have := he.own (.inl (hk.faults hf))
          rw [hread] at this
          cases this
  · have hfail : d.faults = [] → ∀ s, ¬ Holds d.tree p (some s) := by
      rintro hf s ⟨mode, hn⟩
      exact lstat_raised hne hp he hf hn
    by_cases hnf : e = .notFound
    · subst hnf
      exact ⟨hk, Tree.lstat_notFound hne hp hs (he.own (.inr (by simp)))⟩
    · cases e <;> first | exact absurd rfl hnf | exact hfail

/-- What a listing of `dir` holds: the entries with their own types. -/
def Lists (t : Tree) (dir : Path) (entries : List (Name × Node)) : Prop :=
  (t.isDir dir = true ∨ t.node dir = none) ∧
    ∀ n x, (n, x) ∈ entries ↔ special n = false ∧ t.node (dir ++ [n]) = some x

theorem wp_entryType {n : Name} {x : Node} (hp : Plain (p ++ [n]))
    (hn : d.tree.node (p ++ [n]) = some x) :
    wp (entryType p n) (fun e d' => Kept d d' ∧ e = (n, x)) (fun _ _ => d.faults ≠ []) d := by
  rw [entryType, wp_bind, wp_mapErr, lstat]
  have hstat := Tree.lstat_of_node (by simp) hp hn
  refine wp_query (fun y d₁ hk hy => ?_) fun e d₁ _ he hf => ?_
  · rw [hstat] at hy
    cases hy
    exact ⟨hk, rfl⟩
  · have := he.own (.inl hf)
    rw [hstat] at this
    cases this

theorem exists_of_mem_right {α β : Type} {R : α → β → Prop} {xs : List α} {ys : List β} {y : β}
    (h : List.Forall₂ R xs ys) (hy : y ∈ ys) : ∃ x ∈ xs, R x y := by
  induction h with
  | nil => cases hy
  | cons hr _ ih =>
      rcases List.mem_cons.mp hy with rfl | hy
      · exact ⟨_, List.mem_cons_self, hr⟩
      · obtain ⟨x, hx, hr⟩ := ih hy
        exact ⟨x, List.mem_cons_of_mem _ hx, hr⟩

theorem exists_of_mem_left {α β : Type} {R : α → β → Prop} {xs : List α} {ys : List β} {x : α}
    (h : List.Forall₂ R xs ys) (hx : x ∈ xs) : ∃ y ∈ ys, R x y := by
  obtain ⟨y, hy, hr⟩ := exists_of_mem_right h.flip hx
  exact ⟨y, hy, hr⟩

/-- Reading the types of all entries of a directory. -/
theorem wp_entryTypes (hp : Plain p) (hd : d.tree.isDir p = true) :
    wp ((d.tree.entries p).mapM' (entryType p)) (fun es d' => Kept d d' ∧ Lists d.tree p es)
      (fun _ _ => d.faults ≠ []) d := by
  have hplain : ∀ n ∈ d.tree.entries p, Plain (p ++ [n]) := by
    intro n hn
    refine Tree.plain_append.mpr ⟨hp, fun m hm => ?_⟩
    rw [List.mem_singleton.mp hm]
    exact (Tree.mem_entries.mp hn).2
  have hstep : ∀ n ∈ d.tree.entries p, ∀ d₁, Kept d d₁ →
      wp (entryType p n)
        (fun e d₂ => Kept d d₂ ∧ e.1 = n ∧ d.tree.node (p ++ [n]) = some e.2)
        (fun _ _ => d.faults ≠ []) d₁ := by
    intro n hn d₁ hk
    obtain ⟨x, hx⟩ := Option.isSome_iff_exists.mp (Tree.mem_entries.mp hn).1
    refine wp_mono (wp_entryType (hplain n hn) (by rw [hk.tree]; exact hx)) (fun e d₂ he => ?_)
      fun _ _ he hf => he (hk.faults hf)
    obtain ⟨hk', rfl⟩ := he
    exact ⟨hk.trans hk', rfl, hx⟩
  refine wp_mono (wp_collect hstep (Kept.refl d)) (fun es d₁ hes => ?_) fun _ _ h => h
  obtain ⟨hk, hall⟩ := hes
  refine ⟨hk, .inl hd, fun n x => ⟨fun hm => ?_, fun ⟨hsp, hx⟩ => ?_⟩⟩
  · obtain ⟨m, hm', rfl, hx⟩ := exists_of_mem_right hall hm
    exact ⟨(Tree.mem_entries.mp hm').2, hx⟩
  · obtain ⟨e, he, rfl, hy⟩ :=
      exists_of_mem_left hall (Tree.mem_entries.mpr ⟨Tree.has_of_node hx, hsp⟩)
    rw [hx] at hy
    cases hy
    exact he

/-- **`readDirOrEmpty` lists a real directory.** -/
theorem wp_readDirOrEmpty (hne : p ≠ []) (hp : Plain p) (hs : d.tree.Straight p.dropLast) :
    wp (readDirOrEmpty p) (fun es d' => Kept d d' ∧ Lists d.tree p es)
      (fun _ _ => d.faults = [] → d.tree.isDir p.dropLast = true →
        d.tree.isDir p = false ∧ d.tree.node p ≠ none) d := by
  rw [readDirOrEmpty, wp_bind, wp_attempt, lstat]
  refine wp_query (fun x d₁ hk hx => ?_) fun e d₁ hk he => ?_
  · have hn := Tree.lstat_ok hne hp hs hx
    cases x with
    | symlink target => exact fun _ _ => ⟨by simp [Tree.isDir, hn, Node.isDir], by simp [hn]⟩
    | file content m => exact fun _ _ => ⟨by simp [Tree.isDir, hn, Node.isDir], by simp [hn]⟩
    | dir m =>
        have hd : d₁.tree.isDir p = true := by
          rw [hk.tree]
          exact Tree.isDir_iff.mpr ⟨m, hn⟩
        have hlist := Tree.readDir_of_isDir hp hd
        show wp (_ >>= _) _ _ d₁
        rw [wp_bind, wp_attempt, readDir]
        refine wp_query (fun names d₂ hk₂ hnames => ?_) fun e d₂ hk₂ he => ?_
        · rw [hlist] at hnames
          cases hnames
          rw [← hk.tree, ← hk₂.tree]
          rw [← hk₂.tree] at hd
          refine wp_mono (wp_entryTypes hp hd) (fun es d₃ hes => ?_) fun _ _ he hf => ?_
          · exact ⟨(hk.trans hk₂).trans hes.1, hes.2⟩
          · exact absurd ((hk.trans hk₂).faults hf) he
        · -- a directory that is there can be listed, so only a fault comes here
          have hraised : ¬ (d₁.tree.readDir p = .error e) := by
            rw [hlist]
            simp
          rcases he with he | ⟨hf, code, rfl⟩
          · exact absurd he hraised
          · exact fun hf' => absurd (hk.faults hf') hf
  · by_cases hnf : e = .notFound
    · subst hnf
      have hnone := Tree.lstat_notFound hne hp hs (he.own (.inr (by simp)))
      refine ⟨hk, .inr hnone, fun n x => ⟨fun hm => absurd hm (by simp), fun hm => ?_⟩⟩
      obtain ⟨_, hx⟩ := hm
      rw [Tree.node_below (by simp) (by simp [Tree.isDir, hnone])] at hx
      cases hx
    · have hfail : d.faults = [] → d.tree.isDir p.dropLast = true →
          d.tree.isDir p = false ∧ d.tree.node p ≠ none := by
        intro hf hd
        have herr := he.own (.inl hf)
        cases hn : d.tree.node p with
        | none =>
            rw [Tree.lstat_of_none hne hp hd hn] at herr
            cases herr
            exact absurd rfl hnf
        | some x =>
            rw [Tree.lstat_of_node hne hp hn] at herr
            cases herr
      cases e <;> first | exact absurd rfl hnf | exact hfail

end Reading

/-! ### The owned files -/

theorem extension_conf {n : Name} :
    extension n = some "conf".toList ↔ ∃ name, name ≠ [] ∧ n = name ++ ".conf".toList := by
  unfold extension
  constructor
  · intro h
    have hdot := List.head?_dropWhile_not (· != '.') n.reverse
    have hcut := List.takeWhile_append_dropWhile (p := (· != '.')) (l := n.reverse)
    split at h
    next a b rest heq =>
      rw [heq] at hdot hcut
      have ha : a = '.' := by simpa using hdot
      rw [Option.some.injEq] at h
      refine ⟨(b :: rest).reverse, by simp, ?_⟩
      have hn := congrArg List.reverse hcut
      rw [List.reverse_reverse, List.reverse_append, h] at hn
      rw [← hn, ha, List.reverse_cons, List.append_assoc]
      rfl
    next => cases h
  · rintro ⟨name, hne, rfl⟩
    obtain ⟨b, rest, hrev⟩ := List.exists_cons_of_ne_nil (List.reverse_ne_nil_iff.mpr hne)
    rw [List.reverse_append, hrev]
    rfl

/-- A generated file that an apply may delete: any but the main configuration. -/
def OwnedFile (home : Home) (t : Tree) (p : Path) : Prop :=
  OwnedPath home p ∧ p ≠ home.mainConf ∧ ∃ content mode, t.node p = some (.file content mode)

/-- The scan roots can be listed or are missing. -/
def Scannable (home : Home) (t : Tree) : Prop :=
  ∀ dir ∈ [home.generated ++ ["nginx".toList, "sites".toList], home.generated ++ ["php".toList]],
    t.isDir dir = true ∨ t.node dir = none

/-- The directories the scan roots are in are real ones. -/
def RootsStraight (home : Home) (t : Tree) : Prop :=
  t.Straight (home.generated ++ ["nginx".toList])

section Owned

variable {home : Home} {d : Disk}

theorem plain_sitesDir (home : Home) : Plain (home.generated ++ ["nginx".toList, "sites".toList]) :=
  Tree.plain_append.mpr ⟨plain_generated home, by decide⟩

theorem plain_phpDir (home : Home) : Plain (home.generated ++ ["php".toList]) :=
  Tree.plain_append.mpr ⟨plain_generated home, by decide⟩

theorem siteFileOf_eq_some {n : Name} {x : Node} {p : Path} :
    siteFileOf (home.generated ++ ["nginx".toList, "sites".toList]) (n, x) = some p ↔
      x.isFile = true ∧ ∃ name, name ≠ [] ∧ n = name ++ ".conf".toList ∧ p = home.siteConf name := by
  have hpath : ∀ name : Name, home.generated ++ ["nginx".toList, "sites".toList] ++
      [name ++ ".conf".toList] = home.siteConf name := by simp [Home.siteConf]
  unfold siteFileOf
  constructor
  · intro h
    split at h
    next hc =>
      cases h
      simp only [Bool.and_eq_true, beq_iff_eq] at hc
      obtain ⟨name, hname, rfl⟩ := extension_conf.mp hc.2
      exact ⟨hc.1, name, hname, rfl, hpath name⟩
    next => cases h
  · rintro ⟨hfile, name, hname, rfl, rfl⟩
    simp only [hfile, extension_conf.mpr ⟨name, hname, rfl⟩, hpath, beq_self_eq_true, Bool.and_self,
      if_true]

theorem isFile_iff {x : Node} : x.isFile = true ↔ ∃ content mode, x = .file content mode := by
  cases x <;> simp [Node.isFile]

theorem wp_poolOf {n : Name} {x : Node} (hn : special n = false)
    (hx : d.tree.node (home.generated ++ ["php".toList, n]) = some x) :
    wp (poolOf (home.generated ++ ["php".toList]) (n, x))
      (fun r d' => Kept d d' ∧
        (∀ q, r = some q → q = home.poolConf n ∧ OwnedFile home d.tree q) ∧
        (d.faults = [] → OwnedFile home d.tree (home.poolConf n) → r = some (home.poolConf n)))
      (fun _ _ => False) d := by
  have hpath : home.generated ++ ["php".toList] ++ [n, "php-fpm.conf".toList] = home.poolConf n := by
    simp [Home.poolConf]
  have howned : OwnedPath home (home.poolConf n) := .pool hn
  have hparent : (home.poolConf n).dropLast = home.generated ++ ["php".toList, n] := by
    simp [Home.poolConf]
  unfold poolOf
  by_cases hdir : x.isDir = true
  · have hd : d.tree.isDir (home.poolConf n).dropLast = true := by
      rw [hparent, Tree.isDir, hx]
      exact hdir
    rw [if_pos hdir]
    simp only [hpath]
    rw [wp_bind, wp_attempt, lstat]
    refine wp_query (fun y d₁ hk hy => ?_) fun e d₁ hk he => ?_
    · have hnode := Tree.lstat_ok howned.ne_nil howned.plain (Tree.straight_of_isDir hd) hy
      refine ⟨hk, ?_, ?_⟩
      · intro q hq
        split at hq
        next hfile =>
          cases hq
          refine ⟨rfl, howned, mainConf_ne_poolConf.symm, ?_⟩
          cases y with
          | file content mode => exact ⟨content, mode, hnode⟩
          | dir m => cases hfile
          | symlink target => cases hfile
        next => cases hq
      · rintro - ⟨-, -, content, mode, hc⟩
        rw [hnode] at hc
        cases hc
        rfl
    · refine ⟨hk, by simp, ?_⟩
      rintro hf ⟨-, -, content, mode, hc⟩
      exact absurd hc (lstat_raised howned.ne_nil howned.plain he hf)
  · rw [if_neg hdir]
    refine ⟨Kept.refl d, by simp, ?_⟩
    rintro - ⟨-, -, content, mode, hc⟩
    have := Tree.isDir_dropLast (Tree.has_of_node hc)
    rw [hparent, Tree.isDir, hx] at this
    exact absurd this hdir

/-- **`ownedFiles` finds owned files**, and without faults all of them. -/
theorem wp_ownedFiles (hs : RootsStraight home d.tree) :
    wp (ownedFiles home.generated)
      (fun ps d' => Kept d d' ∧ (∀ p ∈ ps, OwnedFile home d.tree p) ∧ Scannable home d.tree ∧
        (d.faults = [] → ∀ p, OwnedFile home d.tree p → p ∈ ps))
      (fun _ _ => d.faults = [] → d.tree.isDir (home.generated ++ ["nginx".toList]) = true →
        ¬ Scannable home d.tree) d := by
  have hne : home.generated ++ ["nginx".toList, "sites".toList] ≠ [] := by simp
  have hne' : home.generated ++ ["php".toList] ≠ [] := by simp
  have hdrop : (home.generated ++ ["nginx".toList, "sites".toList]).dropLast =
      home.generated ++ ["nginx".toList] := by simp
  have hsite : ∀ name : Name, home.generated ++ ["nginx".toList, "sites".toList] ++
      [name ++ ".conf".toList] = home.siteConf name := by simp [Home.siteConf]
  have hgen : d.tree.Straight home.generated := hs.above (List.prefix_append _ _)
  unfold ownedFiles
  rw [wp_bind]
  refine wp_mono (wp_readDirOrEmpty hne (plain_sitesDir home) (by rw [hdrop]; exact hs))
    (fun entries d₁ hlist => ?_) fun _ _ he hf hd hscan => ?_
  · obtain ⟨hk, hroot, hentries⟩ := hlist
    rw [wp_bind]
    refine wp_mono (wp_readDirOrEmpty (d := d₁) hne' (plain_phpDir home)
      (by rw [List.dropLast_concat, hk.tree]; exact hgen)) (fun majors d₂ hlist => ?_)
      fun _ _ he hf hd hscan => ?_
    · obtain ⟨hk₂, hroot₂, hmajors⟩ := hlist
      rw [hk.tree] at hroot₂ hmajors
      have hkept := hk.trans hk₂
      rw [wp_bind]
      have hstep : ∀ e ∈ majors, ∀ d₃, Kept d d₃ →
          wp (poolOf (home.generated ++ ["php".toList]) e)
            (fun r d₄ => Kept d d₄ ∧
              (∀ q, r = some q → q = home.poolConf e.1 ∧ OwnedFile home d.tree q) ∧
              (d.faults = [] → OwnedFile home d.tree (home.poolConf e.1) →
                r = some (home.poolConf e.1))) (fun _ _ => False) d₃ := by
        rintro ⟨n, x⟩ he d₃ hk₃
        obtain ⟨hsp, hx⟩ := (hmajors n x).mp he
        rw [List.append_assoc] at hx
        refine wp_mono (wp_poolOf hsp (by rw [hk₃.tree]; exact hx)) (fun r d₄ hr => ?_)
          fun _ _ h => h
        rw [hk₃.tree] at hr
        exact ⟨hk₃.trans hr.1, hr.2.1, fun hf => hr.2.2 (hk₃.faults hf)⟩
      refine wp_mono (wp_collect hstep hkept) (fun pools d₃ hpools => ?_)
        fun _ _ h => h.elim
      obtain ⟨hk₃, hall⟩ := hpools
      refine ⟨hk₃, ?_, ?_, ?_⟩
      · intro p hp
        rw [mem_sortByPath, List.mem_append, List.mem_filterMap, List.mem_filterMap] at hp
        rcases hp with ⟨⟨n, x⟩, he, hp⟩ | ⟨r, hr, hp⟩
        · obtain ⟨hsp, hx⟩ := (hentries n x).mp he
          obtain ⟨hfile, name, hname, rfl, rfl⟩ := siteFileOf_eq_some.mp hp
          obtain ⟨content, mode, rfl⟩ := isFile_iff.mp hfile
          rw [hsite] at hx
          exact ⟨.site hname hsp, mainConf_ne_siteConf.symm, content, mode, hx⟩
        · obtain ⟨e, -, hfound, -⟩ := exists_of_mem_right hall hr
          exact (hfound p hp).2
      · intro dir hdir
        rcases List.mem_pair.mp hdir with rfl | rfl
        · exact hroot
        · exact hroot₂
      · intro hf p hp
        rw [mem_sortByPath, List.mem_append, List.mem_filterMap, List.mem_filterMap]
        obtain ⟨howned, hmain, content, mode, hc⟩ := hp
        cases howned with
        | main => exact absurd rfl hmain
        | @site name hname hsp =>
            left
            exact ⟨(name ++ ".conf".toList, .file content mode),
              (hentries _ _).mpr ⟨hsp, by rw [hsite]; exact hc⟩,
              siteFileOf_eq_some.mpr ⟨rfl, name, hname, rfl, rfl⟩⟩
        | @pool major hsp =>
            right
            have hdir := Tree.isDir_dropLast (Tree.has_of_node hc)
            obtain ⟨m, hm⟩ := Tree.isDir_iff.mp hdir
            have hparent : (home.poolConf major).dropLast =
                home.generated ++ ["php".toList] ++ [major] := by simp [Home.poolConf]
            rw [hparent] at hm
            obtain ⟨r, hr, -, hfound⟩ :=
              exists_of_mem_left hall ((hmajors major (.dir m)).mpr ⟨hsp, hm⟩)
            exact ⟨r, hr, hfound hf ⟨.pool hsp, hmain, content, mode, hc⟩⟩
    · -- the pool root is in the way
      rw [hk.tree, List.dropLast_concat] at he
      have hphp := hscan (home.generated ++ ["php".toList]) (by simp)
      obtain ⟨h₁, h₂⟩ := he (hk.faults hf) (Tree.isDir_above (List.prefix_append _ _) hd)
      rcases hphp with h | h
      · rw [h] at h₁
        cases h₁
      · exact h₂ h
  · have hsites := hscan (home.generated ++ ["nginx".toList, "sites".toList]) (by simp)
    obtain ⟨h₁, h₂⟩ := he hf (by rw [hdrop]; exact hd)
    rcases hsites with h | h
    · rw [h] at h₁
      cases h₁
    · exact h₂ h

end Owned

/-! ### What a plan is -/

/-- A log directory: two components below the home's `logs`. -/
def LogDir (home : Home) (dir : Path) : Prop :=
  ∃ a b, dir = LogPaths.root home ++ [a, b] ∧ special a = false ∧ special b = false

section LogDirs

variable {home : Home} {dir : Path}

theorem LogDir.plain (h : LogDir home dir) : Plain dir := by
  obtain ⟨a, b, rfl, ha, hb⟩ := h
  refine Tree.plain_append.mpr ⟨Tree.plain_append.mpr ⟨home.plain, by decide⟩, ?_⟩
  intro n hn
  rcases List.mem_pair.mp hn with rfl | rfl
  · exact ha
  · exact hb

theorem poolLogDir_ok {rt : PhpRuntime} (h : poolLogDir home rt = .ok dir) :
    validPhpVersion rt.major = true ∧ LogDir home dir := by
  unfold poolLogDir PhpVersion.parse at h
  split at h
  next v hv =>
    cases h
    split at hv
    next hvalid =>
      refine ⟨hvalid, "services".toList, "php-fpm-".toList ++ v.asStr, ?_, by decide, ?_⟩
      · simp [LogPaths.phpFpmError]
      · exact (v.oneName_append (by decide)).2
    next => split at hv <;> cases hv
  next => cases h

theorem siteDir_logDir (d : Domain) : LogDir home (LogPaths.siteDir home d) :=
  ⟨"sites".toList, d.asStr, rfl, by decide, d.oneName_asStr.2⟩

theorem logDirs_ok [Uuid] {input : ApplyInput} {dirs : List Path} (h : logDirs input = .ok dirs) :
    MajorsValid input ∧ ∀ dir ∈ dirs, LogDir input.home dir := by
  obtain ⟨pools, hpools, h⟩ := bind_eq_ok.mp h
  cases h
  constructor
  · intro rt hrt
    obtain ⟨dir, hdir⟩ := exists_of_mapM' hpools hrt
    exact (poolLogDir_ok hdir).1
  · intro dir hdir
    rw [mem_sortByPath, List.mem_append, mem_mapM' hpools, List.mem_map] at hdir
    rcases hdir with ⟨rt, -, hrt⟩ | ⟨site, -, rfl⟩
    · exact (poolLogDir_ok hrt).2
    · exact siteDir_logDir _

end LogDirs

section Plan

variable [Uuid] [Tera]

/-- Why a plan has a change: a desired file that is not there as it should be,
or an owned file that is not desired. -/
inductive Planned (input : ApplyInput) (t : Tree) (c : FileChange) : Prop where
  | wanted {f : GeneratedFile} (rendered : Rendered input f) (path : c.path = f.path)
      (after : c.after = some f.contents) (before : Holds t c.path c.before)
      (kind : c.kind = if c.before.isNone then .added else .modified) (differs : c.before ≠ c.after)
  | stale (owned : OwnedFile input.home t c.path)
      (undesired : ∀ f, Rendered input f → f.path ≠ c.path) (after : c.after = none)
      (before : Holds t c.path c.before) (kind : c.kind = .removed)

/-- What `plan` makes of a tree; `quiet` says that no operation failed. -/
structure PlanOf (input : ApplyInput) (quiet : Prop) (t : Tree) (p : ApplyPlan) : Prop where
  rendered : ∃ files, renderSet input = .ok files
  logDirs : logDirs input = .ok p.logDirs
  planned : ∀ c ∈ p.changes, Planned input t c
  wanted : ∀ f, Rendered input f → Holds t f.path (some f.contents) ∨
    ∃ c ∈ p.changes, c.path = f.path ∧ c.after = some f.contents
  stale : quiet → ∀ q, OwnedFile input.home t q → (∀ f, Rendered input f → f.path ≠ q) →
    ∃ c ∈ p.changes, c.path = q
  scannable : Scannable input.home t

/-- No link sits above a rendered file. -/
def NoLinks (input : ApplyInput) (t : Tree) : Prop :=
  ∀ f, Rendered input f → t.Straight f.path.dropLast

/-- The tree already is what the sites make of it. -/
structure Settled (input : ApplyInput) (t : Tree) : Prop where
  rendered : ∃ files, renderSet input = .ok files
  logDirs : ∃ dirs, logDirs input = .ok dirs
  held : ∀ f, Rendered input f → Holds t f.path (some f.contents)
  owned : ∀ q, OwnedFile input.home t q → ∃ f, Rendered input f ∧ f.path = q
  scannable : Scannable input.home t

variable {input : ApplyInput} {d : Disk}

theorem wp_desiredChange {f : GeneratedFile} (hf : Rendered input f)
    (howned : OwnedPath input.home f.path) (hs : d.tree.Straight f.path.dropLast) :
    wp (desiredChange f)
      (fun r d' => Kept d d' ∧ (∀ c, r = some c → Planned input d.tree c ∧ c.path = f.path ∧
          c.after = some f.contents) ∧
        (r = none → Holds d.tree f.path (some f.contents)))
      (fun _ _ => d.faults = [] → ∀ s, ¬ Holds d.tree f.path (some s)) d := by
  unfold desiredChange
  rw [wp_bind]
  refine wp_mono (wp_readIfExists howned.ne_nil howned.plain hs) (fun r d₁ hr => ?_) fun _ _ h => h
  obtain ⟨hk, hold⟩ := hr
  cases r with
  | none =>
      refine ⟨hk, ?_, by simp⟩
      rintro c hc
      cases hc
      exact ⟨.wanted hf rfl rfl hold rfl (by simp), rfl, rfl⟩
  | some b =>
      by_cases hb : b = f.contents
      · subst hb
        refine ⟨hk, by simp, fun _ => hold⟩
      · refine ⟨hk, ?_, by simp [hb]⟩
        rintro c hc
        rw [if_neg hb] at hc
        cases hc
        exact ⟨.wanted hf rfl rfl hold rfl (by simpa using hb), rfl, rfl⟩

theorem wp_staleChange {files : List GeneratedFile} (hfiles : renderSet input = .ok files) {q : Path}
    (howned : OwnedFile input.home d.tree q) :
    wp (staleChange files q)
      (fun r d' => Kept d d' ∧ (∀ c, r = some c → Planned input d.tree c ∧ c.path = q) ∧
        (r = none → ∃ f, Rendered input f ∧ f.path = q))
      (fun _ _ => ∀ f, Rendered input f → f.path ≠ q) d := by
  unfold staleChange
  by_cases hany : files.any (fun f => f.path == q) = true
  · rw [if_pos hany]
    refine ⟨Kept.refl d, by simp, fun _ => ?_⟩
    obtain ⟨f, hf, heq⟩ := List.any_eq_true.mp hany
    exact ⟨f, (mem_renderSet hfiles).mp hf, beq_iff_eq.mp heq⟩
  · have hun : ∀ f, Rendered input f → f.path ≠ q := by
      intro f hf heq
      refine hany (List.any_eq_true.mpr ⟨f, (mem_renderSet hfiles).mpr hf, ?_⟩)
      exact beq_iff_eq.mpr heq
    rw [if_neg hany, wp_bind]
    obtain ⟨content, mode, hc⟩ := howned.2.2
    have hs := Tree.straight_of_isDir (Tree.isDir_dropLast (Tree.has_of_node hc))
    refine wp_mono (wp_readIfExists howned.1.ne_nil howned.1.plain hs) (fun r d₁ hr => ?_)
      fun _ _ _ => hun
    refine ⟨hr.1, ?_, by simp⟩
    rintro c hc
    cases hc
    exact ⟨.stale howned hun rfl hr.2 rfl, rfl⟩

/-- The scan roots are straight where no link sits above the rendered files. -/
theorem rootsStraight {files : List GeneratedFile} (h : renderSet input = .ok files)
    (hn : NoLinks input d.tree) : RootsStraight input.home d.tree := by
  obtain ⟨f, hf, hpath⟩ := (exists_rendered h).1
  have := hn f hf
  rw [hpath] at this
  simpa [RootsStraight, Home.mainConf] using this

/-- **A plan is read off the tree**, and in a tree that is settled already it
does not fail. -/
theorem wp_plan (hv : MajorsValid input) (hn : NoLinks input d.tree) :
    wp (plan input) (fun p d' => Kept d d' ∧ PlanOf input (d.faults = []) d.tree p)
      (fun _ _ => d.faults = [] → ¬ Settled input d.tree) d := by
  unfold plan
  rw [wp_bind, wp_ofExcept]
  cases hfiles : renderSet input with
  | error e =>
      intro _ hset
      obtain ⟨files, h⟩ := hset.rendered
      rw [hfiles] at h
      cases h
  | ok files =>
      have hmem : ∀ {f}, f ∈ files ↔ Rendered input f := mem_renderSet hfiles
      show wp (_ >>= _) _ _ d
      rw [wp_bind]
      have hdesired : ∀ f ∈ files, ∀ d₁, Kept d d₁ → wp (desiredChange f)
          (fun r d₂ => Kept d d₂ ∧ ((∀ c, r = some c → Planned input d.tree c ∧ c.path = f.path ∧
              c.after = some f.contents) ∧
            (r = none → Holds d.tree f.path (some f.contents))))
          (fun _ _ => d.faults = [] → ¬ Settled input d.tree) d₁ := by
        intro f hf d₁ hk
        have hr := hmem.mp hf
        refine wp_mono (wp_desiredChange hr (hr.owned hv) (by rw [hk.tree]; exact hn f hr))
          (fun r d₂ h => ?_) fun _ _ h hq hset => ?_
        · rw [hk.tree] at h
          exact ⟨hk.trans h.1, h.2⟩
        · rw [hk.tree] at h
          exact h (hk.faults hq) _ (hset.held f hr)
      refine wp_mono (wp_collect hdesired (Kept.refl d)) (fun wanted d₁ hw => ?_) fun _ _ h => h
      obtain ⟨hk₁, hwanted⟩ := hw
      rw [wp_bind]
      refine wp_mono (wp_ownedFiles (by rw [hk₁.tree]; exact rootsStraight hfiles hn))
        (fun owned d₂ ho => ?_) fun _ _ h hq hset => ?_
      · obtain ⟨hk₂, howned, hscan, hall⟩ := ho
        rw [hk₁.tree] at howned hscan hall
        have hkept := hk₁.trans hk₂
        rw [wp_bind]
        have hstale : ∀ q ∈ owned, ∀ d₃, Kept d d₃ → wp (staleChange files q)
            (fun r d₄ => Kept d d₄ ∧ ((∀ c, r = some c → Planned input d.tree c ∧ c.path = q) ∧
              (r = none → ∃ f, Rendered input f ∧ f.path = q)))
            (fun _ _ => d.faults = [] → ¬ Settled input d.tree) d₃ := by
          intro q hq d₃ hk
          refine wp_mono (wp_staleChange hfiles (by rw [hk.tree]; exact howned q hq))
            (fun r d₄ h => ?_) fun _ _ h _ hset => ?_
          · rw [hk.tree] at h
            exact ⟨hk.trans h.1, h.2⟩
          · obtain ⟨f, hf, heq⟩ := hset.owned q (howned q hq)
            exact h f hf heq
        refine wp_mono (wp_collect hstale hkept) (fun stale d₃ hs => ?_) fun _ _ h => h
        obtain ⟨hk₃, hstales⟩ := hs
        rw [wp_bind, wp_ofExcept]
        cases hdirs : logDirs input with
        | error e =>
            intro _ hset
            obtain ⟨dirs, h⟩ := hset.logDirs
            rw [hdirs] at h
            cases h
        | ok dirs =>
            refine ⟨hk₃, ⟨files, hfiles⟩, hdirs, fun c hc => ?_, fun f hf => ?_,
              fun hq q hown hun => ?_, hscan⟩
            · rw [mem_sortByPath, List.mem_append, List.mem_filterMap, List.mem_filterMap] at hc
              rcases hc with ⟨r, hr, rfl⟩ | ⟨r, hr, rfl⟩
              · obtain ⟨f, -, hc, -⟩ := exists_of_mem_right hwanted hr
                exact (hc c rfl).1
              · obtain ⟨q, -, hc, -⟩ := exists_of_mem_right hstales hr
                exact (hc c rfl).1
            · obtain ⟨r, hr, hc, hnone⟩ := exists_of_mem_left hwanted (hmem.mpr hf)
              cases r with
              | none => exact .inl (hnone rfl)
              | some c =>
                  refine .inr ⟨c, ?_, (hc c rfl).2⟩
                  rw [mem_sortByPath, List.mem_append, List.mem_filterMap]
                  exact .inl ⟨_, hr, rfl⟩
            · obtain ⟨r, hr, hc, hnone⟩ := exists_of_mem_left hstales
                (hall (hk₁.faults hq) q hown)
              cases r with
              | none =>
                  obtain ⟨f, hf, heq⟩ := hnone rfl
                  exact absurd heq (hun f hf)
              | some c =>
                  refine ⟨c, ?_, (hc c rfl).2⟩
                  rw [mem_sortByPath, List.mem_append, List.mem_filterMap, List.mem_filterMap]
                  exact .inr ⟨_, hr, rfl⟩
      · rw [hk₁.tree] at h
        refine h (hk₁.faults hq) ?_ hset.scannable
        obtain ⟨f, hf, hpath⟩ := (exists_rendered hfiles).1
        obtain ⟨mode, hc⟩ := hset.held f hf
        have := Tree.isDir_dropLast (Tree.has_of_node hc)
        rw [hpath] at this
        simpa [Home.mainConf] using this

/-- A plan is only made for majors that are versions. -/
theorem majorsValid_of_plan {p : ApplyPlan} {d' : Disk} (h : plan input d = .ok p d') :
    MajorsValid input := by
  refine Gives.bind (Gives.any _) (fun _ _ => ?_) d p d' h (P := fun _ => MajorsValid input)
  refine Gives.bind (Gives.any _) fun _ _ => ?_
  refine Gives.bind (Gives.any _) fun _ _ => ?_
  refine Gives.bind (Gives.any _) fun _ _ => ?_
  refine Gives.bind (Gives.ofExcept fun _ hdirs => (logDirs_ok hdirs).1) fun _ hv => ?_
  exact Gives.pure hv

/-- What a plan that was made is. -/
theorem planOf_of_plan (hn : NoLinks input d.tree) {p : ApplyPlan} {d' : Disk}
    (h : plan input d = .ok p d') : Kept d d' ∧ PlanOf input (d.faults = []) d.tree p :=
  wp_ok (wp_plan (majorsValid_of_plan h) hn) h

end Plan

end OpenVHost.Site
