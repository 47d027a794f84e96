/-
# The PATH of the login shell

What the login shell answers, whether a directory is on its PATH, and the line that is to be added
to its profile.

* `wp_pathStatus` — `onPath` is said of a directory only where an element of PATH names it, and
  where no lookup fails also whenever one does.
* `advice_followed` — the line that is printed does what it is to do, once it is in the profile.
-/

import OpenVHost.Clitool.Twice
import OpenVHost.Conf.SettingsParse
import OpenVHost.Text.Shell
import OpenVHost.Text.Utf8

namespace OpenVHost.Clitool

open FileTree FileTree.Io Text

/-! ### What the login shell answers -/

inductive PathStatusProbe where
  | resolved (path : List Char)
  | failed (reason : List Char)
  deriving DecidableEq, Repr

/-- The script the login shell is run with. -/
def pathScript : List Char := "printf %s \"$PATH\"".toList

def maxPathBytes : Nat := 128 * 1024

/-- How a run of the shell ends. -/
inductive ShellRun where
  | notSpawned (error : List Char)
  | unreadable (error : List Char)
  | timedOut
  | exited (success : Bool) (status : List Char) (stdout stderr : List UInt8)

/-- At most 200 characters of what a shell complained about. -/
def stderrTail (stderr : List UInt8) : List Char :=
  let trimmed := trim Conf.isWhitespace (fromUtf8Lossy stderr)
  if trimmed.isEmpty then [] else ": ".toList ++ trimmed.take 200

def probeShellPath (shell : List Char) (run : ShellRun) : PathStatusProbe :=
  if !isAbsolute shell then
    .failed ("SHELL (".toList ++ shell ++ ") is not an absolute path".toList)
  else
    match run with
    | .notSpawned error => .failed ("could not run ".toList ++ shell ++ ": ".toList ++ error)
    | .exited true _ stdout _ =>
        if maxPathBytes < stdout.length then
          .failed (shell ++ " printed ".toList ++ (toString stdout.length).toList ++
            " bytes, which is not a PATH".toList)
        else .resolved (fromUtf8Lossy stdout)
    | .exited false status _ stderr =>
        .failed (shell ++ " -l exited with ".toList ++ status ++ stderrTail stderr)
    | .unreadable error =>
        .failed ("could not read the output of ".toList ++ shell ++ ": ".toList ++ error)
    | .timedOut => .failed (shell ++ " did not answer within 2 seconds".toList)

/-- The probe of the shell that the environment names. -/
def loginShellPath (shell : Option (List Char)) (run : ShellRun) : PathStatusProbe :=
  match shell.filter fun s => !s.isEmpty with
  | some shell => probeShellPath shell run
  | none => .failed "the SHELL environment variable is not set".toList

/-- A text that is not too long is the answer as it was printed. -/
theorem loginShellPath_printed {shell path status : List Char} {stderr : List UInt8}
    (hshell : isAbsolute shell = true) (hlen : utf8Len path ≤ maxPathBytes) :
    loginShellPath (some shell) (.exited true status (utf8 path) stderr) = .resolved path := by
  have hne : shell.isEmpty = false := by
    cases shell with
    | nil => cases hshell
    | cons c s => rfl
  have hfilter : (some shell).filter (fun s => !s.isEmpty) = some shell := by
    simp [Option.filter, hne]
  rw [loginShellPath, hfilter]
  dsimp only
  rw [probeShellPath, hshell, if_neg (by simp)]
  show (if maxPathBytes < utf8Len path then _ else _) = _
  rw [if_neg (Nat.not_lt.mpr hlen), fromUtf8Lossy_utf8]

/-! ### Membership -/

/-- `Path::display`. -/
def display (p : Path) : List Char := if p.isEmpty then ['/'] else p.flatMap fun n => '/' :: n

/-- The elements of a PATH that are not empty. -/
def pathElements (path : List Char) : List (List Char) :=
  (path.splitOn ':').filter fun e => !e.isEmpty

namespace Machine

variable (m : Machine)

/-- Device and inode of the directory that a path leads to. -/
def dirIdentity {ε : Type} (p : Path) : Io ε (Option (Nat × Nat)) := do
  match ← attempt (permitted (m.follow p)
      (query fun t => (t.resolve p).map fun q => (q, t.isDir q))) with
  | .ok (q, true) => pure (some (m.inode q))
  | .ok (_, false) => pure none
  | .error _ => pure none

/-- The loop over the elements; `wanted` is the directory's own identity. -/
def containsFrom {ε : Type} (cwd dir : Path) (wanted : Nat × Nat) : List (List Char) → Io ε Bool
  | [] => pure false
  | element :: rest => do
      if isAbsolute element && Conf.components element == Conf.components (display dir) then
        pure true
      else if (← m.dirIdentity (Conf.joinPath cwd element)) == some wanted then pure true
      else containsFrom cwd dir wanted rest

/-- Whether an element of a PATH names the directory. -/
def pathContainsDir {ε : Type} (cwd : Path) (path : List Char) (dir : Path) : Io ε Bool := do
  match ← m.dirIdentity dir with
  | none => pure false
  | some wanted => m.containsFrom cwd dir wanted (pathElements path)

end Machine

/-! ### What to tell the user -/

inductive ShellKind where
  | zsh
  | bash
  | unknown
  deriving DecidableEq, Repr

def shellKind (shell : Option (List Char)) : ShellKind :=
  match shell.bind fun s => (Conf.components s).getLast? with
  | some name =>
      if name = "zsh".toList then .zsh else if name = "bash".toList then .bash else .unknown
  | none => .unknown

def profileFor (kind : ShellKind) (home : Option Path) : List Char :=
  let name := match kind with
    | .zsh => ".zprofile".toList
    | .bash => ".bash_profile".toList
    | .unknown => ".profile".toList
  match home with
  | some home => display (home ++ [name])
  | none => name

/-- Escape what is still special between double quotes. -/
def shDoubleQuoteEscape (dir : Path) : List Char :=
  (display dir).flatMap fun c =>
    if c == '"' || c == '\\' || c == '$' || c == '\x60' then ['\\', c] else [c]

def exportLine (dir : Path) : List Char :=
  "export PATH=\"".toList ++ shDoubleQuoteEscape dir ++ ":$PATH\"".toList

inductive PathStatus where
  | onPath
  | notOnPath (exportLine profile : List Char)
  | unknown (reason exportLine profile : List Char)
  deriving DecidableEq, Repr

def pathStatus (m : Machine) (cwd dir : Path) (probe : PathStatusProbe)
    (shell : Option (List Char)) (home : Option Path) : Io Empty PathStatus :=
  match probe with
  | .resolved path => do
      if ← m.pathContainsDir cwd path dir then pure .onPath
      else pure (.notOnPath (exportLine dir) (profileFor (shellKind shell) home))
  | .failed reason => pure (.unknown reason (exportLine dir) (profileFor (shellKind shell) home))

def notProbed : List Char :=
  "the login shell's PATH was not checked here; that check runs when you install".toList

def unprobedStatus (dir : Path) (shell : Option (List Char)) (home : Option Path) : PathStatus :=
  .unknown notProbed (exportLine dir) (profileFor (shellKind shell) home)

/-! ### The verdict -/

/-- The identity of the directory that a path leads to, where the process may see it. -/
def Machine.identity (m : Machine) (t : Tree) (p : Path) : Option (Nat × Nat) :=
  if m.follow p = none then
    match t.resolve p with
    | .ok q => if t.isDir q then some (m.inode q) else none
    | .error _ => none
  else none

/-- An element of a PATH names a directory: it is spelled the same, or it is the same. -/
def Names (m : Machine) (cwd dir : Path) (t : Tree) (element : List Char) : Prop :=
  (isAbsolute element = true ∧ Conf.components element = Conf.components (display dir)) ∨
    m.identity t (Conf.joinPath cwd element) = m.identity t dir

/-- A directory that is there, and that an element of a PATH names. -/
def OnPath (m : Machine) (cwd dir : Path) (t : Tree) (path : List Char) : Prop :=
  m.identity t dir ≠ none ∧ ∃ element ∈ pathElements path, Names m cwd dir t element

section Verdict

variable {m : Machine} {cwd dir : Path} {d : Disk} {ε : Type} {E : ε → Disk → Prop}

theorem wp_dirIdentity {p : Path} {Q : Option (Nat × Nat) → Disk → Prop}
    (h : ∀ id d', Kept d d' → (id ≠ none → id = m.identity d.tree p) →
      (d.faults = [] → id = m.identity d.tree p) → Q id d') :
    wp (m.dirIdentity p) Q E d := by
  rw [Machine.dirIdentity, wp_bind, wp_attempt]
  refine wp_permitted (fun hfollow => ?_) fun code hcode => ?_
  · refine wp_query (fun a d' hk ha => ?_) fun e d' hk he => ?_
    · obtain ⟨q, isDir⟩ := a
      obtain ⟨q', hq, hpair⟩ : ∃ q', d.tree.resolve p = .ok q' ∧
          (q', d.tree.isDir q') = (q, isDir) := by
        cases hr : d.tree.resolve p with
        | error e => simp [hr, Except.map] at ha
        | ok q' => exact ⟨q', rfl, by simpa [hr, Except.map] using ha⟩
      obtain ⟨rfl, rfl⟩ := Prod.mk.inj hpair
      have hid : m.identity d.tree p = if d.tree.isDir q' then some (m.inode q') else none := by
        rw [Machine.identity, if_pos hfollow, hq]
      cases hd : d.tree.isDir q' with
      | true =>
          rw [hd, if_pos rfl] at hid
          exact h _ d' hk (fun _ => hid.symm) fun _ => hid.symm
      | false =>
          rw [hd, if_neg (by simp)] at hid
          exact h _ d' hk (fun _ => hid.symm) fun _ => hid.symm
    · refine h none d' hk (fun hne => absurd rfl hne) fun hquiet => ?_
      have hown := he.own (.inl hquiet)
      rw [Machine.identity, if_pos hfollow]
      cases hr : d.tree.resolve p with
      | error e => rfl
      | ok q => simp [hr, Except.map] at hown
  · refine h none d (Kept.refl d) (fun hne => absurd rfl hne) fun _ => ?_
    rw [Machine.identity, if_neg (by simp [hcode])]

theorem wp_containsFrom {wanted : Nat × Nat} (hwanted : m.identity d.tree dir = some wanted)
    {elements : List (List Char)} :
    wp (m.containsFrom cwd dir wanted elements)
      (fun b d' => Kept d d' ∧
        (b = true → ∃ element ∈ elements, Names m cwd dir d.tree element) ∧
        (d.faults = [] → (∃ element ∈ elements, Names m cwd dir d.tree element) → b = true))
      E d := by
  induction elements generalizing d with
  | nil =>
      refine ⟨Kept.refl d, nofun, ?_⟩
      rintro - ⟨element, hmem, -⟩
      cases hmem
  | cons element rest ih =>
      rw [Machine.containsFrom]
      split
      next hspelled =>
        have hnames : Names m cwd dir d.tree element := .inl (by simpa using hspelled)
        exact ⟨Kept.refl d, fun _ => ⟨element, List.mem_cons_self, hnames⟩, fun _ _ => rfl⟩
      next hspelled =>
        rw [wp_bind]
        refine wp_dirIdentity fun id d₁ hk hsome hquiet => ?_
        split
        next hid =>
          have hid : id = some wanted := by simpa using hid
          have hnames : Names m cwd dir d.tree element :=
            .inr ((hsome (by simp [hid])).symm.trans (hid.trans hwanted.symm))
          exact ⟨hk, fun _ => ⟨element, List.mem_cons_self, hnames⟩, fun _ _ => rfl⟩
        next hid =>
          refine wp_mono (ih (hk.tree ▸ hwanted)) (fun b d₂ h => ?_) fun _ _ h => h
          obtain ⟨hk₂, htrue, hfalse⟩ := h
          rw [hk.tree] at htrue hfalse
          refine ⟨hk.trans hk₂, fun hb => ?_, fun hq hex => ?_⟩
          · obtain ⟨element', hmem, hnames⟩ := htrue hb
            exact ⟨element', List.mem_cons_of_mem _ hmem, hnames⟩
          · obtain ⟨element', hmem, hnames⟩ := hex
            rcases List.mem_cons.mp hmem with rfl | hmem
            · exfalso
              rcases hnames with hsame | hsame
              · exact hspelled (by simpa using hsame)
              · apply hid
                rw [hquiet hq, hsame, hwanted]
                exact beq_self_eq_true _
            · exact hfalse (hk.faults hq) ⟨element', hmem, hnames⟩

theorem wp_pathContainsDir {path : List Char} :
    wp (m.pathContainsDir cwd path dir)
      (fun b d' => Kept d d' ∧ (b = true → OnPath m cwd dir d.tree path) ∧
        (d.faults = [] → OnPath m cwd dir d.tree path → b = true)) E d := by
  rw [Machine.pathContainsDir, wp_bind]
  refine wp_dirIdentity fun id d₁ hk hsome hquiet => ?_
  cases id with
  | none =>
      refine ⟨hk, nofun, fun hq hon => ?_⟩
      exact absurd (hquiet hq).symm hon.1
  | some wanted =>
      have hwanted : m.identity d.tree dir = some wanted := (hsome (by simp)).symm
      refine wp_mono (wp_containsFrom (hk.tree ▸ hwanted)) (fun b d₂ h => ?_) fun _ _ h => h
      obtain ⟨hk₂, htrue, hfalse⟩ := h
      rw [hk.tree] at htrue hfalse
      refine ⟨hk.trans hk₂, fun hb => ⟨by simp [hwanted], htrue hb⟩, fun hq hon => ?_⟩
      exact hfalse (hk.faults hq) hon.2

/-- **What a verdict says**, and that nothing is changed for it. -/
theorem wp_pathStatus {probe : PathStatusProbe} {shell : Option (List Char)} {home : Option Path} :
    wp (pathStatus m cwd dir probe shell home)
      (fun status d' => Kept d d' ∧
        (status = .onPath → ∃ path, probe = .resolved path ∧ OnPath m cwd dir d.tree path) ∧
        ∀ path, probe = .resolved path → d.faults = [] → OnPath m cwd dir d.tree path →
          status = .onPath) (fun _ _ => False) d := by
  cases probe with
  | failed reason => exact ⟨Kept.refl d, nofun, nofun⟩
  | resolved path =>
      rw [pathStatus, wp_bind]
      refine wp_mono wp_pathContainsDir (fun b d₁ h => ?_) fun _ _ h => h
      obtain ⟨hk, htrue, hfalse⟩ := h
      cases b with
      | true =>
          refine ⟨hk, fun _ => ⟨path, rfl, htrue rfl⟩, fun _ _ _ _ => rfl⟩
      | false =>
          refine ⟨hk, nofun, fun path' hpath hq hon => ?_⟩
          cases hpath
          cases hfalse hq hon

theorem pathStatus_onPath {path : List Char} (shell : Option (List Char)) (home : Option Path)
    (hquiet : d.faults = []) (hon : OnPath m cwd dir d.tree path) :
    ∃ d', pathStatus m cwd dir (.resolved path) shell home d = .ok .onPath d' ∧ Kept d d' := by
  have hwp : wp (pathStatus m cwd dir (.resolved path) shell home)
      (fun status d' => Kept d d' ∧ status = .onPath) (fun _ _ => False) d :=
    wp_mono wp_pathStatus (fun status d' h => ⟨h.1, h.2.2 path rfl hquiet hon⟩) fun _ _ h => h
  cases hrun : pathStatus m cwd dir (.resolved path) shell home d with
  | error e d' => exact nomatch e
  | ok status d' =>
      obtain ⟨hk, rfl⟩ := wp_ok hwp hrun
      exact ⟨d', rfl, hk⟩

end Verdict

/-! ### The line in the profile -/

def pathName : Name := "PATH".toList

theorem isName_path : Shell.isName pathName = true := by decide

/-- The line is the one that puts the directory and a colon before what PATH has. -/
theorem exportLine_eq (dir : Path) : exportLine dir = Shell.front pathName (display dir) ':' := by
  have hkeyword : Shell.exportKeyword = ['e', 'x', 'p', 'o', 'r', 't', ' '] := by decide
  have hname : pathName = ['P', 'A', 'T', 'H'] := by decide
  have hescape : shDoubleQuoteEscape dir = Shell.escape (display dir) := rfl
  -- the two literals are variables here, so that neither is evaluated with the rest
  have hparts : ∀ start stop : List Char,
      start = ['e', 'x', 'p', 'o', 'r', 't', ' ', 'P', 'A', 'T', 'H', '=', '"'] →
      stop = [':', '$', 'P', 'A', 'T', 'H', '"'] →
      start ++ shDoubleQuoteEscape dir ++ stop = Shell.front pathName (display dir) ':' := by
    rintro start stop rfl rfl
    rw [Shell.front, hkeyword, hname, hescape]
    simp only [List.cons_append, List.nil_append]
  exact hparts _ _ (by decide) (by decide)

theorem pathScript_eq : pathScript = Shell.printfKeyword ++ ('"' :: '$' :: pathName ++ ['"']) := by
  have hkeyword : Shell.printfKeyword =
      ['p', 'r', 'i', 'n', 't', 'f', ' ', '%', 's', ' '] := by decide
  have hname : pathName = ['P', 'A', 'T', 'H'] := by decide
  have hscript : pathScript = ['p', 'r', 'i', 'n', 't', 'f', ' ', '%', 's', ' ', '"', '$', 'P', 'A',
      'T', 'H', '"'] := by decide
  rw [hscript, hkeyword, hname]
  rfl

theorem display_ne_nil (dir : Path) : display dir ≠ [] := by
  cases dir with
  | nil => decide
  | cons n dir => exact List.cons_ne_nil _ _

theorem isAbsolute_display (dir : Path) : isAbsolute (display dir) = true := by
  cases dir with
  | nil => rfl
  | cons n dir => rfl

/-- The elements of a PATH before which a directory is put. -/
theorem pathElements_fronts {dir : Path} (hcolon : ':' ∉ display dir) (n : Nat) (old : List Char) :
    pathElements (Shell.fronts (display dir) ':' n old) =
      List.replicate n (display dir) ++ pathElements old := by
  induction n with
  | zero => rfl
  | succ n ih =>
      have hsplit : (Shell.fronts (display dir) ':' (n + 1) old).splitOn ':' =
          display dir :: (Shell.fronts (display dir) ':' n old).splitOn ':' :=
        List.splitOn_append_cons_self_of_not_mem hcolon _
      rw [pathElements, hsplit, List.filter_cons_of_pos (by simp [display_ne_nil]),
        List.replicate_succ]
      exact congrArg (display dir :: ·) ih

/-- The directory is found among the elements, however often it was put there. -/
theorem onPath_fronts {m : Machine} {cwd dir : Path} {t : Tree} {n : Nat} {old : List Char}
    (hcolon : ':' ∉ display dir) (hdir : m.identity t dir ≠ none) :
    OnPath m cwd dir t (Shell.fronts (display dir) ':' (n + 1) old) := by
  refine ⟨hdir, display dir, ?_, .inl ⟨isAbsolute_display dir, rfl⟩⟩
  rw [pathElements_fronts hcolon, List.replicate_succ]
  exact List.mem_cons_self

/-- What the line does in a profile, and what the script prints after it. -/
theorem follow_advice (dir : Path) (vars : Shell.Variables) (n : Nat) :
    ∃ vars', Shell.runAll vars (List.replicate (n + 1) (exportLine dir)) = some (vars', []) ∧
      (∀ other, other ≠ pathName → vars' other = vars other) ∧
      Shell.run vars' pathScript =
        some (vars', Shell.fronts (display dir) ':' (n + 1) ((vars pathName).getD [])) := by
  have hsep : Shell.isSpecial ':' = false := by decide
  obtain ⟨vars', hrun, hpath, hother⟩ := Shell.runAll_front hsep isName_path (display dir) n vars
  refine ⟨vars', ?_, hother, ?_⟩
  · rw [exportLine_eq]
    exact hrun
  · rw [pathScript_eq, Shell.run_printf (Shell.word_parameter isName_path), Shell.expand_parameter,
      hpath]
    rfl

/-- **The advice, followed.** A profile with the line in it, read as often as it may be, puts the
directory before what PATH was and changes nothing else; the script then prints that PATH, and with
this answer the directory is said to be on it. -/
theorem advice_followed (m : Machine) (cwd dir : Path) (vars : Shell.Variables) (n : Nat)
    (shell status : List Char) (stderr : List UInt8) (home : Option Path) (d : Disk)
    (hcolon : ':' ∉ display dir) (hshell : isAbsolute shell = true)
    (hlen : utf8Len (Shell.fronts (display dir) ':' (n + 1) ((vars pathName).getD [])) ≤
      maxPathBytes)
    (hquiet : d.faults = []) (hdir : m.identity d.tree dir ≠ none) :
    ∃ vars' path, Shell.runAll vars (List.replicate (n + 1) (exportLine dir)) = some (vars', []) ∧
      (∀ other, other ≠ pathName → vars' other = vars other) ∧
      Shell.run vars' pathScript = some (vars', path) ∧
      pathElements path =
        List.replicate (n + 1) (display dir) ++ pathElements ((vars pathName).getD []) ∧
      ∃ d', pathStatus m cwd dir
          (loginShellPath (some shell) (.exited true status (utf8 path) stderr)) (some shell) home
          d = .ok .onPath d' ∧ Kept d d' := by
  obtain ⟨vars', hrun, hother, hprint⟩ := follow_advice dir vars n
  refine ⟨vars', _, hrun, hother, hprint, pathElements_fronts hcolon (n + 1) _, ?_⟩
  rw [loginShellPath_printed hshell hlen]
  exact pathStatus_onPath _ home hquiet (onPath_fronts hcolon hdir)

/-- A directory with a dollar sign and a quote in its name. -/
def quotedDir : Path := [['a', '$', '"']]

def quotedDisk : Disk where
  tree := .ofNodes [(quotedDir, .dir none)]
  faults := []
  writes := []

theorem advice_followed_quoted :
    ∃ vars' path,
      Shell.runAll (fun _ => none) (List.replicate 2 (exportLine quotedDir)) = some (vars', []) ∧
      (∀ other, other ≠ pathName → vars' other = none) ∧
      Shell.run vars' pathScript = some (vars', path) ∧
      pathElements path = List.replicate 2 (display quotedDir) ++ pathElements [] ∧
      ∃ d', pathStatus open' [] quotedDir
          (loginShellPath (some ['/', 'z']) (.exited true [] (utf8 path) [])) (some ['/', 'z']) none
          quotedDisk = .ok .onPath d' ∧ Kept quotedDisk d' :=
  advice_followed open' [] quotedDir (fun _ => none) 1 ['/', 'z'] [] [] none quotedDisk (by decide)
    rfl (by decide) rfl (by decide)

end OpenVHost.Clitool
