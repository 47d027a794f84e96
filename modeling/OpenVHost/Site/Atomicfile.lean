/-
# The hardened atomic write

`writeAtomic` puts a file in place through a temp file beside it: the parent is
created, the temp file is created new and written, and then renamed onto the
path. A fault may stop it anywhere.

* `Beside` — what a write may do next to its path: the temp file, and missing
  directories above the path.
* `wp_writeAtomic` — when it returns the path holds the contents, and when it
  fails the path is as it was.
-/

import OpenVHost.FileTree.Links

namespace OpenVHost.Site

open FileTree Io

/-- A failed atomic write: which operation failed, on which path. -/
structure AtomicWriteError where
  op : String
  path : Path
  source : Errno
  deriving DecidableEq, Repr

/-- `.<name>.<suffix>.tmp` -/
def tmpName (name suffix : Name) : Name := '.' :: (name ++ '.' :: (suffix ++ ".tmp".toList))

/-- The temp file of a write, in the directory of its path. -/
def tmpPath (path : Path) (suffix : Name) : Path :=
  path.dropLast ++ [tmpName (path.getLast?.getD []) suffix]

def writeAtomic (path : Path) (contents : Bytes) (suffix : Name) : Io AtomicWriteError Unit := do
  let parent := path.dropLast
  mapErr (⟨"create_dir_all", parent, ·⟩) (createDirAll parent)
  let tmp := tmpPath path suffix
  mapErr (⟨"create", tmp, ·⟩) (createNew tmp)
  mapErr (⟨"write", tmp, ·⟩) (append tmp contents)
  match ← attempt (rename tmp path) with
  | .ok () => pure ()
  | .error e =>
      -- the cleanup's own failure is not reported
      let _ ← attempt (removeFile tmp)
      fail ⟨"rename", path, e⟩

/-! ### The temp file's place -/

section Tmp

variable {path : Path} {suffix : Name}

theorem special_tmpName (name suffix : Name) : special (tmpName name suffix) = false := by
  have hlen : 2 < (tmpName name suffix).length := by
    simp [tmpName]
    omega
  rw [special_eq_false]
  refine ⟨?_, ?_, ?_⟩ <;>
    · intro h
      rw [h] at hlen
      simp at hlen

theorem tmpPath_dropLast : (tmpPath path suffix).dropLast = path.dropLast := List.dropLast_concat

theorem tmpPath_ne_nil : tmpPath path suffix ≠ [] := by simp [tmpPath]

theorem plain_tmpPath (h : Plain path) : Plain (tmpPath path suffix) := by
  refine Tree.plain_append.mpr ⟨Tree.Plain.above h (List.dropLast_prefix path), ?_⟩
  intro n hn
  rw [List.mem_singleton.mp hn]
  exact special_tmpName _ _

theorem length_tmpPath (h : path ≠ []) : (tmpPath path suffix).length = path.length := by
  have := List.length_pos_iff.mpr h
  simp [tmpPath]
  omega

/-- The temp file has a longer name than its path has. -/
theorem tmpPath_ne (h : path ≠ []) : tmpPath path suffix ≠ path := by
  intro heq
  obtain ⟨s, n, rfl⟩ := (List.eq_nil_or_concat' path).resolve_left h
  simp only [tmpPath, List.dropLast_concat, List.getLast?_concat, Option.getD_some,
    List.append_cancel_left_eq, List.cons.injEq, and_true] at heq
  have hlen := congrArg List.length heq
  simp [tmpName] at hlen
  omega

/-- A path is not above its own parent. -/
theorem not_prefix_dropLast {p q : Path} (hq : q ≠ []) (hlen : p.length = q.length) :
    ¬ p <+: q.dropLast := by
  intro h
  have hle := h.length_le
  have := List.length_pos_iff.mpr hq
  rw [List.length_dropLast] at hle
  omega

end Tmp

/-! ### What a write does -/

/-- Apart from `path` and `tmp` there are only new directories above `path`. -/
def Beside (path tmp : Path) (t t' : Tree) : Prop :=
  ∀ q, q ≠ path → q ≠ tmp →
    t'.node q = t.node q ∨ (q <+: path.dropLast ∧ t.node q = none ∧ t'.node q = some (.dir none))

namespace Beside

variable {path tmp : Path} {t t' t'' : Tree}

theorem of_adds (h : Tree.Adds path.dropLast t t') : Beside path tmp t t' := fun q _ _ => h q

/-- Changes at the path and at its temp file do not count. -/
theorem step (h : Beside path tmp t t')
    (h' : ∀ q, q ≠ path → q ≠ tmp → t''.node q = t'.node q) : Beside path tmp t t'' := by
  intro q hp ht
  rw [h' q hp ht]
  exact h q hp ht

end Beside

section Write

variable {path : Path} {contents : Bytes} {suffix : Name} {d d' : Disk}

/-- A write is past its temp file's creation: only the temp file differs. -/
structure Staged (path : Path) (suffix : Name) (d d' : Disk) : Prop where
  fresh : d.tree.node (tmpPath path suffix) = none
  beside : Beside path (tmpPath path suffix) d.tree d'.tree
  held : d'.tree.node path = d.tree.node path
  parent : d'.tree.isDir path.dropLast = true
  temp : ∃ content, d'.tree.node (tmpPath path suffix) = some (.file content none)

theorem Staged.straight (h : Staged path suffix d d') :
    d'.tree.Straight (tmpPath path suffix) := by
  rw [tmpPath, Tree.straight_append_iff]
  refine ⟨Tree.straight_of_isDir h.parent, ?_⟩
  intro target ht
  obtain ⟨content, hc⟩ := h.temp
  rw [tmpPath, ht] at hc
  cases hc

/-- The temp file is written over. -/
theorem Staged.write (h : Staged path suffix d d') (hne : path ≠ []) {t : Tree} {content : Bytes}
    (ht : ∀ q, t.node q =
      if q = tmpPath path suffix then some (.file content none) else d'.tree.node q)
    {d'' : Disk} (hd : d''.tree = t) : Staged path suffix d d'' := by
  subst hd
  constructor
  · exact h.fresh
  · refine h.beside.step fun q _ hq => ?_
    rw [ht, if_neg hq]
  · rw [ht, if_neg (tmpPath_ne hne).symm]
    exact h.held
  · have hpar : path.dropLast ≠ tmpPath path suffix := by
      intro heq
      have hlen := congrArg List.length heq
      rw [length_tmpPath hne, List.length_dropLast] at hlen
      have := List.length_pos_iff.mpr hne
      omega
    unfold Tree.isDir
    rw [ht, if_neg hpar]
    exact h.parent
  · exact ⟨content, by rw [ht, if_pos rfl]⟩

/-- Creating the temp file, once the parent is there. -/
theorem staged_of_createNew (hne : path ≠ []) (hp : Plain path)
    (hs : d.tree.Straight path.dropLast) (ha : Tree.Adds path.dropLast d.tree d'.tree)
    {d'' : Disk} (h : d'.tree.createNew (tmpPath path suffix) = .ok d''.tree) :
    Staged path suffix d d'' := by
  have hs' : d'.tree.Straight (tmpPath path suffix).dropLast := by
    rw [tmpPath_dropLast]
    exact ha.straight hs
  obtain ⟨hdir, hnone, hnode⟩ := Tree.addNew_ok tmpPath_ne_nil (plain_tmpPath hp) hs' h
  have hkeep : ∀ q, ¬ q <+: path.dropLast → d'.tree.node q = d.tree.node q := by
    intro q hq
    exact (ha q).resolve_right fun hr => hq hr.1
  constructor
  · rw [← hkeep _ (not_prefix_dropLast hne (length_tmpPath hne))]
    exact hnone
  · refine (Beside.of_adds ha).step fun q _ hq => ?_
    rw [hnode, if_neg hq]
  · rw [hnode, if_neg (tmpPath_ne hne).symm]
    exact hkeep path (not_prefix_dropLast hne rfl)
  · rw [tmpPath_dropLast] at hdir
    have hpar : path.dropLast ≠ tmpPath path suffix := by
      intro heq
      rw [heq, Tree.isDir, hnone] at hdir
      cases hdir
    unfold Tree.isDir
    rw [hnode, if_neg hpar]
    exact hdir
  · exact ⟨[], by rw [hnode, if_pos rfl]⟩

/-- The outcome of a write that returns. -/
structure Written (path : Path) (contents : Bytes) (suffix : Name) (d d' : Disk) : Prop where
  beside : Beside path (tmpPath path suffix) d.tree d'.tree
  held : d'.tree.node path = some (.file contents none)
  temp : d'.tree.node (tmpPath path suffix) = d.tree.node (tmpPath path suffix)

/-- The outcome of a write that fails. -/
structure Unwritten (path : Path) (suffix : Name) (d d' : Disk) : Prop where
  beside : Beside path (tmpPath path suffix) d.tree d'.tree
  held : d'.tree.node path = d.tree.node path
  temp : d'.tree.node (tmpPath path suffix) = d.tree.node (tmpPath path suffix) ∨
    ∃ content, d'.tree.node (tmpPath path suffix) = some (.file content none)

theorem Staged.unwritten (h : Staged path suffix d d') {d'' : Disk} (hd : d''.tree = d'.tree) :
    Unwritten path suffix d d'' := by
  constructor
  · rw [hd]
    exact h.beside
  · rw [hd]
    exact h.held
  · rw [hd]
    exact .inr h.temp

theorem unwritten_of_adds (hne : path ≠ []) (ha : Tree.Adds path.dropLast d.tree d'.tree) :
    Unwritten path suffix d d' := by
  constructor
  · exact .of_adds ha
  · exact (ha path).resolve_right fun hr => not_prefix_dropLast hne rfl hr.1
  · refine .inl ((ha _).resolve_right fun hr => ?_)
    exact not_prefix_dropLast hne (length_tmpPath hne) hr.1

/-- Renaming the temp file puts its contents at the path. -/
theorem Staged.rename (h : Staged path suffix d d') (hne : path ≠ []) (hp : Plain path)
    (hc : d'.tree.node (tmpPath path suffix) = some (.file contents none)) {d'' : Disk}
    (hr : d'.tree.rename (tmpPath path suffix) path = .ok d''.tree) :
    Written path contents suffix d d'' := by
  have hs : d'.tree.Straight path.dropLast := Tree.straight_of_isDir h.parent
  obtain ⟨x, hx, hmove⟩ := Tree.rename_ok tmpPath_ne_nil (plain_tmpPath hp)
    (by rw [tmpPath_dropLast]; exact hs) hne hp hs hr
  rw [hc] at hx
  cases hx
  rcases hmove with ⟨heq, -⟩ | ⟨hcan, hchildless, ht, -⟩
  · exact absurd heq (tmpPath_ne hne)
  · have hnode := Tree.node_move_file hcan hc rfl hchildless
    constructor
    · refine h.beside.step fun q hq hqt => ?_
      rw [ht, hnode, if_neg hq, if_neg hqt]
    · rw [ht, hnode, if_pos rfl]
    · rw [ht, hnode, if_neg (tmpPath_ne hne), if_pos rfl, h.fresh]

/-- Removing the temp file after a failed rename. -/
theorem Staged.cleanup (h : Staged path suffix d d') (hne : path ≠ []) (hp : Plain path)
    {d'' : Disk} (hr : d'.tree.removeFile (tmpPath path suffix) = .ok d''.tree) :
    Unwritten path suffix d d'' := by
  have hnode := Tree.removeFile_ok tmpPath_ne_nil (plain_tmpPath hp)
    (by rw [tmpPath_dropLast]; exact Tree.straight_of_isDir h.parent) hr
  constructor
  · refine h.beside.step fun q _ hqt => ?_
    rw [hnode, if_neg hqt]
  · rw [hnode, if_neg (tmpPath_ne hne).symm]
    exact h.held
  · exact .inl (by rw [hnode, if_pos rfl, h.fresh])

/-- **An atomic write** installs its contents or leaves the path as it was. -/
theorem wp_writeAtomic (hne : path ≠ []) (hp : Plain path) (hs : d.tree.Straight path.dropLast) :
    wp (writeAtomic path contents suffix) (fun _ d' => Written path contents suffix d d')
      (fun _ d' => Unwritten path suffix d d') d := by
  unfold writeAtomic
  rw [wp_bind, wp_mapErr]
  refine wp_mono (wp_createDirAll (Tree.Plain.above hp (List.dropLast_prefix path)) hs)
    (fun _ d₁ hmade => ?_) fun _ d₁ hfailed => unwritten_of_adds hne hfailed.1.adds
  have ha := hmade.1.adds
  rw [wp_bind, wp_mapErr]
  refine wp_update (fun d₂ hcreate _ _ => ?_) fun _ d₂ hk _ =>
    unwritten_of_adds hne (hk.tree ▸ ha)
  have hst := staged_of_createNew hne hp hs ha hcreate
  obtain ⟨-, -, hnew⟩ := Tree.addNew_ok tmpPath_ne_nil (plain_tmpPath hp)
    (by rw [tmpPath_dropLast]; exact ha.straight hs) hcreate
  have hempty : d₂.tree.node (tmpPath path suffix) = some (.file [] none) := by
    rw [hnew, if_pos rfl]
  rw [wp_bind, wp_mapErr]
  refine wp_call (fun _ d₃ hf _ _ => ?_) (fun _ d₃ hk _ => hst.unwritten hk.tree) ?_
  · -- everything is written
    cases happ : d₂.tree.append (tmpPath path suffix) contents with
    | error e => simp [happ, Except.map] at hf
    | ok t =>
        simp only [happ, Except.map, Except.ok.injEq, Prod.mk.injEq, true_and] at hf
        obtain ⟨content, mode, hc, hnode⟩ := Tree.append_ok (plain_tmpPath hp) hst.straight happ
        rw [hempty] at hc
        cases hc
        have hst' : Staged path suffix d d₃ := hst.write hne hnode hf.symm
        have hc' : d₃.tree.node (tmpPath path suffix) = some (.file contents none) := by
          rw [← hf, hnode, if_pos rfl]
          rfl
        rw [wp_bind, wp_attempt]
        refine wp_update (fun d₄ hren _ _ => hst'.rename hne hp hc' hren) fun e d₄ hk _ => ?_
        rw [wp_bind, wp_attempt]
        have hst₄ : Staged path suffix d d₄ :=
          ⟨hst'.fresh, hk.tree ▸ hst'.beside, hk.tree ▸ hst'.held, hk.tree ▸ hst'.parent,
            hk.tree ▸ hst'.temp⟩
        refine wp_update (fun d₅ hrm _ _ => hst₄.cleanup hne hp hrm) fun _ d₅ hk' _ => ?_
        exact hst₄.unwritten hk'.tree
  · -- a fault leaves a prefix of the contents in the temp file
    intro fault d₃ _ ht _
    cases happ : d₂.tree.append (tmpPath path suffix) (contents.take fault.wrote) with
    | error e =>
        rw [happ] at ht
        exact hst.unwritten ht
    | ok t =>
        rw [happ] at ht
        obtain ⟨content, mode, hc, hnode⟩ := Tree.append_ok (plain_tmpPath hp) hst.straight happ
        rw [hempty] at hc
        cases hc
        have hst' : Staged path suffix d d₃ := hst.write hne hnode ht
        exact hst'.unwritten rfl

/-- **A write leaves every link of another name**, whatever is above its path. -/
theorem wp_writeAtomic_link {l : Path} {n : Name} {target : List Char}
    (hn : path.getLast? = some n) (hsp : special n = false) (hln : l.getLast? ≠ some n)
    (hl : d.tree.node l = some (.symlink target)) :
    wp (writeAtomic path contents suffix) (fun _ d' => d'.tree.node l = some (.symlink target))
      (fun _ _ => True) d := by
  have htmp : (tmpPath path suffix).getLast? = some (tmpName n suffix) := by
    rw [tmpPath, List.getLast?_concat, hn, Option.getD_some]
  unfold writeAtomic
  rw [wp_bind, wp_mapErr]
  refine wp_mono wp_createDirAll_mild (fun _ d₁ hmade => ?_) fun _ _ _ => trivial
  have hl₁ := hmade.grows.link hl
  rw [wp_bind, wp_mapErr]
  refine wp_update (fun d₂ hcreate _ _ => ?_) fun _ _ _ _ => trivial
  have hgrown := Tree.createNew_grows hcreate
  have hl₂ := hgrown.link hl₁
  obtain ⟨q, hq, hfile⟩ := Tree.createNew_file htmp (special_tmpName n suffix) hcreate
  rw [wp_bind, wp_mapErr]
  refine wp_call (fun _ d₃ hf _ _ => ?_) (fun _ _ _ _ => trivial) fun _ _ _ _ _ => trivial
  cases happ : d₂.tree.append (tmpPath path suffix) contents with
  | error e => simp [happ, Except.map] at hf
  | ok t =>
      simp only [happ, Except.map, Except.ok.injEq, Prod.mk.injEq, true_and] at hf
      subst hf
      have hgrown₂ := Tree.append_grows happ
      have hl₃ := hgrown₂.link hl₂
      -- the temp file is still where the create put it
      have hq₃ := hgrown₂.locate (hgrown.locate hq)
      obtain ⟨x, hx, hkind⟩ := hgrown₂ q _ hfile
      rw [wp_bind, wp_attempt]
      refine wp_update (fun d₄ hren _ _ => ?_) fun e d₄ _ _ => ?_
      · cases x with
        | dir m => cases hkind
        | symlink target' => cases hkind
        | file content m =>
            exact Tree.rename_link hq₃ hx rfl rfl hn hsp hl₃ hln hren
      · rw [wp_bind, wp_attempt]
        exact wp_update (fun _ _ _ _ => trivial) fun _ _ _ _ => trivial

end Write

end OpenVHost.Site
