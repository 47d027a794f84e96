/-
# The phases of pass 2

What each phase of `materialize` leaves in an empty directory, in the order the
phases run. `Laid` is the invariant of the first three: beneath the destination
there are only directories and the files written so far, and no link at all, so
that every path there names what sits at it. The last phase adds the links.

* `wp_createDirs`, `wp_writeFile`, `wp_copyHardlink`, `wp_createSymlinks` — the
  phases; nothing written is changed by a later one (`Stays`).
* `straight_of_lstat` — a path whose ancestors were all looked at and found to
  be no link has no link on its way.
-/

import OpenVHost.Pkg.Targz

namespace OpenVHost.Pkg

open FileTree FileTree.Tree FileTree.Io

/-- `dest` is a real directory with nothing in it. -/
structure EmptyDir (dest : Path) (t : Tree) : Prop where
  plain : Plain dest
  isDir : t.isDir dest = true
  empty : ∀ s, s ≠ [] → t.node (dest ++ s) = none

/-- Beneath `dest` there are only directories on the way to `dirs` and `files`,
and files at some of `files`. -/
structure Laid (dest : Path) (dirs files : List Str) (t : Tree) : Prop where
  isDir : t.isDir dest = true
  noLink : ∀ s target, t.node (dest ++ s) ≠ some (.symlink target)
  file : ∀ s content mode, t.node (dest ++ s) = some (.file content mode) →
    ∃ r ∈ files, s = splitPath r
  beneath : ∀ s, s ≠ [] → t.has (dest ++ s) = true → ∃ r ∈ dirs ++ files, s <+: splitPath r

/-- What was there is still there, unchanged. -/
def Stays (t t' : Tree) : Prop := ∀ q x, t.node q = some x → t'.node q = some x

namespace Stays

variable {t t' t'' : Tree}

theorem refl (t : Tree) : Stays t t := fun _ _ h => h

theorem trans (h : Stays t t') (h' : Stays t' t'') : Stays t t'' :=
  fun q x hx => h' q x (h q x hx)

theorem isDir (h : Stays t t') {q : Path} (hq : t.isDir q = true) : t'.isDir q = true := by
  obtain ⟨m, hm⟩ := isDir_iff.mp hq
  exact isDir_iff.mpr ⟨m, h q _ hm⟩

theorem of_adds {p : Path} (h : Adds p t t') : Stays t t' := fun _ _ hx => h.keeps hx

theorem of_set {p : Path} {x : Node} (hn : t.node p = none)
    (h : ∀ q, t'.node q = if q = p then some x else t.node q) : Stays t t' := by
  intro q y hy
  rw [h q]
  split
  next heq =>
    rw [heq, hn] at hy
    cases hy
  next => exact hy

end Stays

section Straight

variable {dest : Path} {t : Tree} {dirs files : List Str}

/-- Without links beneath a real directory, no path there passes one. -/
theorem straight_beneath (hd : t.isDir dest = true)
    (hn : ∀ s target, t.node (dest ++ s) ≠ some (.symlink target)) (s : Path) :
    t.Straight (dest ++ s) := by
  intro q hq target
  rcases prefix_append_cases hq with h | ⟨s', rfl, -⟩
  · exact straight_of_isDir hd q h target
  · exact hn s' target

namespace Laid

theorem straight (h : Laid dest dirs files t) (s : Path) : t.Straight (dest ++ s) :=
  straight_beneath h.isDir h.noLink s

theorem of_emptyDir (h : EmptyDir dest t) : Laid dest [] [] t := by
  have hnone : ∀ s x, s ≠ [] → t.node (dest ++ s) ≠ some x := by
    intro s x hs hx
    rw [h.empty s hs] at hx
    cases hx
  have hroot : ∀ s x, t.node (dest ++ s) = some x → x.isDir = true := by
    intro s x hx
    by_cases hs : s = []
    · obtain ⟨m, hm⟩ := isDir_iff.mp h.isDir
      subst hs
      rw [List.append_nil, hm] at hx
      cases hx
      rfl
    · exact absurd hx (hnone s x hs)
  refine ⟨h.isDir, fun s target hx => ?_, fun s content mode hx => ?_, fun s hs hh => ?_⟩
  · cases hroot s _ hx
  · cases hroot s _ hx
  · simp [has, h.empty s hs] at hh

theorem mono {dirs' files' : List Str} (h : Laid dest dirs files t) (hd : dirs ⊆ dirs')
    (hf : files ⊆ files') : Laid dest dirs' files' t := by
  refine ⟨h.isDir, h.noLink, fun s content mode hx => ?_, fun s hs hh => ?_⟩
  · obtain ⟨r, hr, heq⟩ := h.file s content mode hx
    exact ⟨r, hf hr, heq⟩
  · obtain ⟨r, hr, hpre⟩ := h.beneath s hs hh
    rw [List.mem_append] at hr
    exact ⟨r, List.mem_append.mpr (hr.imp (@hd r) (@hf r)), hpre⟩

/-- Missing directories on the way to a name that is laid out. -/
theorem of_adds {t' : Tree} {p : Path} {r : Str} (h : Laid dest dirs files t)
    (ha : Adds (dest ++ p) t t') (hr : r ∈ dirs ++ files) (hp : p <+: splitPath r) :
    Laid dest dirs files t' := by
  refine ⟨ha.isDir h.isDir, fun s target hx => ?_, fun s content mode hx => ?_, fun s hs hh => ?_⟩
  · exact h.noLink s target (ha.node_of_not_isDir hx rfl)
  · exact h.file s content mode (ha.node_of_not_isDir hx rfl)
  · rcases ha (dest ++ s) with heq | ⟨hpre, -, -⟩
    · exact h.beneath s hs (by simpa [has, heq] using hh)
    · exact ⟨r, hr, ((List.prefix_append_right_inj dest).mp hpre).trans hp⟩

/-- One node more, at a name that is laid out, that is no link. -/
theorem of_set {t' : Tree} {x : Node} {r : Str} (h : Laid dest dirs files t)
    (hset : ∀ q, t'.node q = if q = dest ++ splitPath r then some x else t.node q)
    (hr : r ∈ dirs ++ files) (hx : (x.isDir = true) ∨ (x.isFile = true ∧ r ∈ files)) :
    Laid dest dirs files t' := by
  have hlink : ∀ target, x ≠ .symlink target := by
    rintro target rfl
    rcases hx with hx | ⟨hx, -⟩ <;> cases hx
  have hne : dest ≠ dest ++ splitPath r := by
    intro heq
    exact splitPath_ne_nil r (List.append_right_eq_self.mp heq.symm)
  refine ⟨?_, fun s target hs => ?_, fun s content mode hs => ?_, fun s hs hh => ?_⟩
  · obtain ⟨m, hm⟩ := isDir_iff.mp h.isDir
    exact isDir_iff.mpr ⟨m, by rw [hset, if_neg hne, hm]⟩
  · rw [hset] at hs
    split at hs
    · exact hlink target (Option.some.inj hs)
    · exact h.noLink s target hs
  · rw [hset] at hs
    split at hs
    next heq =>
      have hxf := Option.some.inj hs
      rcases hx with hx | ⟨-, hm⟩
      · rw [hxf] at hx
        cases hx
      · exact ⟨r, hm, List.append_cancel_left heq⟩
    next => exact h.file s content mode hs
  · unfold has at hh
    rw [hset] at hh
    split at hh
    next heq => exact ⟨r, hr, by rw [List.append_cancel_left heq]⟩
    next => exact h.beneath s hs hh

end Laid

end Straight

/-! ### Directories -/

section Dirs

variable {dest : Path} {d : Disk} {dirs files : List Str} {rel : Str}

theorem wp_createDir {p : Path} {d : Disk} (hp : Plain p) (hs : d.tree.Straight p) :
    wp (createDir p) (MadeDir p d)
      (fun _ _ => d.faults = [] → d.tree.Blocked p) d := by
  rw [createDir, wp_mapErr]
  exact wp_mono (wp_createDirAll hp hs) (fun _ _ h => h) fun _ _ h => h.2

theorem wp_ensureParent {p : Path} {d : Disk} (hp : Plain p) (hs : d.tree.Straight p.dropLast) :
    wp (ensureParent p) (MadeDir p.dropLast d)
      (fun _ _ => d.faults = [] → d.tree.Blocked p.dropLast) d := by
  unfold ensureParent
  split
  next hnil =>
    rw [List.isEmpty_iff] at hnil
    subst hnil
    exact ⟨.of_kept (.refl d), isDir_root _⟩
  next => exact wp_createDir (Plain.above hp (List.dropLast_prefix p)) hs

/-- Without a file anywhere beneath the destination nothing is in the way. -/
theorem not_blocked (hl : Laid dest dirs [] d.tree) (s : Path) : ¬ d.tree.Blocked (dest ++ s) := by
  rintro ⟨q, content, mode, hq, hn⟩
  rcases prefix_append_cases hq with h | ⟨s', rfl, -⟩
  · obtain ⟨m, hm⟩ := isDir_iff.mp (isDir_above h hl.isDir)
    rw [hm] at hn
    cases hn
  · obtain ⟨r, hr, -⟩ := hl.file s' content mode hn
    simp at hr

/-- **Phase 1**: the planned directories, and nothing else. -/
theorem wp_createDirs {t : Tree} (he : EmptyDir dest t) (ht : d.tree = t) (rels : List Str)
    (hv : ∀ r ∈ rels, ValidName r) :
    wp (createDirs dest rels)
      (fun _ d' => Laid dest rels [] d'.tree ∧ d'.writes = d.writes ∧
        (d.faults = [] → d'.faults = []) ∧
        ∀ r ∈ rels, d'.tree.isDir (dest ++ splitPath r) = true)
      (fun _ _ => d.faults ≠ []) d := by
  subst ht
  have hmem : ∀ r, r ∈ byDepth rels ↔ r ∈ rels := fun r =>
    (List.perm_insertionSort _ rels).mem_iff
  unfold createDirs
  refine wp_forM (I := fun done d' => Laid dest done [] d'.tree ∧ d'.writes = d.writes ∧
    (d.faults = [] → d'.faults = []) ∧ ∀ r ∈ done, d'.tree.isDir (dest ++ splitPath r) = true)
    ⟨.of_emptyDir he, rfl, id, by simp⟩ (fun d' h => ?_) ?_
  · obtain ⟨hl, hw, hf, hdirs⟩ := h
    exact ⟨hl.mono (fun r hr => (hmem r).mp hr) (List.Subset.refl _), hw, hf,
      fun r hr => hdirs r ((hmem r).mpr hr)⟩
  · rintro done rel rest d₁ heq ⟨hl, hw, hf, hdirs⟩
    have hrel : ValidName rel := hv rel ((hmem rel).mp (by simp [heq]))
    have hjoin := join_valid dest hrel
    have hplain : Plain (join dest rel) := by
      rw [hjoin]
      exact plain_append.mpr ⟨he.plain, hrel.plain⟩
    have hst : d₁.tree.Straight (join dest rel) := hjoin ▸ hl.straight _
    rw [wp_bind]
    refine wp_mono (wp_createDir hplain hst) (fun _ d₂ h₂ => ?_) fun _ _ h₂ hq => ?_
    · obtain ⟨hadd, hdir⟩ := h₂
      have hl₂ : Laid dest (done ++ [rel]) [] d₂.tree := by
        refine (hl.mono (fun r hr => by simp [hr]) (List.Subset.refl _)).of_adds
          (p := splitPath rel) (r := rel) (hjoin ▸ hadd.adds) (by simp) (List.prefix_refl _)
      have hst₂ : d₂.tree.Straight (join dest rel) := hjoin ▸ hl₂.straight _
      obtain ⟨m, hm⟩ := isDir_iff.mp hdir
      rw [setDirMode, wp_mapErr, Io.chmod]
      refine wp_update (fun d₃ hc hw₃ hf₃ => ?_) fun e d₃ hk he₃ hq => ?_
      · obtain ⟨x, hx, hset⟩ := chmod_ok hplain hst₂ hc
        rw [hm] at hx
        cases hx
        refine ⟨hl₂.of_set (r := rel) (hjoin ▸ hset) (by simp) (.inl rfl), ?_, ?_, ?_⟩
        · rw [hw₃, hadd.writes, hw, List.append_nil]
        · exact fun hq => hf₃ (hadd.faults (hf hq))
        · have hkeep : ∀ q, d₂.tree.isDir q = true → d₃.tree.isDir q = true := by
            intro q hq
            by_cases heq : q = join dest rel
            · simp [Tree.isDir, hset, heq, setMode, Node.isDir]
            · simpa [Tree.isDir, hset, heq] using hq
          intro r hr
          rcases List.mem_append.mp hr with hr | hr
          · exact hkeep _ (hadd.adds.isDir (hdirs r hr))
          · cases List.mem_singleton.mp hr
            exact hkeep _ (hjoin ▸ hdir)
      · have := he₃.own (.inl (hadd.faults (hf hq)))
        rw [chmod_of_node hplain hst₂ hm] at this
        cases this
    · exact not_blocked hl _ (hjoin ▸ h₂ (hf hq))

end Dirs

/-! ### Regular files -/

/-- What the reads of an entry hand out up to its end, if none of them fails. -/
def readAll : List (Except String Bytes) → Option (List Bytes)
  | [] => some []
  | .error _ :: _ => none
  | .ok chunk :: rest => if chunk.isEmpty then some [] else (readAll rest).map (chunk :: ·)

/-- The writes of one file, chunk by chunk. -/
def fileWrites (out : Path) (chunks : List Bytes) : List Write :=
  .create out :: chunks.map (.append out)

theorem saturatingAdd_of_le {a b : Nat} (h : saturatingAdd a b ≤ maxTotalBytes) :
    saturatingAdd a b = a + b := by
  unfold saturatingAdd maxTotalBytes at *
  omega

theorem lt_of_lt_saturatingAdd {a b c : Nat} (h : maxTotalBytes < saturatingAdd a b) :
    maxTotalBytes < a + (b + c) := by
  unfold saturatingAdd maxTotalBytes at *
  omega

section Copy

variable {pf : Platform} {out : Path}

/-- What a capped copy into the file at `out` leaves. -/
structure Copied (out : Path) (content : Bytes) (mode : Option Nat) (total : Nat)
    (reads : List (Except String Bytes)) (d : Disk) (total' : Nat) (d' : Disk) : Prop where
  chunks : ∃ chunks, readAll reads = some chunks ∧
    (∀ q, d'.tree.node q =
      if q = out then some (.file (content ++ chunks.flatten) mode) else d.tree.node q) ∧
    d'.writes = d.writes ++ chunks.map (.append out) ∧ total' = total + chunks.flatten.length
  faults : d.faults = [] → d'.faults = []

/-- Why a copy fails when no operation does: a read did, or the cap is passed. -/
def OverCap (total : Nat) (reads : List (Except String Bytes)) : Prop :=
  ∀ chunks, readAll reads = some chunks → maxTotalBytes < total + chunks.flatten.length

theorem Copied.done {content : Bytes} {mode : Option Nat} {total : Nat}
    {reads : List (Except String Bytes)} {d : Disk} (hr : readAll reads = some [])
    (hn : d.tree.node out = some (.file content mode)) :
    Copied out content mode total reads d total d := by
  refine ⟨⟨[], hr, fun q => ?_, by simp, by simp⟩, id⟩
  split
  next heq => rw [heq, hn, List.flatten_nil, List.append_nil]
  next => rfl

theorem straight_of_set {t t' : Tree} {p : Path} {x : Node} (hs : t.Straight p)
    (hset : ∀ q, t'.node q = if q = p then some x else t.node q) (hx : x.isSymlink = false) :
    t'.Straight p := by
  intro q hq target hn
  rw [hset q] at hn
  split at hn
  · cases Option.some.inj hn
    cases hx
  · exact hs q hq target hn

theorem wp_copyCapped (hp : Plain out) :
    ∀ {reads : List (Except String Bytes)} {total : Nat} {d : Disk} {content : Bytes}
      {mode : Option Nat}, d.tree.Straight out →
      d.tree.node out = some (.file content mode) →
      wp (copyCapped pf out total reads) (Copied out content mode total reads d)
        (fun _ _ => d.faults = [] → OverCap total reads) d
  | [], total, d, content, mode, _, hn => Copied.done rfl hn
  | .error e :: rest, total, d, content, mode, _, _ => by
      intro _ chunks h
      cases h
  | .ok chunk :: rest, total, d, content, mode, hs, hn => by
      rw [copyCapped]
      by_cases hc : chunk.isEmpty = true
      · rw [if_pos hc]
        exact Copied.done (by simp [readAll, hc]) hn
      · rw [if_neg hc]
        have hread : readAll (.ok chunk :: rest) = (readAll rest).map (chunk :: ·) := by
          simp [readAll, hc]
        split
        next hcap =>
          intro _ chunks h
          rw [hread, Option.map_eq_some_iff] at h
          obtain ⟨cs, -, rfl⟩ := h
          rw [List.flatten_cons, List.length_append]
          exact lt_of_lt_saturatingAdd hcap
        next hcap =>
          have htot := saturatingAdd_of_le (Nat.not_lt.mp hcap)
          rw [wp_bind, wp_mapErr, Io.append]
          refine wp_call (fun _ d₁ ha hw hf => ?_) (fun e d₁ hk he hq => ?_) fun f d₁ hf _ _ hq =>
            absurd hq hf
          · cases hr : d.tree.append out chunk with
            | error e => simp [hr, Except.map] at ha
            | ok t =>
                simp only [hr, Except.map, Except.ok.injEq, Prod.mk.injEq, true_and] at ha
                subst ha
                obtain ⟨content', mode', hn', hset⟩ := append_ok hp hs hr
                rw [hn] at hn'
                cases hn'
                have hs₁ : d₁.tree.Straight out := straight_of_set hs hset rfl
                have hn₁ : d₁.tree.node out = some (.file (content ++ chunk) mode) := by
                  simp [hset]
                refine wp_mono (wp_copyCapped hp hs₁ hn₁) (fun total' d₂ h₂ => ?_)
                  fun e d₂ h₂ hq chunks h => ?_
                · obtain ⟨⟨cs, hcs, hset₂, hw₂, ht₂⟩, hf₂⟩ := h₂
                  refine ⟨⟨chunk :: cs, by simp [hread, hcs], fun q => ?_, ?_, ?_⟩,
                    fun hq => hf₂ (hf hq)⟩
                  · rw [hset₂ q, hset q, List.flatten_cons, List.append_assoc]
                    split <;> rfl
                  · rw [hw₂, hw, List.map_cons, List.append_assoc]
                    rfl
                  · rw [ht₂, htot, List.flatten_cons, List.length_append]
                    omega
                · rw [hread, Option.map_eq_some_iff] at h
                  obtain ⟨cs, hcs, rfl⟩ := h
                  have := h₂ (hf hq) cs hcs
                  rw [htot] at this
                  rw [List.flatten_cons, List.length_append]
                  omega
          · rw [append_of_node hp hs hn] at he
            cases he

end Copy

section Files

variable {pf : Platform} {dest : Path} {d : Disk} {dirs files : List Str} {rel : Str}

/-- What writing the file `rel` leaves. -/
structure FileWritten (dest : Path) (dirs files : List Str) (rel : Str)
    (reads : List (Except String Bytes)) (mode written : Nat) (d : Disk)
    (written' : Nat) (d' : Disk) : Prop where
  absent : d.tree.node (dest ++ splitPath rel) = none
  chunks : ∃ chunks, readAll reads = some chunks ∧
    d'.tree.node (dest ++ splitPath rel) = some (.file chunks.flatten (some mode)) ∧
    d'.writes = d.writes ++ fileWrites (dest ++ splitPath rel) chunks ∧
    written' = written + chunks.flatten.length
  stays : Stays d.tree d'.tree
  laid : Laid dest dirs (files ++ [rel]) d'.tree
  faults : d.faults = [] → d'.faults = []

/-- Why a file cannot be written when no operation fails. -/
def FileBarred (dest : Path) (rel : Str) (reads : List (Except String Bytes)) (written : Nat)
    (t : Tree) : Prop :=
  t.Blocked (dest ++ (splitPath rel).dropLast) ∨ t.has (dest ++ splitPath rel) = true ∨
    OverCap written reads

theorem dropLast_beneath (dest : Path) (rel : Str) :
    (dest ++ splitPath rel).dropLast = dest ++ (splitPath rel).dropLast :=
  List.dropLast_append_of_ne_nil (splitPath_ne_nil rel)

/-- Directories above a path are never the path itself. -/
theorem node_of_adds_above {t t' : Tree} {p : Path} (hne : p ≠ []) (ha : Adds p.dropLast t t') :
    t'.node p = t.node p := by
  rcases ha p with h | ⟨hpre, -, -⟩
  · exact h
  · have := hpre.length_le
    rw [List.length_dropLast] at this
    have : 0 < p.length := List.length_pos_of_ne_nil hne
    omega

/-- **Phase 2, one file**: a file that was not there, with the entry's bytes
and mode. -/
theorem wp_writeFile (hdest : Plain dest) (hl : Laid dest dirs files d.tree) (hv : ValidName rel)
    (reads : List (Except String Bytes)) (mode written : Nat) :
    wp (writeFile pf (join dest rel) reads mode written)
      (FileWritten dest dirs files rel reads mode written d)
      (fun _ _ => d.faults = [] → FileBarred dest rel reads written d.tree) d := by
  have hplain : Plain (dest ++ splitPath rel) := plain_append.mpr ⟨hdest, hv.plain⟩
  have hne : dest ++ splitPath rel ≠ [] := by simp [splitPath_ne_nil]
  have hdl := dropLast_beneath dest rel
  rw [join_valid dest hv, writeFile, wp_bind]
  refine wp_mono (wp_ensureParent hplain (hdl ▸ hl.straight _)) (fun _ d₁ h₁ => ?_)
    fun _ _ h hq => .inl (hdl ▸ h hq)
  obtain ⟨hadd, hdir⟩ := h₁
  have hl₁ : Laid dest dirs (files ++ [rel]) d₁.tree :=
    (hl.mono (List.Subset.refl _) (List.subset_append_left _ _)).of_adds (r := rel)
      (hdl ▸ hadd.adds) (by simp) (List.dropLast_prefix _)
  have hsame := node_of_adds_above hne hadd.adds
  rw [wp_bind, wp_mapErr, Io.createNew]
  refine wp_update (fun d₂ hc hw₂ hf₂ => ?_) fun e d₂ _ he hq => ?_
  · obtain ⟨-, habsent, hset₂⟩ := addNew_ok hne hplain (hdl ▸ hl₁.straight _) hc
    have hl₂ : Laid dest dirs (files ++ [rel]) d₂.tree :=
      hl₁.of_set hset₂ (by simp) (.inr ⟨rfl, by simp⟩)
    rw [wp_bind]
    refine wp_mono (wp_copyCapped hplain (hl₂.straight _) (by rw [hset₂, if_pos rfl]))
      (fun total d₃ h₃ => ?_) fun e d₃ h₃ hq => .inr (.inr (h₃ (hf₂ (hadd.faults hq))))
    obtain ⟨⟨chunks, hread, hset₃, hw₃, htotal⟩, hf₃⟩ := h₃
    have hn₃ : d₃.tree.node (dest ++ splitPath rel) = some (.file chunks.flatten none) := by
      rw [hset₃, if_pos rfl, List.nil_append]
    have hl₃ : Laid dest dirs (files ++ [rel]) d₃.tree :=
      hl₂.of_set hset₃ (by simp) (.inr ⟨rfl, by simp⟩)
    rw [wp_bind, setFileMode, wp_mapErr, Io.chmod]
    refine wp_update (fun d₄ hc₄ hw₄ hf₄ => ?_) fun e d₄ _ he₄ hq => ?_
    · obtain ⟨x, hx, hset₄⟩ := chmod_ok hplain (hl₃.straight _) hc₄
      rw [hn₃] at hx
      cases hx
      refine ⟨hsame ▸ habsent, ⟨chunks, hread, by rw [hset₄, if_pos rfl]; rfl, ?_, htotal⟩, ?_, ?_,
        fun hq => hf₄ (hf₃ (hf₂ (hadd.faults hq)))⟩
      · rw [hw₄, hw₃, hw₂, hadd.writes, fileWrites]
        simp
      · refine (Stays.of_adds hadd.adds).trans
          (Stays.of_set (x := .file chunks.flatten (some mode)) habsent fun q => ?_)
        rw [hset₄, hset₃, hset₂]
        split <;> rfl
      · exact hl₃.of_set hset₄ (by simp) (.inr ⟨rfl, by simp⟩)
    · have := he₄.own (.inl (hf₃ (hf₂ (hadd.faults hq))))
      rw [chmod_of_node hplain (hl₃.straight _) hn₃] at this
      cases this
  · refine .inr (.inl ?_)
    by_contra hh
    have hnone : d₁.tree.node (dest ++ splitPath rel) = none := by
      rw [hsame]
      simpa [has] using hh
    have := he.own (.inl (hadd.faults hq))
    rw [Tree.createNew, addNew_of_isDir hne hplain hdir hnone] at this
    cases this

/-! ### A list of files -/

/-- One file to write. -/
structure FileJob where
  rel : Str
  mode : Nat
  reads : List (Except String Bytes)

/-- Write each file of a list, one after the other. -/
def writeAll (pf : Platform) (dest : Path) (written : Nat) : List FileJob → Io PkgError Nat
  | [] => pure written
  | job :: rest => do
      let written ← writeFile pf (join dest job.rel) job.reads job.mode written
      writeAll pf dest written rest

namespace FileJob

/-- The file is there, with the bytes that were read and the mode it should have. -/
structure Done (dest : Path) (t : Tree) (job : FileJob) (chunks : List Bytes) : Prop where
  read : readAll job.reads = some chunks
  written : t.node (dest ++ splitPath job.rel) = some (.file chunks.flatten (some job.mode))

def writes (dest : Path) (job : FileJob) (chunks : List Bytes) : List Write :=
  fileWrites (dest ++ splitPath job.rel) chunks

end FileJob

/-- No file's path is at or above another's, or at or above a directory's. -/
structure Compatible (dirs files : List Str) : Prop where
  dirs : ∀ f ∈ files, ∀ r ∈ dirs, ¬ splitPath f <+: splitPath r
  files : files.Pairwise fun a b =>
    ¬ splitPath a <+: splitPath b ∧ ¬ splitPath b <+: splitPath a

/-- The files of `jobs` fit beside what is laid out, and their bytes fit under
the cap. -/
structure Writable (dirs files : List Str) (written : Nat) (jobs : List FileJob) : Prop where
  compatible : Compatible dirs (files ++ jobs.map FileJob.rel)
  cap : ∃ chunkss, List.Forall₂ (fun job cs => readAll job.reads = some cs) jobs chunkss ∧
    written + chunkss.flatten.flatten.length ≤ maxTotalBytes

theorem Compatible.not_barred {rest : List Str} {reads : List (Except String Bytes)}
    {written : Nat} {t : Tree} (hc : Compatible dirs (files ++ rel :: rest))
    (hl : Laid dest dirs files t) (hcap : ¬ OverCap written reads) :
    ¬ FileBarred dest rel reads written t := by
  have hpair : ∀ r ∈ files, ¬ splitPath r <+: splitPath rel ∧ ¬ splitPath rel <+: splitPath r :=
    fun r hr => (List.pairwise_append.mp hc.files).2.2 r hr rel (by simp)
  rintro (⟨q, content, mode, hq, hn⟩ | hh | hover)
  · rcases prefix_append_cases hq with hpre | ⟨s, rfl, hs⟩
    · obtain ⟨m, hm⟩ := isDir_iff.mp (isDir_above hpre hl.isDir)
      rw [hm] at hn
      cases hn
    · obtain ⟨r, hr, rfl⟩ := hl.file s content mode hn
      exact (hpair r hr).1 (hs.trans (List.dropLast_prefix _))
  · obtain ⟨r, hr, hpre⟩ := hl.beneath _ (splitPath_ne_nil rel) hh
    rcases List.mem_append.mp hr with hr | hr
    · exact hc.dirs rel (by simp) r hr hpre
    · exact (hpair r hr).2 hpre
  · exact hcap hover

theorem Writable.not_overCap {written : Nat} {job : FileJob} {jobs : List FileJob}
    (h : Writable dirs files written (job :: jobs)) : ¬ OverCap written job.reads := by
  obtain ⟨chunkss, hall, hcap⟩ := h.cap
  cases hall with
  | cons hcs _ =>
      intro hover
      have := hover _ hcs
      rw [List.flatten_cons, List.flatten_append, List.length_append] at hcap
      omega

theorem Writable.tail {written : Nat} {job : FileJob} {jobs : List FileJob}
    (h : Writable dirs files written (job :: jobs)) {cs : List Bytes}
    (hcs : readAll job.reads = some cs) :
    Writable dirs (files ++ [job.rel]) (written + cs.flatten.length) jobs := by
  obtain ⟨chunkss, hall, hcap⟩ := h.cap
  cases hall with
  | cons hcs' hall =>
      rw [hcs] at hcs'
      cases hcs'
      have hc := h.compatible
      refine ⟨by simpa using hc, _, hall, ?_⟩
      rw [List.flatten_cons, List.flatten_append, List.length_append] at hcap
      omega

/-- What writing a list of files leaves. -/
structure JobsDone (dest : Path) (dirs files : List Str) (jobs : List FileJob) (d d' : Disk) :
    Prop where
  done : ∃ chunkss, List.Forall₂ (FileJob.Done dest d'.tree) jobs chunkss ∧
    d'.writes = d.writes ++ (List.zipWith (FileJob.writes dest) jobs chunkss).flatten
  stays : Stays d.tree d'.tree
  laid : Laid dest dirs (files ++ jobs.map FileJob.rel) d'.tree
  faults : d.faults = [] → d'.faults = []

/-- **Phase 2**: each file in turn, all of them there at the end. -/
theorem wp_writeAll (hdest : Plain dest) :
    ∀ {jobs : List FileJob} {files : List Str} {written : Nat} {d : Disk},
      (∀ job ∈ jobs, ValidName job.rel) → Laid dest dirs files d.tree →
      wp (writeAll pf dest written jobs) (fun _ d' => JobsDone dest dirs files jobs d d')
        (fun _ _ => d.faults = [] → ¬ Writable dirs files written jobs) d
  | [], files, written, d, _, hl => ⟨⟨[], .nil, by simp⟩, .refl _, by simpa using hl, id⟩
  | job :: jobs, files, written, d, hv, hl => by
      rw [writeAll, wp_bind]
      refine wp_mono (wp_writeFile hdest hl (hv job (by simp)) _ _ _) (fun w d₁ h₁ => ?_)
        fun _ _ h₁ hq hw => hw.compatible.not_barred hl hw.not_overCap (h₁ hq)
      obtain ⟨cs, hread, hnode, hwrites, hw⟩ := h₁.chunks
      refine wp_mono (wp_writeAll hdest (fun j hj => hv j (by simp [hj])) h₁.laid)
        (fun _ d₂ h₂ => ?_) fun _ _ h₂ hq hwr => h₂ (h₁.faults hq) (hw ▸ hwr.tail hread)
      obtain ⟨chunkss, hdone, hw₂⟩ := h₂.done
      refine ⟨⟨cs :: chunkss, .cons ⟨hread, h₂.stays _ _ hnode⟩ hdone, ?_⟩,
        h₁.stays.trans h₂.stays, by simpa using h₂.laid, fun hq => h₂.faults (h₁.faults hq)⟩
      rw [hw₂, hwrites, List.append_assoc]
      rfl

/-! ### Hard links -/

/-- What copying the file `target` to `rel` leaves. -/
structure LinkCopied (dest : Path) (dirs files : List Str) (rel target : Str) (d d' : Disk) :
    Prop where
  content : ∃ content mode,
    d.tree.node (dest ++ splitPath target) = some (.file content mode) ∧
    d'.tree.node (dest ++ splitPath rel) = some (.file content mode)
  stays : Stays d.tree d'.tree
  laid : Laid dest dirs (files ++ [rel]) d'.tree
  writes : d'.writes = d.writes ++ [.copy (dest ++ splitPath target) (dest ++ splitPath rel)]

/-- **Phase 3, one link**: a copy of a file that is there, at a path that was
not. -/
theorem wp_copyHardlink (hdest : Plain dest) (hl : Laid dest dirs files d.tree) {target : Str}
    (hv : ValidName rel) (hvt : ValidName target) (hfresh : rel ∉ files) (written : Nat) :
    wp (copyHardlink dest rel target written)
      (fun _ d' => LinkCopied dest dirs files rel target d d') (fun _ _ => True) d := by
  have hplain : Plain (dest ++ splitPath rel) := plain_append.mpr ⟨hdest, hv.plain⟩
  have hplain' : Plain (dest ++ splitPath target) := plain_append.mpr ⟨hdest, hvt.plain⟩
  have hne : dest ++ splitPath rel ≠ [] := by simp [splitPath_ne_nil]
  have hdl := dropLast_beneath dest rel
  rw [copyHardlink, join_valid dest hv, join_valid dest hvt]
  simp only [wp_bind]
  refine wp_isFile fun b d₁ hk _ => ?_
  split
  · rw [wp_bind]
    rw [← hk.tree] at hl
    refine wp_mono (wp_ensureParent hplain (hdl ▸ hl.straight _)) (fun _ d₂ h₂ => ?_)
      fun _ _ _ => trivial
    obtain ⟨hadd, hdir⟩ := h₂
    have hl₂ : Laid dest dirs (files ++ [rel]) d₂.tree :=
      (hl.mono (List.Subset.refl _) (List.subset_append_left _ _)).of_adds (r := rel)
        (hdl ▸ hadd.adds) (by simp) (List.dropLast_prefix _)
    have hsame := node_of_adds_above hne hadd.adds
    rw [wp_bind, wp_mapErr, Io.copy]
    refine wp_call (fun n d₃ hc hw _ => ?_) (fun _ _ _ _ => trivial) fun _ _ _ _ _ => trivial
    obtain ⟨content, mode, hsrc, hnd, hset⟩ :=
      copy_ok hplain' hplain (hl₂.straight _) (hl₂.straight _) hc
    have hsrc₁ := hadd.adds.node_of_not_isDir hsrc rfl
    have hdst : d₂.tree.node (dest ++ splitPath rel) = none := by
      cases hn : d₂.tree.node (dest ++ splitPath rel) with
      | none => rfl
      | some x =>
          cases x with
          | dir m => simp [Tree.isDir, hn, Node.isDir] at hnd
          | symlink target => exact absurd hn (hl₂.noLink _ _)
          | file content mode =>
              obtain ⟨r, hr, heq⟩ := hl.file _ _ _ (hsame ▸ hn)
              exact absurd (splitPath_injective heq ▸ hr) hfresh
    have hdiff : dest ++ splitPath target ≠ dest ++ splitPath rel := by
      intro heq
      rw [heq, hdst] at hsrc
      cases hsrc
    rw [if_neg hdiff] at hset
    have hfinal : LinkCopied dest dirs files rel target d d₃ := by
      refine ⟨⟨content, mode, hk.tree ▸ hsrc₁, by rw [hset, if_pos rfl]⟩, ?_, ?_, ?_⟩
      · rw [← hk.tree]
        exact (Stays.of_adds hadd.adds).trans (.of_set hdst hset)
      · exact hl₂.of_set hset (by simp) (.inr ⟨rfl, by simp⟩)
      · rw [hw, hadd.writes, hk.writes]
    split
    · trivial
    · exact hfinal
  · trivial

end Files

/-! ### Symlinks -/

section Links

variable {dest : Path} {d : Disk}

/-- A path whose every ancestor beneath `dest` was looked at and is no link has
no link on its way. -/
theorem straight_of_lstat {t : Tree} {s : Path} (hd : t.isDir dest = true) (hp : Plain (dest ++ s))
    (h : ∀ s', s' ≠ [] → s' <+: s → ∀ target, t.lstat (dest ++ s') ≠ .ok (.symlink target)) :
    t.Straight (dest ++ s) := by
  induction s using List.reverseRecOn with
  | nil => simpa using straight_of_isDir hd
  | append_singleton s n ih =>
      rw [← List.append_assoc] at hp ⊢
      have hs : t.Straight (dest ++ s) :=
        ih (Plain.above hp (List.prefix_append _ _))
          fun s' hne hpre => h s' hne (hpre.trans (List.prefix_append _ _))
      rw [straight_append_iff]
      refine ⟨hs, fun target hn => h (s ++ [n]) (by simp) (List.prefix_refl _) target ?_⟩
      have hpar : t.isDir (dest ++ s) = true := isDir_of_child (has_of_node hn)
      rw [← List.append_assoc, Tree.lstat, locate_of_isDir hp hpar]
      simp only [hn]

theorem wp_verifyAncestor (p : Path) :
    wp (verifyAncestor p)
      (fun _ d' => Kept d d' ∧ ∀ target, d.tree.lstat p ≠ .ok (.symlink target))
      (fun _ _ => True) d := by
  rw [verifyAncestor, wp_bind, wp_attempt, Io.lstat]
  refine wp_query (fun x d' hk hx => ?_) fun e d' hk he => ?_
  · cases x with
    | symlink target => trivial
    | dir m => exact ⟨hk, fun target hc => by rw [hx] at hc; cases hc⟩
    | file content m => exact ⟨hk, fun target hc => by rw [hx] at hc; cases hc⟩
  · show wp (if e = .notFound then _ else _) _ _ _
    split
    next heq =>
      subst heq
      refine ⟨hk, fun target hc => ?_⟩
      rw [he.own (.inr (by simp))] at hc
      cases hc
    next => trivial

theorem wp_verifyAncestorsUp : ∀ (up : List Name) {d : Disk},
    wp (verifyAncestorsUp dest up)
      (fun _ d' => Kept d d' ∧ ∀ s, s ≠ [] → dest ++ s <+: up.reverse →
        ∀ target, d.tree.lstat (dest ++ s) ≠ .ok (.symlink target))
      (fun _ _ => True) d
  | [], d => by
      have hvac : ∀ s, s ≠ [] → ¬ dest ++ s <+: ([] : List Name).reverse := by
        intro s hs h
        simp [hs] at h
      rw [verifyAncestorsUp]
      split
      · exact ⟨.refl d, fun s hs h => absurd h (hvac s hs)⟩
      · exact wp_mono (wp_verifyAncestor []) (fun _ _ h => ⟨h.1, fun s hs h' => absurd h' (hvac s hs)⟩)
          fun _ _ _ => trivial
  | n :: above, d => by
      have hrev : (n :: above).reverse = above.reverse ++ [n] := List.reverse_cons
      rw [verifyAncestorsUp]
      split
      next heq =>
        refine ⟨.refl d, fun s hs h => ?_⟩
        rw [heq] at h
        have := h.length_le
        rw [List.length_append] at this
        have : 0 < s.length := List.length_pos_of_ne_nil hs
        omega
      next =>
        rw [wp_bind]
        refine wp_mono (wp_verifyAncestor _) (fun _ d₁ h₁ => ?_) fun _ _ _ => trivial
        refine wp_mono (wp_verifyAncestorsUp above) (fun _ d₂ h₂ => ?_) fun _ _ _ => trivial
        refine ⟨h₁.1.trans h₂.1, fun s hs hpre => ?_⟩
        rw [hrev] at hpre
        rcases List.prefix_concat_iff.mp hpre with heq | hpre
        · rw [heq, ← hrev]
          exact h₁.2
        · rw [← h₁.1.tree]
          exact h₂.2 s hs hpre

/-- What one planned entry adds in the last phase: its link, if it is one, and
missing directories. -/
structure Linked (dest : Path) (e : PlannedEntry) (t t' : Tree) : Prop where
  stays : Stays t t'
  link : ∀ q target, t'.node q = some (.symlink target) →
    t.node q = some (.symlink target) ∨ (e.kind = .symlink target ∧ q = dest ++ splitPath e.rel)
  made : ∀ target, e.kind = .symlink target →
    t'.node (dest ++ splitPath e.rel) = some (.symlink target)

theorem wp_linkEntry (hdest : Plain dest) (hd : d.tree.isDir dest = true) {e : PlannedEntry}
    (hv : ValidName e.rel) :
    wp (linkEntry dest e)
      (fun _ d' => Linked dest e d.tree d'.tree ∧ d'.writes = d.writes) (fun _ _ => True) d := by
  unfold linkEntry
  split
  next target hkind =>
    have hplain : Plain (dest ++ splitPath e.rel) := plain_append.mpr ⟨hdest, hv.plain⟩
    have hne : dest ++ splitPath e.rel ≠ [] := by simp [splitPath_ne_nil]
    have hdl := dropLast_beneath dest e.rel
    have hplain' : Plain (dest ++ (splitPath e.rel).dropLast) :=
      Plain.above hplain (hdl ▸ List.dropLast_prefix _)
    rw [join_valid dest hv, wp_bind, verifyRealAncestors, if_neg (by simpa using hne), hdl]
    refine wp_mono (wp_verifyAncestorsUp _) (fun _ d₁ h₁ => ?_) fun _ _ _ => trivial
    obtain ⟨hk, hls⟩ := h₁
    rw [List.reverse_reverse] at hls
    have hst : d₁.tree.Straight (dest ++ (splitPath e.rel).dropLast) := by
      rw [hk.tree]
      exact straight_of_lstat hd hplain' fun s hs hpre =>
        hls s hs ((List.prefix_append_right_inj dest).mpr hpre)
    rw [wp_bind]
    refine wp_mono (wp_ensureParent hplain (hdl ▸ hst)) (fun _ d₂ h₂ => ?_) fun _ _ _ => trivial
    obtain ⟨hadd, -⟩ := h₂
    rw [createSymlink, wp_mapErr, Io.symlink]
    refine wp_update (fun d₃ hc hw _ => ?_) fun _ _ _ _ => trivial
    have hst₂ : d₂.tree.Straight (dest ++ splitPath e.rel).dropLast :=
      hdl ▸ hadd.adds.straight hst
    have hc' : d₂.tree.addNew (dest ++ splitPath e.rel) (.symlink target) = .ok d₃.tree := by
      unfold Tree.symlink at hc
      split at hc
      · cases hc
      · exact hc
    obtain ⟨-, habsent, hset⟩ := addNew_ok hne hplain hst₂ hc'
    refine ⟨⟨?_, fun q target' hq => ?_, fun target' ht => ?_⟩, ?_⟩
    · rw [← hk.tree]
      exact (Stays.of_adds hadd.adds).trans (.of_set habsent hset)
    · rw [hset] at hq
      split at hq
      next heq =>
        cases Option.some.inj hq
        exact .inr ⟨hkind, heq⟩
      next => exact .inl (hk.tree ▸ hadd.adds.node_of_not_isDir hq rfl)
    · rw [hkind] at ht
      cases ht
      rw [hset, if_pos rfl]
    · rw [hw, hadd.writes, hk.writes, List.append_nil]
  next hkind =>
    refine ⟨⟨.refl _, fun q target h => .inl h, fun target h => absurd h (hkind target)⟩, rfl⟩

/-- **Phase 4**: the planned links, and nothing else but missing directories. -/
theorem wp_createSymlinks (hdest : Plain dest) (hd : d.tree.isDir dest = true)
    {plan : List PlannedEntry} (hv : ∀ e ∈ plan, ValidName e.rel) :
    wp (createSymlinks dest plan)
      (fun _ d' => Stays d.tree d'.tree ∧ d'.writes = d.writes ∧
        (∀ q target, d'.tree.node q = some (.symlink target) →
          d.tree.node q = some (.symlink target) ∨
            ∃ e ∈ plan, e.kind = .symlink target ∧ q = dest ++ splitPath e.rel) ∧
        ∀ e ∈ plan, ∀ target, e.kind = .symlink target →
          d'.tree.node (dest ++ splitPath e.rel) = some (.symlink target))
      (fun _ _ => True) d := by
  unfold createSymlinks
  refine wp_forM (I := fun done d' => Stays d.tree d'.tree ∧ d'.writes = d.writes ∧
    (∀ q target, d'.tree.node q = some (.symlink target) →
      d.tree.node q = some (.symlink target) ∨
        ∃ e ∈ done, e.kind = .symlink target ∧ q = dest ++ splitPath e.rel) ∧
    ∀ e ∈ done, ∀ target, e.kind = .symlink target →
      d'.tree.node (dest ++ splitPath e.rel) = some (.symlink target))
    ⟨.refl _, rfl, fun q target h => .inl h, by simp⟩ (fun _ h => h) ?_
  rintro done e rest d₁ rfl ⟨hstays, hw, hlink, hmade⟩
  refine wp_mono (wp_linkEntry hdest (hstays.isDir hd) (hv e (by simp))) (fun _ d₂ h₂ => ?_)
    fun _ _ _ => trivial
  obtain ⟨h₂, hw₂⟩ := h₂
  refine ⟨hstays.trans h₂.stays, hw₂.trans hw, fun q target hq => ?_, fun e' he' target ht => ?_⟩
  · rcases h₂.link q target hq with h | ⟨hk, hq⟩
    · rcases hlink q target h with h | ⟨e', he', hrest⟩
      · exact .inl h
      · exact .inr ⟨e', List.mem_append_left _ he', hrest⟩
    · exact .inr ⟨e, by simp, hk, hq⟩
  · rcases List.mem_append.mp he' with he' | he'
    · exact h₂.stays _ _ (hmade e' he' target ht)
    · cases List.mem_singleton.mp he'
      exact h₂.made target ht

end Links

end OpenVHost.Pkg
