/-
# What a failed atomic write leaves

`writeAtomic` removes its temp file where the rename onto the path fails, and returns at once
where the write into the temp file fails. So a failed call leaves everything as it was unless a
fault keeps the temp file.

* `openTmp` — the first two steps, up to the temp file's creation.
* `Installed`, `Untouched` — what a write promises when it returns and when it fails.
* `CleansUp` — no fault keeps the temp file.
* `writeAtomic_all_or_nothing_iff` — the promise is kept in exactly those runs.
-/

import OpenVHost.FileTree.Faults
import OpenVHost.Site.Atomicfile

namespace OpenVHost.Site

open FileTree Io

/-- The steps of a write up to the creation of its temp file. -/
def openTmp (path : Path) (suffix : Name) : Io AtomicWriteError Unit := do
  mapErr (⟨"create_dir_all", path.dropLast, ·⟩) (createDirAll path.dropLast)
  mapErr (⟨"create", tmpPath path suffix, ·⟩) (createNew (tmpPath path suffix))

/-- The steps of a write once its temp file is there. -/
def fillTmp (path : Path) (contents : Bytes) (suffix : Name) : Io AtomicWriteError Unit := do
  mapErr (⟨"write", tmpPath path suffix, ·⟩) (append (tmpPath path suffix) contents)
  match ← attempt (rename (tmpPath path suffix) path) with
  | .ok () => pure ()
  | .error e =>
      let _ ← attempt (removeFile (tmpPath path suffix))
      fail ⟨"rename", path, e⟩

theorem writeAtomic_eq (path : Path) (contents : Bytes) (suffix : Name) :
    writeAtomic path contents suffix = openTmp path suffix >>= fun _ =>
      fillTmp path contents suffix := by
  unfold writeAtomic openTmp
  exact (bind_assoc _ _ _).symm

/-! ### What a write promises -/

/-- The path's file in the directory that its parent leads to holds the contents, and no temp
file is beside it. -/
def Installed (path : Path) (contents : Bytes) (suffix : Name) (d d' : Disk) : Prop :=
  ∃ t r, Paved path.dropLast d.tree t ∧ Tree.Leads t path.dropLast r ∧
    d'.tree.node (r ++ [path.getLast?.getD []]) = some (.file contents none) ∧
    d'.tree.node (r ++ [tmpName (path.getLast?.getD []) suffix]) = none

/-- Neither the path nor its temp file is changed. -/
structure Untouched (path : Path) (suffix : Name) (d d' : Disk) : Prop where
  held : d'.tree.found path = d.tree.found path
  temp : d'.tree.found (tmpPath path suffix) = d.tree.found (tmpPath path suffix)

/-- Where a write gets as far as its temp file, writing into that meets no fault, and a rename
that fails, by a fault or onto a directory, is followed by a removal that meets none. -/
def CleansUp (path : Path) (suffix : Name) (d : Disk) : Prop :=
  match openTmp path suffix d with
  | .error _ _ => True
  | .ok _ d₁ => (d₁.faults[0]?).join = none ∧
      ((d₁.faults[1]?).join = none ∧ (d.tree.found path).any Node.isDir = false ∨
        (d₁.faults[2]?).join = none)

instance (path : Path) (suffix : Name) (d : Disk) : Decidable (CleansUp path suffix d) := by
  unfold CleansUp
  split <;> infer_instance

/-! ### The temp file's directory -/

section Opened

variable {dir r : Path} {name suffix tmp n : Name} {content content' contents : Bytes}
  {d d₁ : Disk} {t t' t'' : Tree}

@[simp] theorem tmpPath_concat (dir : Path) (name suffix : Name) :
    tmpPath (dir ++ [name]) suffix = dir ++ [tmpName name suffix] := by
  simp [tmpPath]

theorem tmpName_ne (name suffix : Name) : tmpName name suffix ≠ name := by
  intro heq
  have hlen := congrArg List.length heq
  simp [tmpName] at hlen
  omega

/-- A write is past its temp file's creation: the directories of `dir` were created, which gave
`t`, and the temp file is the only other change. -/
structure Opened (dir : Path) (tmp : Name) (content : Bytes) (d : Disk) (t : Tree) (r : Path)
    (t' : Tree) : Prop where
  paved : Paved dir d.tree t
  leads : Tree.Leads t dir r
  fresh : t.node (r ++ [tmp]) = none
  set : Tree.Sets (r ++ [tmp]) (.file content none) t t'

namespace Opened

theorem leads_now (h : Opened dir tmp content d t r t') : Tree.Leads t' dir r :=
  h.leads.grows (h.set.grows h.fresh)

/-- The temp file is written over. -/
theorem write (h : Opened dir tmp content d t r t')
    (hset : Tree.Sets (r ++ [tmp]) (.file content' none) t' t'') :
    Opened dir tmp content' d t r t'' := by
  refine ⟨h.paved, h.leads, h.fresh, fun q => ?_⟩
  rw [hset q, h.set q]
  split
  next => rfl
  next => rfl

/-- Where the nodes of `t` are beside the temp file, other entries are found as before. -/
theorem found_eq (h : Opened dir tmp content d t r t') (hp : Plain (dir ++ [n]))
    (hl : Tree.Leads t'' dir r) (hnode : t''.node (r ++ [n]) = t.node (r ++ [n])) :
    t''.found (dir ++ [n]) = d.tree.found (dir ++ [n]) := by
  have hn : special n = false := (Tree.plain_append.mp hp).2 n List.mem_cons_self
  rw [hl.found hn, hnode, ← h.leads.found hn, h.paved.found hp]

theorem found_other (h : Opened dir tmp content d t r t') (hp : Plain (dir ++ [n]))
    (hne : n ≠ tmp) : t'.found (dir ++ [n]) = d.tree.found (dir ++ [n]) := by
  refine h.found_eq hp h.leads_now (h.set.other ?_)
  simpa using hne

/-- The temp file was not there before and is there now. -/
theorem temp_changed (h : Opened dir tmp content d t r t') (hp : Plain (dir ++ [tmp])) :
    t'.found (dir ++ [tmp]) ≠ d.tree.found (dir ++ [tmp]) := by
  have hn : special tmp = false := (Tree.plain_append.mp hp).2 tmp List.mem_cons_self
  rw [h.leads_now.found hn, h.set.at, ← h.paved.found hp, h.leads.found hn, h.fresh]
  simp

end Opened

/-- A write that gets no further than its temp file's creation changes neither entry. -/
theorem wp_openTmp (hp : Plain (dir ++ [name])) :
    wp (openTmp (dir ++ [name]) suffix)
      (fun _ d₁ => ∃ t r, Opened dir (tmpName name suffix) [] d t r d₁.tree)
      (fun _ d' => Untouched (dir ++ [name]) suffix d d') d := by
  have htmp : Plain (dir ++ [tmpName name suffix]) := by
    rw [← tmpPath_concat]
    exact plain_tmpPath hp
  have hkeep : ∀ {d' : Disk}, Paved dir d.tree d'.tree →
      Untouched (dir ++ [name]) suffix d d' := by
    intro d' h
    constructor
    · exact h.found hp
    · rw [tmpPath_concat]
      exact h.found htmp
  have hpave := wp_createDirAllUp_paved dir.reverse (d := d)
  rw [List.reverse_reverse] at hpave
  unfold openTmp
  rw [wp_bind, wp_mapErr, List.dropLast_concat, tmpPath_concat]
  refine wp_mono hpave (fun _ d₁ h₁ => ?_) fun _ d₁ h₁ => hkeep h₁
  rw [wp_mapErr]
  refine wp_update (fun d₂ hcreate _ _ => ?_) fun _ d₂ hk _ => hkeep (hk.tree ▸ h₁)
  obtain ⟨r, hl, hnone, hset⟩ := Tree.createNew_leads (special_tmpName name suffix) hcreate
  exact ⟨d₁.tree, r, h₁, hl, hnone, hset⟩

/-- After a failed rename all is as it was unless a fault keeps the temp file. -/
theorem wp_cleanup_iff {e : AtomicWriteError} {Q : Unit → Disk → Prop}
    (h : Opened dir (tmpName name suffix) content d t r d₁.tree) (hp : Plain (dir ++ [name])) :
    wp (do let _ ← attempt (removeFile (dir ++ [tmpName name suffix])); fail e) Q
      (fun _ d' => Untouched (dir ++ [name]) suffix d d') d₁ ↔ d₁.nextFault = none := by
  have hspecial := special_tmpName name suffix
  have htmp : Plain (dir ++ [tmpName name suffix]) := by
    rw [← tmpPath_concat]
    exact plain_tmpPath hp
  rw [wp_bind, wp_attempt, Io.removeFile, update]
  cases hf : d₁.nextFault with
  | some fault =>
      rw [wp_call_fault hf]
      refine iff_of_false (fun hkept => ?_) (by simp)
      have htemp := Untouched.temp hkept
      rw [tmpPath_concat] at htemp
      exact h.temp_changed htmp htemp
  | none =>
      obtain ⟨t', hremove, hnode⟩ := h.leads_now.removeFile hspecial h.set.at rfl
      rw [wp_call_clear hf, hremove]
      refine iff_of_true ?_ rfl
      have hsame : Tree.Same t t' := by
        intro q
        rw [hnode q]
        split
        next hq => rw [hq, h.fresh]
        next hq => exact h.set.other hq
      have hl : Tree.Leads t' dir r := h.leads.grows hsame.grows
      constructor
      · exact h.found_eq hp hl (hsame _)
      · rw [tmpPath_concat]
        exact h.found_eq htmp hl (hsame _)

/-- The rename of the temp file, with what follows where it fails. -/
theorem wp_replace_iff (h : Opened dir (tmpName name suffix) contents d t r d₁.tree)
    (hp : Plain (dir ++ [name])) :
    wp (do
        match ← attempt (rename (dir ++ [tmpName name suffix]) (dir ++ [name])) with
        | .ok () => pure ()
        | .error e =>
            let _ ← attempt (removeFile (dir ++ [tmpName name suffix]))
            fail (⟨"rename", dir ++ [name], e⟩ : AtomicWriteError))
      (fun _ d' => Installed (dir ++ [name]) contents suffix d d')
      (fun _ d' => Untouched (dir ++ [name]) suffix d d') d₁ ↔
    ((d₁.faults[0]?).join = none ∧ (d.tree.found (dir ++ [name])).any Node.isDir = false ∨
      (d₁.faults[1]?).join = none) := by
  have hname : special name = false := (Tree.plain_append.mp hp).2 name List.mem_cons_self
  have htmp := special_tmpName name suffix
  have hne := tmpName_ne name suffix
  have hfound : d₁.tree.isDir (r ++ [name]) = (d.tree.found (dir ++ [name])).any Node.isDir := by
    rw [← h.found_other hp hne.symm, h.leads_now.found hname, Tree.isDir]
  have hren := h.leads_now.rename_ok_iff htmp hname hne h.set.at rfl
  rw [hfound] at hren
  -- a failed rename leaves the disk as it was, with the faults after the first to come
  have hlater : ∀ {e : AtomicWriteError} {Q : Unit → Disk → Prop},
      wp (do let _ ← attempt (removeFile (dir ++ [tmpName name suffix])); fail e) Q
        (fun _ d' => Untouched (dir ++ [name]) suffix d d')
        ⟨d₁.tree, d₁.faults.tail, d₁.writes⟩ ↔ (d₁.faults[1]?).join = none := by
    intro e Q
    have hnow : Opened dir (tmpName name suffix) contents d t r
        (Disk.mk d₁.tree d₁.faults.tail d₁.writes).tree := h
    rw [wp_cleanup_iff hnow hp]
    simp [Disk.nextFault, List.head?_eq_getElem?]
  rw [wp_bind, wp_attempt, Io.rename, update]
  cases hf : d₁.nextFault with
  | some fault =>
      have h0 : (d₁.faults[0]?).join ≠ none := by
        rw [← List.head?_eq_getElem?]
        simp [Disk.nextFault] at hf
        simp [hf]
      rw [wp_call_fault hf]
      refine hlater.trans ?_
      simp only [h0, false_and, false_or]
  | none =>
      have h0 : (d₁.faults[0]?).join = none := by
        rw [← List.head?_eq_getElem?]
        exact hf
      rw [wp_call_clear hf]
      cases hmove : d₁.tree.rename (dir ++ [tmpName name suffix]) (dir ++ [name]) with
      | ok t' =>
          have hfile := hren.mp ⟨t', hmove⟩
          refine iff_of_true ?_ (.inl ⟨h0, hfile⟩)
          have hnode := Tree.rename_over htmp hname hne h.leads_now.resolve h.leads_now.dir
            h.set.at rfl hmove
          refine ⟨t, r, ?_, ?_, ?_, ?_⟩
          · rw [List.dropLast_concat]
            exact h.paved
          · rw [List.dropLast_concat]
            exact h.leads
          · rw [List.getLast?_concat]
            exact (hnode _).trans (if_pos rfl)
          · rw [List.getLast?_concat]
            refine (hnode _).trans ((if_neg ?_).trans (if_pos rfl))
            simpa using hne
      | error e =>
          have hdir : (d.tree.found (dir ++ [name])).any Node.isDir ≠ false := by
            intro hfile
            obtain ⟨t', ht'⟩ := hren.mpr hfile
            rw [hmove] at ht'
            cases ht'
          refine hlater.trans ?_
          exact (or_iff_right fun hfile => hdir hfile.2).symm

/-- Once the temp file is there, the faults to come decide whether the write keeps its promise. -/
theorem wp_fillTmp_iff (h : Opened dir (tmpName name suffix) [] d t r d₁.tree)
    (hp : Plain (dir ++ [name])) :
    wp (fillTmp (dir ++ [name]) contents suffix)
      (fun _ d' => Installed (dir ++ [name]) contents suffix d d')
      (fun _ d' => Untouched (dir ++ [name]) suffix d d') d₁ ↔
    (d₁.faults[0]?).join = none ∧
      ((d₁.faults[1]?).join = none ∧ (d.tree.found (dir ++ [name])).any Node.isDir = false ∨
        (d₁.faults[2]?).join = none) := by
  have hspecial := special_tmpName name suffix
  have htmp : Plain (dir ++ [tmpName name suffix]) := by
    rw [← tmpPath_concat]
    exact plain_tmpPath hp
  rw [fillTmp, wp_bind, wp_mapErr, Io.append, tmpPath_concat]
  cases hf : d₁.nextFault with
  | some fault =>
      -- what was written so far stays in the temp file
      obtain ⟨t', happend, hset⟩ :=
        @Tree.Leads.append _ _ _ _ _ (contents.take fault.wrote) _ hspecial h.leads_now h.set.at
      rw [wp_call_fault hf, happend]
      refine iff_of_false (fun hkept => ?_) fun hclear => ?_
      · have htemp := Untouched.temp hkept
        rw [tmpPath_concat] at htemp
        exact (h.write hset).temp_changed htmp htemp
      · rw [← List.head?_eq_getElem?] at hclear
        simp only [Disk.nextFault] at hf
        rw [hf] at hclear
        cases hclear.1
  | none =>
      obtain ⟨t', happend, hset⟩ :=
        @Tree.Leads.append _ _ _ _ _ contents _ hspecial h.leads_now h.set.at
      have h0 : (d₁.faults[0]?).join = none := by
        rw [← List.head?_eq_getElem?]
        exact hf
      rw [wp_call_clear hf, happend]
      refine (wp_replace_iff (h.write hset) hp).trans ?_
      simp [h0]

end Opened

/-! ### The promise -/

/-- **An atomic write is all or nothing** in exactly the runs in which no fault keeps its temp
file. -/
theorem writeAtomic_all_or_nothing_iff {path : Path} (hne : path ≠ []) (hp : Plain path)
    (contents : Bytes) (suffix : Name) (d : Disk) :
    wp (writeAtomic path contents suffix)
      (fun _ d' => Installed path contents suffix d d') (fun _ d' => Untouched path suffix d d') d ↔
    CleansUp path suffix d := by
  obtain ⟨dir, name, rfl⟩ := (List.eq_nil_or_concat' path).resolve_left hne
  have hopen := @wp_openTmp dir name suffix d hp
  rw [writeAtomic_eq, wp_bind, CleansUp]
  unfold wp at hopen ⊢
  cases hrun : openTmp (dir ++ [name]) suffix d with
  | error e d' =>
      rw [hrun] at hopen
      exact iff_of_true hopen trivial
  | ok u d₁ =>
      rw [hrun] at hopen
      obtain ⟨t, r, h⟩ := hopen
      exact wp_fillTmp_iff h hp

/-- A rename that fails is cleaned up after. -/
theorem writeAtomic_rename_cleaned :
    wp (writeAtomic ["f".toList] [104, 105] "x".toList)
      (fun _ d' => Installed ["f".toList] [104, 105] "x".toList
        ⟨Tree.empty, [none, none, none, none, some ⟨5, 0⟩], []⟩ d')
      (fun _ d' => Untouched ["f".toList] "x".toList
        ⟨Tree.empty, [none, none, none, none, some ⟨5, 0⟩], []⟩ d')
      ⟨Tree.empty, [none, none, none, none, some ⟨5, 0⟩], []⟩ :=
  (writeAtomic_all_or_nothing_iff (by simp) (by decide) _ _ _).mpr (by decide)

/-- **A write that fails half way leaves its temp file behind**: the disk is full after one of
two bytes. -/
theorem writeAtomic_leaves_temp :
    ¬ ∀ (path : Path) (contents : Bytes) (suffix : Name) (d : Disk), path ≠ [] → Plain path →
      wp (writeAtomic path contents suffix)
        (fun _ d' => Installed path contents suffix d d')
        (fun _ d' => Untouched path suffix d d') d := by
  intro h
  have hrun := h ["f".toList] [104, 105] "x".toList
    ⟨Tree.empty, [none, none, none, some ⟨28, 1⟩], []⟩ (by simp) (by decide)
  have hfails : ∃ e d', writeAtomic ["f".toList] [104, 105] "x".toList
      ⟨Tree.empty, [none, none, none, some ⟨28, 1⟩], []⟩ = .error e d' ∧
      d'.tree.found (tmpPath ["f".toList] "x".toList) = some (.file [104] none) :=
    ⟨_, _, rfl, by decide⟩
  obtain ⟨e, d', herror, hleft⟩ := hfails
  unfold wp at hrun
  rw [herror] at hrun
  have htemp := Untouched.temp hrun
  rw [hleft] at htemp
  revert htemp
  decide

end OpenVHost.Site
