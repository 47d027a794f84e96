/-
# Faults, one operation at a time

The rules of `Rules` say that an operation may meet a fault. Where it matters which one
does, the next fault decides.

* `Clear` — the next operations meet no fault.
* `wp_call_iff` — what an operation does, by the next fault.
* `Tree.FileAt` — a file with its content, in a directory that a path leads to, and what
  creating it, writing at its end and removing it do.
-/

import OpenVHost.FileTree.Entries

namespace FileTree

/-- None of the next `n` operations meets a fault. -/
def Clear (n : Nat) (faults : List (Option Fault)) : Prop := ∀ i < n, (faults[i]?).join = none

theorem clear_zero (faults : List (Option Fault)) : Clear 0 faults := fun i hi => absurd hi (by omega)

theorem clear_succ {n : Nat} {faults : List (Option Fault)} :
    Clear (n + 1) faults ↔ (faults.head?).join = none ∧ Clear n faults.tail := by
  have hhead : faults.head? = faults[0]? := List.head?_eq_getElem?
  have htail : ∀ i, (faults.tail)[i]? = faults[i + 1]? := fun i => by simp
  constructor
  · intro h
    refine ⟨hhead ▸ h 0 (by omega), fun i hi => ?_⟩
    rw [htail]
    exact h (i + 1) (by omega)
  · rintro ⟨h0, h⟩ i hi
    cases i with
    | zero => rw [← hhead]; exact h0
    | succ i =>
        rw [← htail]
        exact h i (by omega)

/-- The fault that the next operation meets. -/
def Disk.nextFault (d : Disk) : Option Fault := (d.faults.head?).join

namespace Io

variable {α : Type} {Q : α → Disk → Prop} {E : Errno → Disk → Prop} {d : Disk}
  {writes : List Write} {partly : Fault → Tree → Tree} {f : Tree → Except Errno (α × Tree)}

/-- An operation that meets a fault. -/
theorem wp_call_fault {fault : Fault} (h : d.nextFault = some fault) :
    wp (call writes partly f) Q E d ↔
      E (.other fault.code) { d with tree := partly fault d.tree, faults := d.faults.tail } := by
  unfold Disk.nextFault at h
  unfold wp call
  rcases hfs : d.faults with _ | ⟨_ | other, later⟩
  · simp [hfs] at h
  · simp [hfs] at h
  · simp only [hfs, List.head?_cons, Option.join_some, Option.some.injEq] at h
    rw [h]
    rfl

/-- An operation that meets none. -/
theorem wp_call_clear (h : d.nextFault = none) :
    wp (call writes partly f) Q E d ↔
      match f d.tree with
      | .ok (a, t) => Q a { tree := t, faults := d.faults.tail, writes := d.writes ++ writes }
      | .error e => E e { d with faults := d.faults.tail } := by
  unfold Disk.nextFault at h
  unfold wp call
  rcases hfs : d.faults with _ | ⟨_ | fault, later⟩
  · cases hf : f d.tree <;> rfl
  · cases hf : f d.tree <;> rfl
  · simp [hfs] at h

/-- A run keeps a promise exactly under a condition: shown for each way it ends. -/
theorem wp_iff {ε β : Type} {x : Io ε β} {P : β → Disk → Prop} {F : ε → Disk → Prop} {C : Prop}
    (h : wp x (fun b d' => P b d' ∧ C) (fun e d' => C ↔ F e d') d) : wp x P F d ↔ C := by
  unfold wp at h ⊢
  cases hx : x d with
  | ok b d' =>
      simp only [hx] at h
      exact ⟨fun _ => h.2, fun _ => h.1⟩
  | error e d' =>
      simp only [hx] at h
      exact h.symm

end Io

namespace Tree

variable {t t' : Tree} {p : Path} {n : Name} {content bytes : Bytes} {x : Node}

/-- A file with this content is at `n` in the directory that `p` leads to. -/
def FileAt (t : Tree) (p : Path) (n : Name) (content : Bytes) : Prop :=
  ∃ r m, t.resolve p = .ok r ∧ t.isDir r = true ∧ t.node (r ++ [n]) = some (.file content m)

/-- There is nothing at a path. -/
def Vacant (t : Tree) (p : Path) : Prop := ∀ x, t.lstat p ≠ .ok x

/-- What is at a name in a directory is replaced by a file. -/
theorem fileAt_of_sets {r : Path} {m : Option Nat} (hr : t.resolve p = .ok r)
    (hd : t.isDir r = true) (hset : Sets (r ++ [n]) (.file content m) t t') (hg : Grows t t') :
    FileAt t' p n content :=
  ⟨r, m, hg.resolveFrom hr, hg.isDir hd, hset.at⟩

namespace FileAt

theorem lstat (hn : special n = false) (h : FileAt t p n content) :
    ∃ m, t.lstat (p ++ [n]) = .ok (.file content m) := by
  obtain ⟨r, m, hr, hd, hx⟩ := h
  exact ⟨m, lstat_entry hn hr hd hx⟩

theorem not_vacant (hn : special n = false) (h : FileAt t p n content) : ¬ Vacant t (p ++ [n]) := by
  obtain ⟨m, hm⟩ := h.lstat hn
  exact fun hv => hv _ hm

/-- Writing at the end. -/
theorem append (hn : special n = false) (h : FileAt t p n content) :
    ∃ t', t.append (p ++ [n]) bytes = .ok t' ∧ FileAt t' p n (content ++ bytes) := by
  obtain ⟨r, m, hr, hd, hx⟩ := h
  have hl : Leads t p r := ⟨hr, hd⟩
  obtain ⟨t', happend, hset⟩ := hl.append hn hx
  exact ⟨t', happend, fileAt_of_sets hr hd hset (append_grows happend)⟩

theorem removeFile (hn : special n = false) (h : FileAt t p n content) :
    ∃ t', t.removeFile (p ++ [n]) = .ok t' ∧ Vacant t' (p ++ [n]) := by
  obtain ⟨r, m, hr, hd, hx⟩ := h
  have hremove : t.removeFile (p ++ [n]) = .ok (t.erase (r ++ [n])) :=
    removeFile_entry hn hr hd hx rfl
  obtain ⟨hgone, htrim, -⟩ := removeFile_trimmed hn hr hremove
  refine ⟨_, hremove, fun y hy => ?_⟩
  obtain ⟨r', hr', -, hy'⟩ := lstat_concat_ok hn hy
  -- the path leads where it led before the removal
  have hsame : t.resolve p = .ok r' := htrim.grows.resolveFrom hr'
  obtain rfl : r = r' := Except.ok.inj (hr.symm.trans hsame)
  rw [hgone] at hy'
  cases hy'

end FileAt

/-- A file is created. -/
theorem fileAt_createNew (hn : special n = false) (h : t.createNew (p ++ [n]) = .ok t') :
    FileAt t' p n [] := by
  obtain ⟨r, hl, -, hset⟩ := createNew_leads hn h
  exact fileAt_of_sets hl.resolve hl.dir hset (createNew_grows h)

/-- Only where there was nothing. -/
theorem vacant_of_createNew (hn : special n = false) (h : t.createNew (p ++ [n]) = .ok t') :
    Vacant t (p ++ [n]) := by
  intro x hx
  obtain ⟨r, hl, hnone, -⟩ := createNew_leads hn h
  rw [lstat_concat hn hl.resolve hl.dir, hnone] at hx
  cases hx

end Tree

end FileTree
