/-
# Operations that go through

* `Tree.lstat_concat_ok` — what is read at a name sits in a directory that the rest leads to.
* `Tree.removeFile_entry`, `Tree.rename_vacant` — when a file is removed, and when a rename
  finds nothing in its way.
* `Tree.above_of_walks` — the walk along a real path stays above its end.
-/

import OpenVHost.FileTree.Removal

namespace FileTree

namespace Tree

variable {t : Tree} {p q r s f : Path} {n : Name} {x : Node}

/-- No entry has a name that a path reads otherwise, as in any file system. -/
def Proper (t : Tree) : Prop := ∀ q ∈ t.paths, t.has q = true → Plain q

instance (t : Tree) : Decidable t.Proper :=
  inferInstanceAs (Decidable (∀ q ∈ t.paths, t.has q = true → Plain q))

theorem Proper.plain (h : t.Proper) (hq : t.has q = true) : Plain q :=
  h q (t.mem_paths q hq) hq

theorem Proper.of_trimmed {R : Path → Prop} {t' : Tree} (h : t.Proper) (ht : Trimmed R t t') :
    t'.Proper := by
  intro q _ hq
  obtain ⟨x, hx⟩ := Option.isSome_iff_exists.mp hq
  exact h.plain (has_of_node (ht.node hx))

/-- A directory in which nothing is listed is empty. -/
theorem childless_of_unlisted (h : t.Proper) (hnone : ∀ n, n ∉ t.entries f) :
    t.childless f = true := by
  rw [childless_iff]
  intro n
  by_contra hne
  have hhas : t.has (f ++ [n]) = true := Option.isSome_iff_ne_none.mpr hne
  have hn : special n = false := (plain_append.mp (h.plain hhas)).2 n (List.mem_singleton_self n)
  exact hnone n (mem_entries.mpr ⟨hhas, hn⟩)

theorem locate_entry (hn : special n = false) (hr : t.resolve p = .ok r) (hd : t.isDir r = true) :
    t.locate (p ++ [n]) = .ok (r ++ [n]) := by
  rw [locate_concat hn, hr]
  exact if_pos hd

theorem lstat_entry (hn : special n = false) (hr : t.resolve p = .ok r) (hd : t.isDir r = true)
    (hx : t.node (r ++ [n]) = some x) : t.lstat (p ++ [n]) = .ok x := by
  rw [lstat_concat hn hr hd, hx]

/-- What is read at a name sits in a directory that the rest of the path leads to. -/
theorem lstat_concat_ok (hn : special n = false) (h : t.lstat (p ++ [n]) = .ok x) :
    ∃ r, t.resolve p = .ok r ∧ t.isDir r = true ∧ t.node (r ++ [n]) = some x := by
  rw [lstat, locate_concat hn] at h
  cases hr : t.resolve p with
  | error e => simp [hr] at h
  | ok r =>
      cases hd : t.isDir r with
      | false => simp [hr, hd] at h
      | true =>
          refine ⟨r, rfl, hd, ?_⟩
          cases hx : t.node (r ++ [n]) with
          | none => simp [hr, hd, hx] at h
          | some y => simpa [hr, hd, hx] using h

/-- A file or a link is removed. -/
theorem removeFile_entry (hn : special n = false) (hr : t.resolve p = .ok r)
    (hd : t.isDir r = true) (hx : t.node (r ++ [n]) = some x) (hfile : x.isDir = false) :
    t.removeFile (p ++ [n]) = .ok (t.erase (r ++ [n])) := by
  rw [removeFile, locate_entry hn hr hd]
  cases x with
  | dir m => cases hfile
  | file content m => simp [hx]
  | symlink target => simp [hx]

/-- A directory is renamed to where there is nothing, or an empty directory. -/
theorem rename_vacant (hs : t.locate p = .ok s) (hf : t.locate q = .ok f)
    (hd : t.isDir s = true) (hsf : ¬ s <+: f) (hfs : ¬ f <+: s)
    (hvacant : t.node f = none ∨ t.isDir f = true ∧ t.childless f = true) :
    t.rename p q = .ok (t.move s f) := by
  obtain ⟨m, hm⟩ := isDir_iff.mp hd
  have hne : s ≠ f := fun heq => hsf (heq ▸ List.prefix_refl _)
  rw [← List.isPrefixOf_iff_prefix] at hsf hfs
  rw [rename, hs]
  simp only [hm, hf, hne, hsf, hfs, if_false]
  rcases hvacant with hnone | ⟨hdir, hempty⟩
  · simp [hnone]
  · obtain ⟨m', hm'⟩ := isDir_iff.mp hdir
    simp [hm', hempty, Node.isDir]

/-- The walk along a real path stays above its end. -/
theorem above_of_walks (hp : Plain p) (hd : t.isDir p = true) {w : Path × List Name}
    (h : t.Walks ([], p) w) : w.1 ++ w.2 = p := by
  induction h with
  | refl => rfl
  | tail _ hstep ih =>
      have hplain : ∀ {cur : Path} {c : Name} {rest : List Name}, cur ++ c :: rest = p →
          special c = false := by
        intro cur c rest heq
        exact hp c (heq ▸ by simp)
      have hreal : ∀ {cur : Path} {c : Name} {rest : List Name}, cur ++ c :: rest = p →
          t.isDir (cur ++ [c]) = true := by
        intro cur c rest heq
        exact isDir_above ⟨rest, by simpa using heq⟩ hd
      cases hstep with
      | stay hc =>
          have hsp := hplain ih
          rcases hc with rfl | rfl <;> cases hsp
      | up => cases hplain ih
      | down hc hdown => simpa using ih
      | file hc hnode => simpa using ih
      | link hc hnode =>
          obtain ⟨m, hm⟩ := isDir_iff.mp (hreal ih)
          rw [hm] at hnode
          cases hnode

end Tree

end FileTree
