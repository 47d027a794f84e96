/-
# Entries of a directory that a path leads to

An entry `p ++ [n]` whose parent `p` leads to the directory `r` is the node at `r ++ [n]`,
through whatever links the parent goes.

* `Tree.Leads` — a path that leads to a directory, and what the operations on an entry of it
  do there.
* `Tree.found` — what a path names, its last link not followed.
* `Paved.found` — creating the directories above an entry does not change the entry.
-/

import OpenVHost.FileTree.Follow
import OpenVHost.FileTree.Succeeds

namespace FileTree

namespace Tree

variable {t t' : Tree} {p r : Path} {n a b : Name} {x : Node} {content bytes : Bytes}
  {m : Option Nat}

/-- What a path names, its last link not followed. -/
def found (t : Tree) (p : Path) : Option Node := (t.lstat p).toOption

/-- `p` leads to the directory at `r`. -/
structure Leads (t : Tree) (p r : Path) : Prop where
  resolve : t.resolve p = .ok r
  dir : t.isDir r = true

theorem leads_of_found (hn : special n = false) (h : t.found (p ++ [n]) = some x) :
    ∃ r, Leads t p r ∧ t.node (r ++ [n]) = some x := by
  unfold found at h
  cases hx : t.lstat (p ++ [n]) with
  | error e => simp [hx, Except.toOption] at h
  | ok y =>
      obtain rfl : y = x := by simpa [hx, Except.toOption] using h
      obtain ⟨r, hr, hd, hnode⟩ := lstat_concat_ok hn hx
      exact ⟨r, ⟨hr, hd⟩, hnode⟩

/-- A new file takes a place that was empty in the directory its path leads to. -/
theorem createNew_leads (hn : special n = false) (h : t.createNew (p ++ [n]) = .ok t') :
    ∃ r, Leads t p r ∧ t.node (r ++ [n]) = none ∧ Sets (r ++ [n]) (.file [] none) t t' := by
  obtain ⟨q, hq, hnone, rfl⟩ := addNew_any h
  rw [locate_concat hn] at hq
  cases hr : t.resolve p with
  | error e => simp [hr] at hq
  | ok r =>
      cases hd : t.isDir r with
      | false => simp [hr, hd] at hq
      | true =>
          obtain rfl : r ++ [n] = q := by simpa [hr, hd] using hq
          refine ⟨r, ⟨hr, hd⟩, hnone, put_node_of_parent ?_ ?_⟩
          · rwa [List.dropLast_concat]
          · simp [isDir, hnone]

namespace Leads

theorem grows (h : Leads t p r) (hg : Grows t t') : Leads t' p r :=
  ⟨hg.resolveFrom h.resolve, hg.isDir h.dir⟩

/-- A directory leads on to the directories in it. -/
theorem child (hn : special n = false) (h : Leads t p r) (hd : t.isDir (r ++ [n]) = true) :
    Leads t (p ++ [n]) (r ++ [n]) :=
  ⟨resolve_append_dir hn hd h.resolve, hd⟩

theorem found (hn : special n = false) (h : Leads t p r) :
    t.found (p ++ [n]) = t.node (r ++ [n]) := by
  rw [Tree.found, lstat_concat hn h.resolve h.dir]
  cases t.node (r ++ [n]) with
  | none => rfl
  | some x => rfl

/-- Writing at the end of a file. -/
theorem append (hn : special n = false) (h : Leads t p r)
    (hx : t.node (r ++ [n]) = some (.file content m)) :
    ∃ t', t.append (p ++ [n]) bytes = .ok t' ∧
      Sets (r ++ [n]) (.file (content ++ bytes) m) t t' := by
  have hres : t.resolve (p ++ [n]) = .ok (r ++ [n]) := resolve_append_entry hn hx rfl h.resolve
  refine ⟨t.put (r ++ [n]) (.file (content ++ bytes) m), ?_, ?_⟩
  · simp [Tree.append, hres, hx]
  · exact put_node_of_some hx (by simp [Node.isDir])

theorem removeFile (hn : special n = false) (h : Leads t p r) (hx : t.node (r ++ [n]) = some x)
    (hfile : x.isDir = false) : ∃ t', t.removeFile (p ++ [n]) = .ok t' ∧
      ∀ q, t'.node q = if q = r ++ [n] then none else t.node q := by
  refine ⟨t.erase (r ++ [n]), removeFile_entry hn h.resolve h.dir hx hfile, ?_⟩
  refine node_erase (by simp) (childless_of_not_isDir ?_)
  simp [isDir, hx, hfile]

/-- A file or a link is renamed over everything but a directory. -/
theorem rename_ok_iff (ha : special a = false) (hb : special b = false) (hab : a ≠ b)
    (h : Leads t p r) (hx : t.node (r ++ [a]) = some x) (hfile : x.isDir = false) :
    (∃ t', t.rename (p ++ [a]) (p ++ [b]) = .ok t') ↔ t.isDir (r ++ [b]) = false := by
  have hne : r ++ [a] ≠ r ++ [b] := by simpa using hab
  have hpre : ¬ r ++ [a] <+: r ++ [b] := fun hpre => hne (hpre.eq_of_length (by simp))
  have hpre' : ¬ r ++ [b] <+: r ++ [a] := fun hpre => hne (hpre.eq_of_length (by simp)).symm
  rw [rename, locate_entry ha h.resolve h.dir, locate_entry hb h.resolve h.dir]
  simp only [hx, if_neg hne, List.isPrefixOf_iff_prefix, if_neg hpre, if_neg hpre', hfile, isDir]
  cases hy : t.node (r ++ [b]) with
  | none => simp
  | some y =>
      cases y with
      | dir mode => simp [Node.isDir]
      | file c mode => simp [Node.isDir]
      | symlink target => simp [Node.isDir]

/-- **A directory is renamed to where there is nothing, or an empty directory**, and takes
what is in it along. -/
theorem rename_dir {p' r' : Path} (ha : special a = false) (hb : special b = false)
    (hs : Leads t p r) (hf : Leads t p' r') (hd : t.isDir (r ++ [a]) = true)
    (hne : r ++ [a] ≠ r' ++ [b]) (h : t.rename (p ++ [a]) (p' ++ [b]) = .ok t') :
    t.CanMove (r ++ [a]) (r' ++ [b]) ∧ t' = t.move (r ++ [a]) (r' ++ [b]) ∧
      (t.node (r' ++ [b]) = none ∨
        t.isDir (r' ++ [b]) = true ∧ t.childless (r' ++ [b]) = true) := by
  obtain ⟨m, hm⟩ := isDir_iff.mp hd
  rw [rename, locate_entry ha hs.resolve hs.dir, locate_entry hb hf.resolve hf.dir] at h
  simp only [hm, if_neg hne] at h
  split at h
  next => cases h
  next hsf =>
    split at h
    next => cases h
    next hfs =>
      have hcan : t.CanMove (r ++ [a]) (r' ++ [b]) := by
        refine ⟨has_of_isDir hd, by simp, by simp, by simpa using hf.dir, ?_, ?_⟩
        · exact fun hpre => hsf (List.isPrefixOf_iff_prefix.mpr hpre)
        · exact fun hpre => hfs (List.isPrefixOf_iff_prefix.mpr hpre)
      cases hy : t.node (r' ++ [b]) with
      | none =>
          rw [hy] at h
          exact ⟨hcan, (Except.ok.inj h).symm, .inl rfl⟩
      | some y =>
          rw [hy] at h
          cases y with
          | dir mode =>
              simp only [Node.isDir, Bool.not_true, Bool.false_eq_true, if_false] at h
              split at h
              next hempty =>
                exact ⟨hcan, (Except.ok.inj h).symm, .inr ⟨isDir_iff.mpr ⟨mode, hy⟩, hempty⟩⟩
              next => cases h
          | file content mode => simp [Node.isDir] at h
          | symlink target => simp [Node.isDir] at h

end Leads

end Tree

namespace Paved

open FileTree.Tree

variable {t t' : Tree} {p r : Path} {n : Name}

/-- A path that leads to a directory of old has nothing new on its way. -/
theorem same (h : Paved p t t') (hp : Plain p) (hr : t'.resolve p = .ok r)
    (hd : t.isDir r = true) : Same t t' := by
  intro q
  rcases h q with heq | ⟨hnone, -, p', ⟨rest, rfl⟩, hq⟩
  · exact heq
  · -- the path would go on from the new directory, beneath which nothing is old
    obtain rfl := h.resolve_beneath hnone hq rest (plain_append.mp hp).2 hr
    have hdir := isDir_above (List.prefix_append q rest) hd
    simp [isDir, hnone] at hdir

/-- **Creating the directories above an entry does not change the entry.** -/
theorem found (h : Paved p t t') (hp : Plain (p ++ [n])) :
    t'.found (p ++ [n]) = t.found (p ++ [n]) := by
  obtain ⟨hplain, hlast⟩ := plain_append.mp hp
  have hn : special n = false := hlast n List.mem_cons_self
  have hkeep : ∀ {r}, t'.resolve p = .ok r → t'.node (r ++ [n]) = t.node (r ++ [n]) := fun hr =>
    h.beneath hplain hr (by simp)
  cases hx : t.found (p ++ [n]) with
  | some x =>
      obtain ⟨r, hl, hnode⟩ := leads_of_found hn hx
      have hl' := hl.grows h.grows
      rw [hl'.found hn, hkeep hl'.resolve, hnode]
  | none =>
      cases hx' : t'.found (p ++ [n]) with
      | none => rfl
      | some x =>
          obtain ⟨r, hl', hnode⟩ := leads_of_found hn hx'
          rw [hkeep hl'.resolve] at hnode
          have hd : t.isDir r = true := isDir_of_child (has_of_node hnode)
          have hl : Leads t p r :=
            ⟨(h.same hplain hl'.resolve hd).symm.grows.resolveFrom hl'.resolve, hd⟩
          rw [hl.found hn, hnode] at hx
          cases hx

/-- Where no link is at the last step, the way to a directory is new in that one place only. -/
theorem last (h : Paved (p ++ [n]) t t') (hn : special n = false) (hl : Leads t p r)
    (hlink : ∀ target, t.node (r ++ [n]) ≠ some (.symlink target)) (q : Path) :
    t'.node q = t.node q ∨ (q = r ++ [n] ∧ t.node q = none ∧ t'.isDir q = true) := by
  rcases h q with heq | ⟨hnone, hdir, p', hp', hq⟩
  · exact .inl heq
  · refine .inr ⟨?_, hnone, hdir⟩
    rcases List.prefix_concat_iff.mp hp' with rfl | ⟨rest, rfl⟩
    · obtain ⟨mid, hmid, hcase⟩ := resolve_concat hn hq
      obtain rfl : mid = r := Except.ok.inj (hmid.symm.trans (hl.grows h.grows).resolve)
      rcases hcase with ⟨target, htarget⟩ | ⟨rfl, -⟩
      · rcases h (mid ++ [n]) with heq | ⟨-, hd, -⟩
        · exact absurd (heq ▸ htarget) (hlink target)
        · simp [isDir, htarget, Node.isDir] at hd
      · rfl
    · -- what leads to the directory of old is old
      obtain ⟨mid, links, hmid, -⟩ := resolveFrom_append rest maxLinks [] p' hl.resolve
      have hmid : t.resolve p' = .ok mid := hmid
      obtain rfl : mid = q := Except.ok.inj ((h.grows.resolveFrom hmid).symm.trans hq)
      have hhas := has_of_resolve hmid
      simp [has, hnone] at hhas

end Paved

end FileTree
