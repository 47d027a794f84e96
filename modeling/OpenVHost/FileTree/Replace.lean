/-
# Renaming, removing and listing

What a successful `rename` or `removeFile` leaves on paths without links above
them, and the entries of a directory.

* `Tree.rename_ok` — a rename is a move, onto nothing or onto its own kind.
* `Tree.node_move_file` — moving a file changes its own location and its target.
* `Tree.removeFile_ok`, `Tree.removeFile_notFound` — the location is empty, whether
  the file was there or not.
* `Tree.lstat_of_node`, `Tree.readFile_of_node` — what is there can be read.
* `Tree.mem_entries` — the entries of a directory are what sits directly in it.
-/

import OpenVHost.FileTree.Rules
import Mathlib.Data.List.Dedup

namespace FileTree

namespace Tree

variable {t t' : Tree} {p q src dst : Path}

/-! ### Renaming -/

/-- **A rename is a move**, unless it goes nowhere. -/
theorem rename_ok (hs : src ≠ []) (hsp : Plain src) (hss : t.Straight src.dropLast)
    (hd : dst ≠ []) (hdp : Plain dst) (hds : t.Straight dst.dropLast)
    (h : t.rename src dst = .ok t') :
    ∃ x, t.node src = some x ∧
      ((src = dst ∧ t' = t) ∨
        (t.CanMove src dst ∧ t.childless dst = true ∧ t' = t.move src dst ∧
          ∀ y, t.node dst = some y → y.isDir = x.isDir)) := by
  unfold rename at h
  cases hls : t.locate src with
  | error e => simp [hls] at h
  | ok s =>
      obtain ⟨rfl, -⟩ := locate_ok_straight hs hsp hss hls
      simp only [hls] at h
      cases hx : t.node s with
      | none => simp [hx] at h
      | some x =>
          refine ⟨x, rfl, ?_⟩
          simp only [hx] at h
          cases hld : t.locate dst with
          | error e => simp [hld] at h
          | ok q =>
              obtain ⟨rfl, hdir⟩ := locate_ok_straight hd hdp hds hld
              simp only [hld] at h
              split at h
              next heq => exact .inl ⟨heq, (Except.ok.inj h).symm⟩
              next =>
                split at h
                · cases h
                next hsd =>
                  split at h
                  · cases h
                  next hds' =>
                    have hcan : t.CanMove s q :=
                      ⟨has_of_node hx, hs, hd, hdir,
                        fun hp => hsd (List.isPrefixOf_iff_prefix.mpr hp),
                        fun hp => hds' (List.isPrefixOf_iff_prefix.mpr hp)⟩
                    refine .inr ⟨hcan, ?_⟩
                    cases hq : t.node q with
                    | none =>
                        simp only [hq, Except.ok.injEq] at h
                        exact ⟨childless_of_not_isDir (by simp [isDir, hq]), h.symm, by simp⟩
                    | some y =>
                        rw [hq] at h
                        cases y with
                        | dir m =>
                            simp only at h
                            split at h
                            · cases h
                            next hxd =>
                              split at h
                              next hc =>
                                refine ⟨hc, (Except.ok.inj h).symm, ?_⟩
                                rintro y hy
                                cases hy
                                simpa [Node.isDir] using hxd
                              next => cases h
                        | file | symlink =>
                            simp only at h
                            split at h
                            · cases h
                            next hxd =>
                              refine ⟨childless_of_not_isDir (by simp [isDir, hq, Node.isDir]),
                                (Except.ok.inj h).symm, ?_⟩
                              rintro y hy
                              cases hy
                              simpa [Node.isDir] using hxd

/-- Nothing sits beneath a place that is no directory. -/
theorem node_below {s : Path} (hs : s ≠ []) (h : t.isDir p = false) : t.node (p ++ s) = none := by
  by_contra hne
  have := isDir_of_append (t := t) (p := p) hs (Option.isSome_iff_ne_none.mpr hne)
  rw [h] at this
  cases this

theorem node_below_childless {s : Path} (hs : s ≠ []) (hc : t.childless p = true) :
    t.node (p ++ s) = none := by
  cases s with
  | nil => exact absurd rfl hs
  | cons n s =>
      by_cases hs' : s = []
      · subst hs'
        exact childless_iff.mp hc n
      · have hnd : t.isDir (p ++ [n]) = false := by
          simp [isDir, childless_iff.mp hc n]
        have := node_below hs' hnd
        rwa [List.append_assoc] at this

/-- Moving what is no directory: its place is empty and the target has it. -/
theorem node_move_file {x : Node} (hcan : t.CanMove src dst) (hx : t.node src = some x)
    (hxd : x.isDir = false) (hc : t.childless dst = true) (q : Path) :
    (t.move src dst).node q = if q = dst then some x else if q = src then none else t.node q := by
  have hsrc : t.isDir src = false := by simp [isDir, hx, hxd]
  rw [node_move hcan, movedFrom]
  by_cases hdq : dst <+: q
  · obtain ⟨s, rfl⟩ := hdq
    rw [if_pos (List.prefix_append _ _), List.drop_left, Option.bind_some]
    by_cases hs : s = []
    · subst hs
      simp [hx]
    · have hne : dst ++ s ≠ dst := by simpa using hs
      rw [if_neg hne, node_below hs hsrc]
      split
      · rfl
      · exact (node_below_childless hs hc).symm
  · have hne : q ≠ dst := by
      rintro rfl
      exact hdq (List.prefix_refl _)
    rw [if_neg hdq, if_neg hne]
    by_cases hsq : src <+: q
    · rw [if_pos hsq, Option.bind_none]
      obtain ⟨s, rfl⟩ := hsq
      by_cases hs : s = []
      · simp [hs]
      · rw [if_neg (by simpa using hs), node_below hs hsrc]
    · have hne' : q ≠ src := by
        rintro rfl
        exact hsq (List.prefix_refl _)
      rw [if_neg hsq, if_neg hne', Option.bind_some]

/-! ### Removing -/

theorem removeFile_ok (hne : p ≠ []) (hp : Plain p) (hs : t.Straight p.dropLast)
    (h : t.removeFile p = .ok t') : ∀ q, t'.node q = if q = p then none else t.node q := by
  unfold removeFile at h
  cases hl : t.locate p with
  | error e => simp [hl] at h
  | ok q =>
      obtain ⟨rfl, -⟩ := locate_ok_straight hne hp hs hl
      simp only [hl] at h
      cases hn : t.node q with
      | none => simp [hn] at h
      | some x =>
          rw [hn] at h
          cases x with
          | dir m => cases h
          | file | symlink =>
              cases h
              exact node_erase hne (childless_of_not_isDir (by simp [isDir, hn, Node.isDir]))

/-- Where there is no link above a path, only what is not there is not found. -/
theorem locate_notFound (hne : p ≠ []) (hp : Plain p) (hs : t.Straight p.dropLast)
    (h : t.locate p = .error .notFound) : t.node p = none := by
  rcases List.eq_nil_or_concat' p with rfl | ⟨s, n, rfl⟩
  · exact absurd rfl hne
  · rw [List.dropLast_concat] at hs
    rw [locate_straight hp hs] at h
    split at h
    · cases h
    next hd => exact node_below (by simp) (by simpa using hd)

theorem removeFile_notFound (hne : p ≠ []) (hp : Plain p) (hs : t.Straight p.dropLast)
    (h : t.removeFile p = .error .notFound) : t.node p = none := by
  unfold removeFile at h
  cases hl : t.locate p with
  | error e =>
      simp only [hl, Except.error.injEq] at h
      subst h
      exact locate_notFound hne hp hs hl
  | ok q =>
      obtain ⟨rfl, -⟩ := locate_ok_straight hne hp hs hl
      simp only [hl] at h
      cases hn : t.node q with
      | none => rfl
      | some x =>
          rw [hn] at h
          cases x <;> cases h

theorem lstat_notFound (hne : p ≠ []) (hp : Plain p) (hs : t.Straight p.dropLast)
    (h : t.lstat p = .error .notFound) : t.node p = none := by
  unfold lstat at h
  cases hl : t.locate p with
  | error e =>
      simp only [hl, Except.error.injEq] at h
      subst h
      exact locate_notFound hne hp hs hl
  | ok q =>
      obtain ⟨rfl, -⟩ := locate_ok_straight hne hp hs hl
      simp only [hl] at h
      cases hn : t.node q with
      | none => rfl
      | some x => simp [hn] at h

/-! ### Reading what is there -/

theorem straight_of_file {content : Bytes} {mode : Option Nat}
    (hn : t.node p = some (.file content mode)) : t.Straight p := by
  intro q hq target ht
  by_cases hqp : q = p
  · subst hqp
    rw [hn] at ht
    cases ht
  · obtain ⟨m, hm⟩ := isDir_iff.mp (isDir_of_above hq hqp (has_of_node hn))
    rw [hm] at ht
    cases ht

theorem locate_of_parent (hne : p ≠ []) (hp : Plain p) (hd : t.isDir p.dropLast = true) :
    t.locate p = .ok p := by
  rcases List.eq_nil_or_concat' p with rfl | ⟨s, n, rfl⟩
  · exact absurd rfl hne
  · rw [List.dropLast_concat] at hd
    exact locate_of_isDir hp hd

theorem lstat_of_node (hne : p ≠ []) (hp : Plain p) {x : Node} (hn : t.node p = some x) :
    t.lstat p = .ok x := by
  rw [lstat, locate_of_parent hne hp (isDir_dropLast (has_of_node hn))]
  simp [hn]

theorem lstat_of_none (hne : p ≠ []) (hp : Plain p) (hd : t.isDir p.dropLast = true)
    (hn : t.node p = none) : t.lstat p = .error .notFound := by
  rw [lstat, locate_of_parent hne hp hd]
  simp [hn]

theorem readFile_of_node (hp : Plain p) {content : Bytes} {mode : Option Nat}
    (hn : t.node p = some (.file content mode)) : t.readFile p = .ok content := by
  simp [readFile, stat_straight hp (straight_of_file hn), hn]

/-! ### Listing -/

/-- The names in a directory, in some order; none of them is a special one. -/
def entries (t : Tree) (p : Path) : List Name :=
  (t.paths.filterMap fun q =>
    match q.getLast? with
    | some n => if t.has q && q.dropLast == p && !special n then some n else none
    | none => none).dedup

theorem mem_entries {n : Name} :
    n ∈ t.entries p ↔ t.has (p ++ [n]) = true ∧ special n = false := by
  unfold entries
  rw [List.mem_dedup, List.mem_filterMap]
  constructor
  · rintro ⟨q, -, hq⟩
    split at hq
    next m hm =>
      split at hq
      next hc =>
        simp only [Bool.and_eq_true, beq_iff_eq, Bool.not_eq_true'] at hc
        obtain ⟨⟨hh, rfl⟩, hsp⟩ := hc
        cases hq
        obtain ⟨s, rfl⟩ := List.getLast?_eq_some_iff.mp hm
        rw [List.dropLast_concat]
        exact ⟨hh, hsp⟩
      next => cases hq
    next => cases hq
  · rintro ⟨hh, hsp⟩
    refine ⟨p ++ [n], t.mem_paths _ hh, ?_⟩
    simp [hh, hsp]

/-- The names in the directory that a path leads to. -/
def readDir (t : Tree) (p : Path) : Except Errno (List Name) :=
  match t.resolve p with
  | .error e => .error e
  | .ok q => if t.isDir q then .ok (t.entries q) else .error .notADirectory

theorem readDir_of_isDir (hp : Plain p) (hd : t.isDir p = true) :
    t.readDir p = .ok (t.entries p) := by
  rw [readDir, resolve_real hp hd]
  simp [hd]

end Tree

namespace Io

def readDir (p : Path) : Io Errno (List Name) := query (·.readDir p)

end Io

end FileTree
