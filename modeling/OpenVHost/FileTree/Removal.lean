/-
# What removals take away

* `Trimmed` — a tree with some of its entries removed; what resolves in it resolves alike
  in the tree that it was.
* `resolveFrom_same` — a walk that never stands beside what was removed goes as before.
* `wp_removeTree` — a recursive removal takes only what is at and beneath the directory,
  also where it is interrupted.
* `wp_removeFile` — the removal of a file or a link takes that entry.
-/

import OpenVHost.FileTree.Links
import OpenVHost.FileTree.Resolve

namespace FileTree

/-- `t'` is `t` without some of the entries in `R`. -/
def Trimmed (R : Path → Prop) (t t' : Tree) : Prop :=
  ∀ q, t'.node q = t.node q ∨ (t'.node q = none ∧ R q)

namespace Trimmed

variable {R R' : Path → Prop} {t t' t'' : Tree}

theorem refl (R : Path → Prop) (t : Tree) : Trimmed R t t := fun _ => .inl rfl

theorem trans (h : Trimmed R t t') (h' : Trimmed R t' t'') : Trimmed R t t'' := by
  intro q
  rcases h' q with heq | ⟨hnone, hq⟩
  · rw [heq]
    exact h q
  · exact .inr ⟨hnone, hq⟩

theorem mono (h : Trimmed R t t') (hR : ∀ q, R q → R' q) : Trimmed R' t t' :=
  fun q => (h q).imp_right fun h => ⟨h.1, hR q h.2⟩

theorem of_eq (h : t' = t) : Trimmed R t t' := h ▸ refl R t

/-- What is outside is as it was. -/
theorem outside (h : Trimmed R t t') {q : Path} (hq : ¬ R q) : t'.node q = t.node q :=
  (h q).resolve_right fun hn => hq hn.2

theorem node (h : Trimmed R t t') {q : Path} {x : Node} (hq : t'.node q = some x) :
    t.node q = some x := by
  rcases h q with heq | ⟨hnone, -⟩
  · rw [← heq]
    exact hq
  · rw [hnone] at hq
    cases hq

theorem grows (h : Trimmed R t t') : Tree.Grows t' t :=
  fun _ x hq => ⟨x, h.node hq, rfl⟩

theorem resolve (h : Trimmed R t t') {p q : Path} (hp : t'.resolve p = .ok q) :
    t.resolve p = .ok q :=
  h.grows.resolveFrom hp

end Trimmed

namespace Tree

variable {t t' : Tree} {p q : Path}

theorem resolve_concat {n : Name} (hn : special n = false) (h : t.resolve (p ++ [n]) = .ok q) :
    ∃ mid, t.resolve p = .ok mid ∧ ((∃ target, t.node (mid ++ [n]) = some (.symlink target)) ∨
      q = mid ++ [n] ∧ t.has q = true) := by
  obtain ⟨mid, links, hmid, hrest⟩ := resolveFrom_append [n] maxLinks [] p h
  refine ⟨mid, hmid, ?_⟩
  have hwalk : ∃ follow, t.walk false follow mid [n] = .ok q := by
    cases links with
    | zero => exact ⟨_, hrest⟩
    | succ links => exact ⟨_, hrest⟩
  obtain ⟨follow, hw⟩ := hwalk
  rw [walk_plain hn] at hw
  cases hnode : t.node (mid ++ [n]) with
  | none => simp [hnode] at hw
  | some x =>
      rw [hnode] at hw
      cases x with
      | dir m =>
          cases hw
          exact .inr ⟨rfl, has_of_node hnode⟩
      | file content m =>
          cases hw
          exact .inr ⟨rfl, has_of_node hnode⟩
      | symlink target => exact .inl ⟨target, rfl⟩

/-- A path whose last component is no link names what it resolves to. -/
theorem locate_of_resolve {x : Node} (hx : t.lstat p = .ok x) (hlink : x.isSymlink = false)
    (hr : t.resolve p = .ok q) : t.locate p = .ok q := by
  unfold lstat at hx
  split at hx
  next => cases hx
  next l hl =>
    rw [hl]
    congr 1
    unfold locate at hl
    split at hl
    next hnil =>
      rw [List.getLast?_eq_none_iff] at hnil
      subst hnil
      cases hl
      cases hr
      rfl
    next n hn =>
      split at hl
      next =>
        rw [hr] at hl
        exact (Except.ok.inj hl).symm
      next hsp =>
        have hsp : special n = false := by simpa using hsp
        obtain ⟨above, rfl⟩ := List.getLast?_eq_some_iff.mp hn
        rw [List.dropLast_concat] at hl
        obtain ⟨mid, hmid, hcase⟩ := resolve_concat hsp hr
        rw [hmid] at hl
        dsimp only at hl
        split at hl
        next =>
          cases hl
          rcases hcase with ⟨target, htarget⟩ | ⟨rfl, -⟩
          · -- the last component is a link
            rw [htarget] at hx
            cases hx
            simp [Node.isSymlink] at hlink
          · rfl
        next => cases hl

theorem removeDirAll_trimmed (hl : t.locate p = .ok q) (h : t.removeDirAll p = .ok t') :
    Trimmed (q <+: ·) t t' ∧ (q ≠ [] → t'.node q = none) := by
  unfold removeDirAll at h
  rw [hl] at h
  dsimp only at h
  have hprune : t' = t.prune q := by
    split at h
    · cases h
    · cases h
    · exact (Except.ok.inj h).symm
  subst hprune
  by_cases hq : q = []
  · subst hq
    have hself : t.prune [] = t := by simp [prune]
    exact ⟨Trimmed.of_eq hself, fun h => absurd rfl h⟩
  · refine ⟨fun r => ?_, fun _ => by rw [node_prune hq, if_pos (List.prefix_refl q)]⟩
    rw [node_prune hq]
    split
    next hr => exact .inr ⟨rfl, hr⟩
    next => exact .inl rfl

theorem locate_concat {n : Name} (hn : special n = false) :
    t.locate (p ++ [n]) = match t.resolve p with
      | .error e => .error e
      | .ok q => if t.isDir q then .ok (q ++ [n]) else .error .notADirectory := by
  cases hr : t.resolve p with
  | error e => simp [locate, hn, hr]
  | ok q => simp [locate, hn, hr]

theorem removeFile_trimmed {n : Name} (hn : special n = false) (hr : t.resolve p = .ok q)
    (h : t.removeFile (p ++ [n]) = .ok t') :
    t'.node (q ++ [n]) = none ∧ Trimmed (· = q ++ [n]) t t' ∧
      ∃ x, t.node (q ++ [n]) = some x ∧ x.isDir = false := by
  unfold removeFile at h
  rw [locate_concat hn, hr] at h
  dsimp only at h
  split at h
  next => cases h
  next l hl =>
    split at hl
    next hd =>
      cases hl
      split at h
      next => cases h
      next => cases h
      next x hnotdir hx =>
        cases h
        have hdir : x.isDir = false := by
          cases x with
          | dir m => exact absurd rfl (hnotdir m)
          | file content m => rfl
          | symlink target => rfl
        have hc : t.childless (q ++ [n]) = true :=
          childless_of_not_isDir (by simp [isDir, hx, hdir])
        have hne : q ++ [n] ≠ [] := by simp
        refine ⟨by rw [node_erase hne hc, if_pos rfl], fun r => ?_, x, hx, hdir⟩
        rw [node_erase hne hc]
        split
        next hr => exact .inr ⟨rfl, hr⟩
        next => exact .inl rfl
    next => cases hl

theorem lstat_of_resolve {n : Name} (hn : special n = false)
    (h : t.resolve (p ++ [n]) = .ok q) : ∃ x, t.lstat (p ++ [n]) = .ok x := by
  obtain ⟨mid, hmid, hcase⟩ := resolve_concat hn h
  have hhas : t.has (mid ++ [n]) = true := by
    rcases hcase with ⟨target, htarget⟩ | ⟨rfl, hhas⟩
    · exact has_of_node htarget
    · exact hhas
  obtain ⟨x, hx⟩ := Option.isSome_iff_exists.mp hhas
  refine ⟨x, ?_⟩
  rw [lstat, locate_concat hn, hmid]
  simp [isDir_of_child hhas, hx]

theorem lstat_concat {n : Name} (hn : special n = false) (hr : t.resolve p = .ok q)
    (hd : t.isDir q = true) : t.lstat (p ++ [n]) = match t.node (q ++ [n]) with
      | none => .error .notFound
      | some x => .ok x := by
  have hl : t.locate (p ++ [n]) = .ok (q ++ [n]) := by
    rw [locate_concat hn, hr]
    exact if_pos hd
  cases hx : t.node (q ++ [n]) with
  | none => simp [lstat, hl, hx]
  | some x => simp [lstat, hl, hx]

/-! ### Walks that stay away from what was removed -/

/-- No walk step from here on looks at an entry of `R`. -/
def Away (R : Path → Prop) (t : Tree) (w : Path × List Name) : Prop :=
  ∀ w', t.Walks w w' → ∀ n, ¬ R (w'.1 ++ [n])

theorem Away.step {R : Path → Prop} {w w' : Path × List Name} (h : Away R t w)
    (hs : t.WalkStep w w') : Away R t w' :=
  fun w'' hw => h w'' (Relation.ReflTransGen.head hs hw)

theorem walk_same {R : Path → Prop} (ht : Trimmed R t t') {create : Bool}
    {follow follow' : Path → List Name → Except Errno Path}
    (hf : ∀ cur rest, Away R t (cur, rest) → follow' cur rest = follow cur rest) :
    ∀ (rest : List Name) (cur : Path), Away R t (cur, rest) →
      t'.walk create follow' cur rest = t.walk create follow cur rest
  | [], _, _ => rfl
  | c :: rest, cur, ha => by
      have hnode : t'.node (cur ++ [c]) = t.node (cur ++ [c]) :=
        ht.outside (ha (cur, c :: rest) Relation.ReflTransGen.refl c)
      unfold walk
      split
      next hc => exact walk_same ht hf rest cur (ha.step (.stay (by simpa using hc)))
      next hc =>
        split
        next hup =>
          obtain rfl : c = ['.', '.'] := by simpa using hup
          exact walk_same ht hf rest cur.dropLast (ha.step .up)
        next hup =>
          have hsp : special c = false := by
            rw [special_eq_false]
            simp only [Bool.or_eq_true, beq_iff_eq, not_or] at hc hup
            exact ⟨hc.1, hc.2, hup⟩
          rw [hnode]
          cases hx : t.node (cur ++ [c]) with
          | none => rfl
          | some x =>
              cases x with
              | dir m =>
                  exact walk_same ht hf rest _ (ha.step (.down hsp (isDir_iff.mpr ⟨m, hx⟩)))
              | file content m => rfl
              | symlink target => exact hf _ _ (ha.step (.link hsp hx))

/-- **A walk that never stands beside what was removed goes as before.** -/
theorem resolveFrom_same {R : Path → Prop} (ht : Trimmed R t t') {create : Bool} :
    ∀ (links : Nat) (cur : Path) (rest : List Name), Away R t (cur, rest) →
      t'.resolveFrom create links cur rest = t.resolveFrom create links cur rest
  | 0, cur, rest, ha => walk_same ht (fun _ _ _ => rfl) rest cur ha
  | links + 1, cur, rest, ha => walk_same ht (resolveFrom_same ht links) rest cur ha

theorem isDir_linkStart {cur : Path} {target : List Char} (h : t.isDir cur = true) :
    t.isDir (linkStart cur target) = true := by
  unfold linkStart
  split
  · exact isDir_root t
  · exact h

theorem has_of_walks {w w' : Path × List Name} (h : t.Walks w w') (hd : t.isDir w.1 = true) :
    t.has w'.1 = true ∧ (w'.2 ≠ [] → t.isDir w'.1 = true) := by
  induction h with
  | refl => exact ⟨has_of_isDir hd, fun _ => hd⟩
  | tail _ hstep ih =>
      have hdir := ih.2 (by rintro hnil; cases hstep <;> simp_all)
      cases hstep with
      | stay => exact ⟨has_of_isDir hdir, fun _ => hdir⟩
      | up => exact ⟨has_of_isDir (isDir_dropLast (has_of_isDir hdir)),
          fun _ => isDir_dropLast (has_of_isDir hdir)⟩
      | down _ hdown => exact ⟨has_of_isDir hdown, fun _ => hdown⟩
      | file _ hn => exact ⟨has_of_node hn, fun h => absurd rfl h⟩
      | link => exact ⟨has_of_isDir (isDir_linkStart hdir), fun _ => isDir_linkStart hdir⟩

/-- What a path resolves to is there. -/
theorem has_of_resolve (h : t.resolve p = .ok q) : t.has q = true :=
  (has_of_walks (walks_of_resolveFrom h) (isDir_root t)).1

section Away

variable {R : Path → Prop} (ht : Trimmed R t t') (ha : Away R t ([], p))
include ht ha

theorem resolve_same : t'.resolve p = t.resolve p := resolveFrom_same ht maxLinks [] p ha

theorem node_same (hr : t.resolve p = .ok q) : t'.node q = t.node q := by
  have hhas : t'.has q = true := has_of_resolve ((resolve_same ht ha).trans hr)
  obtain ⟨x, hx⟩ := Option.isSome_iff_exists.mp hhas
  rw [hx, ht.node hx]

theorem stat_same : t'.stat p = t.stat p := by
  unfold stat
  rw [resolve_same ht ha]
  cases hr : t.resolve p with
  | error e => rfl
  | ok q =>
      dsimp only
      rw [node_same ht ha hr]

theorem isDir_same (hr : t.resolve p = .ok q) : t'.isDir q = t.isDir q := by
  unfold isDir
  rw [node_same ht ha hr]

theorem listed_same {n : Name} :
    (∃ names, t'.readDir p = .ok names ∧ n ∈ names) ↔
      ∃ names, t.readDir p = .ok names ∧ n ∈ names := by
  unfold readDir
  rw [resolve_same ht ha]
  cases hr : t.resolve p with
  | error e => simp
  | ok q =>
      have hhas : t'.has (q ++ [n]) = t.has (q ++ [n]) :=
        congrArg Option.isSome (ht.outside (ha (q, []) (walks_of_resolveFrom hr) n))
      dsimp only
      rw [isDir_same ht ha hr]
      cases t.isDir q with
      | false => simp
      | true => simp [mem_entries, hhas]

end Away

end Tree

/-! ### Removals that can be interrupted -/

/-- What an interrupted recursive removal of what is at a location leaves. -/
structure Interruption where
  left : Fault → Path → Tree → Tree
  below : ∀ fault q t, Trimmed (q <+: ·) t (left fault q t)

namespace Io

variable {E : Errno → Disk → Prop} {Q : Unit → Disk → Prop} {d : Disk} {p q : Path}

/-- `remove_dir_all`: a fault leaves part of the directory. -/
def removeTree (os : Interruption) (p : Path) : Io Errno Unit :=
  call [] (fun fault t => match t.locate p with
      | .ok q => os.left fault q t
      | .error _ => t)
    fun t => (t.removeDirAll p).map fun t' => ((), t')

/-- **A recursive removal takes only what is at and beneath the directory.** -/
theorem wp_removeTree (os : Interruption) (hl : d.tree.locate p = .ok q)
    (hok : ∀ d', Trimmed (q <+: ·) d.tree d'.tree → (q ≠ [] → d'.tree.node q = none) → Q () d')
    (herr : ∀ e d', Trimmed (q <+: ·) d.tree d'.tree →
      (e = .notFound → d.tree.node q = none) → E e d') : wp (removeTree os p) Q E d := by
  refine wp_call (fun a d' hf _ _ => ?_) (fun e d' hk hf => ?_) fun fault d' _ ht _ => ?_
  · cases hr : d.tree.removeDirAll p with
    | error e => simp [hr, Except.map] at hf
    | ok t' =>
        simp only [hr, Except.map, Except.ok.injEq, Prod.mk.injEq, true_and] at hf
        subst hf
        obtain ⟨htrim, hgone⟩ := Tree.removeDirAll_trimmed hl hr
        exact hok d' htrim hgone
  · refine herr e d' (Trimmed.of_eq hk.tree) fun he => ?_
    subst he
    cases hr : d.tree.removeDirAll p with
    | ok t' => simp [hr, Except.map] at hf
    | error e =>
        obtain rfl : e = .notFound := by simpa [hr, Except.map] using hf
        unfold Tree.removeDirAll at hr
        rw [hl] at hr
        dsimp only at hr
        split at hr
        · assumption
        · cases hr
        · cases hr
  · rw [hl] at ht
    exact herr _ d' (ht ▸ os.below fault q d.tree) fun he => by cases he

/-- **The removal of a file or a link takes that entry.** -/
theorem wp_removeFile {n : Name} (hn : special n = false) (hr : d.tree.resolve p = .ok q)
    (hok : ∀ d', d'.tree.node (q ++ [n]) = none → Trimmed (· = q ++ [n]) d.tree d'.tree → Q () d')
    (herr : ∀ e d', Kept d d' → Raised d (d.tree.removeFile (p ++ [n]) = .error e) e → E e d') :
    wp (removeFile (p ++ [n])) Q E d := by
  refine wp_update (fun d' hf _ _ => ?_) fun e d' hk he => herr e d' hk he
  obtain ⟨hgone, htrim, -⟩ := Tree.removeFile_trimmed hn hr hf
  exact hok d' hgone htrim

end Io

end FileTree
