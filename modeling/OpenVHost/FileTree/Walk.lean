/-
# Path resolution

`walk` reads a path the way a kernel does, one component at a time, from the
real directory it stands in. A symbolic link is read by `follow`, which starts
again with the link's target put before what is left; `resolveFrom` bounds how
often that happens. `WalkStep` is the same walk without a bound, one component
a step.

* `walk_straight` — a path with no symbolic link on it resolves to itself, or
  to nothing.
* `walks_of_resolveFrom` — what `resolveFrom` reaches, the unbounded walk
  reaches.
* `inside_of_walks` — where the links beneath a directory lead up no further
  than they sit deep, and only at their front, no walk that starts in the
  directory leaves it, through any chain of links.
-/

import OpenVHost.FileTree.Tree
import Mathlib.Logic.Relation

namespace FileTree

/-- The components that name no entry of the directory they are read in. -/
def special (n : Name) : Bool := n == [] || n == ['.'] || n == ['.', '.']

theorem special_eq_false {n : Name} :
    special n = false ↔ n ≠ [] ∧ n ≠ ['.'] ∧ n ≠ ['.', '.'] := by
  simp [special, and_assoc]

/-- A path whose every component names an entry. -/
def Plain (p : Path) : Prop := ∀ n ∈ p, special n = false

instance (p : Path) : Decidable (Plain p) :=
  inferInstanceAs (Decidable (∀ n ∈ p, special n = false))

/-- The components of a path's text. -/
def splitPath (s : List Char) : List Name := s.splitOn '/'

/-- A path's text starts at the root. -/
def isAbsolute (s : List Char) : Bool := s.head? == some '/'

/-- Where the target of a link that sits in `cur` is read from. -/
def linkStart (cur : Path) (target : List Char) : Path :=
  if isAbsolute target then [] else cur

namespace Tree

/-- Resolve `rest` from the directory `cur`. With `create` set, the last
component may be missing from a directory that is there. -/
def walk (t : Tree) (create : Bool) (follow : Path → List Name → Except Errno Path)
    (cur : Path) : List Name → Except Errno Path
  | [] => .ok cur
  | c :: rest =>
      if c == [] || c == ['.'] then walk t create follow cur rest
      else if c == ['.', '.'] then walk t create follow cur.dropLast rest
      else
        match t.node (cur ++ [c]) with
        | none => if create && rest.isEmpty then .ok (cur ++ [c]) else .error .notFound
        | some (.dir _) => walk t create follow (cur ++ [c]) rest
        | some (.file ..) => if rest.isEmpty then .ok (cur ++ [c]) else .error .notADirectory
        | some (.symlink target) => follow (linkStart cur target) (splitPath target ++ rest)

/-- Resolve `rest` from `cur` through at most `links` symbolic links. -/
def resolveFrom (t : Tree) (create : Bool) : Nat → Path → List Name → Except Errno Path
  | 0 => t.walk create fun _ _ => .error .filesystemLoop
  | links + 1 => t.walk create (t.resolveFrom create links)

/-- How many symbolic links one resolution may pass through. -/
def maxLinks : Nat := 40

/-- The location a path names, every symbolic link followed. -/
def resolve (t : Tree) (p : Path) : Except Errno Path :=
  t.resolveFrom false maxLinks [] p

/-- The location a path names or would be created at, every link followed. -/
def resolveNew (t : Tree) (p : Path) : Except Errno Path :=
  t.resolveFrom true maxLinks [] p

/-- The location a path names, a link in its last component not followed. -/
def locate (t : Tree) (p : Path) : Except Errno Path :=
  match p.getLast? with
  | none => .ok []
  | some n =>
      if special n then t.resolve p
      else
        match t.resolve p.dropLast with
        | .error e => .error e
        | .ok q => if t.isDir q then .ok (q ++ [n]) else .error .notADirectory

/-! ### Paths without links -/

section Straight

variable {t : Tree} {create : Bool} {follow : Path → List Name → Except Errno Path}

/-- No symbolic link sits at or above `p`. -/
def Straight (t : Tree) (p : Path) : Prop :=
  ∀ q, q <+: p → ∀ target, t.node q ≠ some (.symlink target)

theorem Straight.above {p q : Path} (h : t.Straight p) (hq : q <+: p) : t.Straight q :=
  fun r hr => h r (hr.trans hq)

theorem straight_of_isDir {p : Path} (h : t.isDir p = true) : t.Straight p := by
  intro q hq target hn
  obtain ⟨m, hm⟩ := isDir_iff.mp (isDir_above hq h)
  rw [hm] at hn
  cases hn

theorem straight_append_iff {p : Path} {n : Name} :
    t.Straight (p ++ [n]) ↔
      t.Straight p ∧ ∀ target, t.node (p ++ [n]) ≠ some (.symlink target) := by
  constructor
  · intro h
    exact ⟨h.above (List.prefix_append _ _), h _ (List.prefix_refl _)⟩
  · rintro ⟨h, hn⟩ q hq
    rcases List.prefix_concat_iff.mp hq with rfl | hq
    · exact hn
    · exact h q hq

/-- Why a path without links is not there. -/
def missing (t : Tree) (cur : Path) : List Name → Errno
  | [] => .notFound
  | c :: rest =>
      match t.node (cur ++ [c]) with
      | some (.dir _) => t.missing (cur ++ [c]) rest
      | some (.file ..) => .notADirectory
      | _ => .notFound

theorem plain_cons {c : Name} {p : Path} :
    Plain (c :: p) ↔ special c = false ∧ Plain p := by
  simp [Plain]

theorem plain_append {p q : Path} : Plain (p ++ q) ↔ Plain p ∧ Plain q := by
  simp only [Plain, List.mem_append]
  exact ⟨fun h => ⟨fun n hn => h n (.inl hn), fun n hn => h n (.inr hn)⟩,
    fun h n hn => hn.elim (h.1 n) (h.2 n)⟩

theorem Plain.above {p q : Path} (h : Plain p) (hq : q <+: p) : Plain q := by
  obtain ⟨s, rfl⟩ := hq
  exact (plain_append.mp h).1

/-- One component of a walk that names an entry. -/
theorem walk_plain {cur : Path} {c : Name} {rest : List Name} (hc : special c = false) :
    t.walk create follow cur (c :: rest) =
      match t.node (cur ++ [c]) with
      | none => if create && rest.isEmpty then .ok (cur ++ [c]) else .error .notFound
      | some (.dir _) => t.walk create follow (cur ++ [c]) rest
      | some (.file ..) => if rest.isEmpty then .ok (cur ++ [c]) else .error .notADirectory
      | some (.symlink target) => follow (linkStart cur target) (splitPath target ++ rest) := by
  obtain ⟨h₁, h₂, h₃⟩ := special_eq_false.mp hc
  rw [walk, if_neg (by simp [h₁, h₂]), if_neg (by simp [h₃])]

/-- **A path without links names itself or nothing.** -/
theorem walk_straight :
    ∀ {p : List Name} {cur : Path}, t.isDir cur = true → Plain p → t.Straight (cur ++ p) →
      t.walk create follow cur p =
        if t.has (cur ++ p) || (create && t.isDir (cur ++ p).dropLast) then .ok (cur ++ p)
        else .error (t.missing cur p)
  | [], cur, hcur, _, _ => by
      simp [walk, has_of_isDir hcur]
  | c :: rest, cur, hcur, hp, hs => by
      obtain ⟨hc, hrest⟩ := plain_cons.mp hp
      have hassoc : cur ++ c :: rest = (cur ++ [c]) ++ rest := by simp
      have hlast : rest ≠ [] → ((cur ++ [c]) ++ rest).dropLast = (cur ++ [c]) ++ rest.dropLast :=
        fun h => List.dropLast_append_of_ne_nil h
      rw [hassoc] at hs ⊢
      rw [walk_plain hc, missing]
      -- beneath anything but a directory there is nothing
      have hnone : t.isDir (cur ++ [c]) = false → rest ≠ [] →
          t.has (cur ++ [c] ++ rest) = false ∧ t.isDir (cur ++ [c] ++ rest).dropLast = false := by
        intro hd hr
        rw [hlast hr]
        refine ⟨?_, ?_⟩
        · by_contra h
          rw [isDir_of_append hr (by simpa using h)] at hd
          exact absurd hd (by simp)
        · by_contra h
          have := isDir_above (List.prefix_append _ _) (Bool.not_eq_false _ ▸ h)
          rw [this] at hd
          exact absurd hd (by simp)
      cases hn : t.node (cur ++ [c]) with
      | none =>
          by_cases hr : rest = []
          · subst hr
            simp [has, hn, hcur]
          · obtain ⟨h₁, h₂⟩ := hnone (by simp [isDir, hn]) hr
            simp only [h₁, h₂]
            simp [hr]
      | some x =>
          cases x with
          | dir m =>
              have hd : t.isDir (cur ++ [c]) = true := isDir_iff.mpr ⟨m, hn⟩
              exact walk_straight hd hrest hs
          | file content m =>
              by_cases hr : rest = []
              · subst hr
                simp [has, hn]
              · obtain ⟨h₁, h₂⟩ := hnone (by simp [isDir, hn, Node.isDir]) hr
                simp only [h₁, h₂]
                simp [hr]
          | symlink target =>
              exact absurd hn (hs _ (List.prefix_append _ _) target)

theorem resolveFrom_straight (create : Bool) (links : Nat) {p : Path} (hp : Plain p)
    (hs : t.Straight p) :
    t.resolveFrom create links [] p =
      if t.has p || (create && t.isDir p.dropLast) then .ok p else .error (t.missing [] p) := by
  have hs' : t.Straight ([] ++ p) := by simpa using hs
  cases links with
  | zero =>
      rw [resolveFrom]
      exact walk_straight (isDir_root t) hp hs'
  | succ links =>
      rw [resolveFrom]
      exact walk_straight (isDir_root t) hp hs'

theorem resolve_straight {p : Path} (hp : Plain p) (hs : t.Straight p) :
    t.resolve p = if t.has p then .ok p else .error (t.missing [] p) := by
  simpa [resolve] using resolveFrom_straight false maxLinks hp hs

theorem resolveNew_straight {p : Path} (hp : Plain p) (hs : t.Straight p) :
    t.resolveNew p =
      if t.has p || t.isDir p.dropLast then .ok p else .error (t.missing [] p) := by
  simpa [resolveNew] using resolveFrom_straight true maxLinks hp hs

theorem resolve_real {p : Path} (hp : Plain p) (h : t.isDir p = true) : t.resolve p = .ok p := by
  rw [resolve_straight hp (straight_of_isDir h), if_pos (has_of_isDir h)]

/-- Where the directories above a path are without links, its last component is
looked up in its parent. -/
theorem locate_straight {p : Path} {n : Name} (hp : Plain (p ++ [n])) (hs : t.Straight p) :
    t.locate (p ++ [n]) =
      if t.isDir p then .ok (p ++ [n])
      else if t.has p then .error .notADirectory
      else .error (t.missing [] p) := by
  obtain ⟨hp', hn⟩ := plain_append.mp hp
  have hn' : special n = false := hn n (by simp)
  rw [locate, List.getLast?_concat]
  simp only [hn', Bool.false_eq_true, if_false, List.dropLast_concat]
  rw [resolve_straight hp' hs]
  by_cases hh : t.has p = true
  · simp only [hh, if_true]
  · have hd : t.isDir p ≠ true := fun hd => hh (has_of_isDir hd)
    simp [hh, hd]

theorem locate_of_isDir {p : Path} {n : Name} (hp : Plain (p ++ [n])) (h : t.isDir p = true) :
    t.locate (p ++ [n]) = .ok (p ++ [n]) := by
  rw [locate_straight hp (straight_of_isDir h), if_pos h]

theorem locate_ok_straight {p q : Path} (hne : p ≠ []) (hp : Plain p)
    (hs : t.Straight p.dropLast) (h : t.locate p = .ok q) :
    q = p ∧ t.isDir p.dropLast = true := by
  rcases List.eq_nil_or_concat' p with rfl | ⟨s, n, rfl⟩
  · exact absurd rfl hne
  · rw [List.dropLast_concat] at hs ⊢
    rw [locate_straight hp hs] at h
    split at h
    next hd => exact ⟨(Except.ok.inj h).symm, hd⟩
    next =>
      split at h <;> cases h

/-- With no file above it either, a path without links that is not there is
simply missing. -/
theorem missing_eq_notFound :
    ∀ {p : List Name} {cur : Path},
      (∀ q, q <+: p → (t.node (cur ++ q)).all Node.isDir) → t.missing cur p = .notFound
  | [], _, _ => rfl
  | c :: rest, cur, h => by
      have hc := h [c] (by simp)
      rw [missing]
      cases hn : t.node (cur ++ [c]) with
      | none => rfl
      | some x =>
          rw [hn] at hc
          cases x with
          | dir m =>
              refine missing_eq_notFound fun q hq => ?_
              have := h (c :: q) (by simpa using hq)
              simpa using this
          | file content m => simp [Node.isDir] at hc
          | symlink target => simp [Node.isDir] at hc

end Straight

/-! ### The walk, one component a step -/

/-- One step of resolving a path: the directory the walk stands in and the
components that are left. -/
inductive WalkStep (t : Tree) : Path × List Name → Path × List Name → Prop where
  | stay {cur rest c} (hc : c = [] ∨ c = ['.']) : WalkStep t (cur, c :: rest) (cur, rest)
  | up {cur rest} : WalkStep t (cur, ['.', '.'] :: rest) (cur.dropLast, rest)
  | down {cur rest c} (hc : special c = false) (hd : t.isDir (cur ++ [c]) = true) :
      WalkStep t (cur, c :: rest) (cur ++ [c], rest)
  | file {cur c content m} (hc : special c = false)
      (hn : t.node (cur ++ [c]) = some (.file content m)) :
      WalkStep t (cur, [c]) (cur ++ [c], [])
  | link {cur rest c target} (hc : special c = false)
      (hn : t.node (cur ++ [c]) = some (.symlink target)) :
      WalkStep t (cur, c :: rest) (linkStart cur target, splitPath target ++ rest)

/-- Any number of steps of a walk, through any number of links. -/
def Walks (t : Tree) : Path × List Name → Path × List Name → Prop :=
  Relation.ReflTransGen t.WalkStep

theorem walks_of_walk {t : Tree} {follow : Path → List Name → Except Errno Path} {q : Path}
    (hf : ∀ {cur rest}, follow cur rest = .ok q → t.Walks (cur, rest) (q, [])) :
    ∀ {rest : List Name} {cur : Path}, t.walk false follow cur rest = .ok q →
      t.Walks (cur, rest) (q, [])
  | [], cur, h => by
      cases h
      exact Relation.ReflTransGen.refl
  | c :: rest, cur, h => by
      by_cases hc : special c = false
      · rw [walk_plain hc] at h
        cases hn : t.node (cur ++ [c]) with
        | none => simp [hn] at h
        | some x =>
            rw [hn] at h
            cases x with
            | dir m =>
                exact Relation.ReflTransGen.head (.down hc (isDir_iff.mpr ⟨m, hn⟩))
                  (walks_of_walk hf h)
            | file content m =>
                by_cases hr : rest = []
                · subst hr
                  cases h
                  exact Relation.ReflTransGen.single (.file hc hn)
                · simp [hr] at h
            | symlink target => exact Relation.ReflTransGen.head (.link hc hn) (hf h)
      · rw [walk] at h
        by_cases h₁ : c = [] ∨ c = ['.']
        · rw [if_pos (by simpa using h₁)] at h
          exact Relation.ReflTransGen.head (.stay h₁) (walks_of_walk hf h)
        · have h₂ : c = ['.', '.'] := by
            rw [special_eq_false] at hc
            tauto
          subst h₂
          rw [if_neg (by simp), if_pos (by simp)] at h
          exact Relation.ReflTransGen.head .up (walks_of_walk hf h)

/-- What bounded resolution reaches, the unbounded walk reaches. -/
theorem walks_of_resolveFrom {t : Tree} {q : Path} :
    ∀ {links : Nat} {cur rest}, t.resolveFrom false links cur rest = .ok q →
      t.Walks (cur, rest) (q, [])
  | 0, _, _, h => walks_of_walk (fun h => by cases h) h
  | _ + 1, _, _, h => walks_of_walk walks_of_resolveFrom h

/-! ### Links that stay inside a directory -/

section Inside

variable {t : Tree} {dest : Path}

/-- The components a walk does not skip. -/
def moving (names : List Name) : List Name :=
  names.filter fun c => !(c == [] || c == ['.'])

/-- `names` goes up at most `d` times, and only before it goes down. -/
def UpAtMost (d : Nat) (names : List Name) : Prop :=
  ∃ k ns, moving names = List.replicate k ['.', '.'] ++ ns ∧ ['.', '.'] ∉ ns ∧ k ≤ d

/-- Every link beneath `dest` is relative and goes up no further than it sits
below `dest`. -/
def LinksInside (t : Tree) (dest : Path) : Prop :=
  ∀ s n target, t.node (dest ++ s ++ [n]) = some (.symlink target) →
    isAbsolute target = false ∧ UpAtMost s.length (splitPath target)

/-- The walk stands at or beneath `dest` and has no more to go up than that. -/
def Inside (dest : Path) (w : Path × List Name) : Prop :=
  ∃ s, w.1 = dest ++ s ∧ UpAtMost s.length w.2

theorem Inside.below {w : Path × List Name} (h : Inside dest w) : dest <+: w.1 := by
  obtain ⟨s, hs, -⟩ := h
  exact ⟨s, hs.symm⟩

theorem moving_append (xs ys : List Name) : moving (xs ++ ys) = moving xs ++ moving ys :=
  List.filter_append ..

theorem moving_skip {c : Name} {rest : List Name} (hc : c = [] ∨ c = ['.']) :
    moving (c :: rest) = moving rest := by
  rcases hc with rfl | rfl <;> simp [moving]

theorem moving_keep {c : Name} {rest : List Name} (h₁ : c ≠ []) (h₂ : c ≠ ['.']) :
    moving (c :: rest) = c :: moving rest := by
  simp [moving, h₁, h₂]

/-- Before a component that goes down there is nothing to go up. -/
theorem UpAtMost.tail_of_plain {c : Name} {rest : List Name} {d : Nat}
    (hc : special c = false) (h : UpAtMost d (c :: rest)) :
    ['.', '.'] ∉ moving rest := by
  obtain ⟨h₁, h₂, h₃⟩ := special_eq_false.mp hc
  obtain ⟨k, ns, heq, hns, -⟩ := h
  rw [moving_keep h₁ h₂] at heq
  cases k with
  | zero =>
      have : ns = c :: moving rest := by simpa using heq.symm
      subst this
      exact fun hm => hns (List.mem_cons_of_mem _ hm)
  | succ k =>
      rw [List.replicate_succ, List.cons_append] at heq
      exact absurd (List.cons.inj heq).1 h₃

theorem UpAtMost.of_not_mem {names : List Name} (h : ['.', '.'] ∉ moving names) (d : Nat) :
    UpAtMost d names :=
  ⟨0, moving names, by simp, h, Nat.zero_le d⟩

theorem inside_step (hl : LinksInside t dest) {w w' : Path × List Name}
    (hw : Inside dest w) (h : t.WalkStep w w') : Inside dest w' := by
  obtain ⟨s, hcur, hup⟩ := hw
  cases h with
  | stay hc =>
      obtain ⟨k, ns, heq, hns, hk⟩ := hup
      rw [moving_skip hc] at heq
      exact ⟨s, hcur, k, ns, heq, hns, hk⟩
  | up =>
      obtain ⟨k, ns, heq, hns, hk⟩ := hup
      rw [moving_keep (by simp) (by simp)] at heq
      cases k with
      | zero =>
          have : ['.', '.'] ∈ ns := by
            rw [List.replicate_zero, List.nil_append] at heq
            rw [← heq]
            exact List.mem_cons_self
          exact absurd this hns
      | succ k =>
          have hs : s ≠ [] := by
            rintro rfl
            simp at hk
          refine ⟨s.dropLast, ?_, k, ns, ?_, hns, ?_⟩
          · subst hcur
            exact List.dropLast_append_of_ne_nil hs
          · rw [List.replicate_succ, List.cons_append] at heq
            exact (List.cons.inj heq).2
          · rw [List.length_dropLast]
            omega
  | @down _ _ c hc hd =>
      subst hcur
      exact ⟨s ++ [c], by simp, .of_not_mem (hup.tail_of_plain hc) _⟩
  | @file _ c _ _ hc hn =>
      subst hcur
      exact ⟨s ++ [c], by simp, .of_not_mem (by simp [moving]) _⟩
  | @link _ rest _ _ hc hn =>
      subst hcur
      obtain ⟨habs, k, ns, heq, hns, hk⟩ := hl s _ _ hn
      refine ⟨s, by simp [linkStart, habs], k, ns ++ moving rest, ?_, ?_, hk⟩
      · rw [moving_append, heq, List.append_assoc]
      · rw [List.mem_append, not_or]
        exact ⟨hns, hup.tail_of_plain hc⟩

/-- **A walk that starts inside stays inside.** -/
theorem inside_of_walks (hl : LinksInside t dest) {w w' : Path × List Name}
    (hw : Inside dest w) (h : t.Walks w w') : Inside dest w' := by
  induction h with
  | refl => exact hw
  | tail _ hstep ih => exact inside_step hl ih hstep

end Inside

end Tree

end FileTree
