/-
# A finite file tree and its path resolution

A `Tree` maps physical locations (the names from the root down) to nodes. It is
closed under parents by construction, so every operation has to say why the
parent of what it adds is a directory.

* `Tree.isDir_of_above` — everything above a present node is a directory.
* `Tree.node_put`, `Tree.node_erase`, `Tree.node_prune`, `Tree.node_move` — what
  each update leaves at each location.
-/

import Mathlib.Data.List.Basic
import Mathlib.Data.List.Infix
import Mathlib.Tactic.Common

namespace FileTree

/-- One path component. -/
abbrev Name := List Char

/-- A location: the names from the root down. -/
abbrev Path := List Name

/-- File contents. -/
abbrev Bytes := List UInt8

/-- What sits at a location. A mode of `none` is the one the process umask gives. -/
inductive Node where
  | dir (mode : Option Nat)
  | file (content : Bytes) (mode : Option Nat)
  | symlink (target : List Char)
  deriving DecidableEq, Repr

namespace Node

def isDir : Node → Bool
  | dir _ => true
  | _ => false

def isFile : Node → Bool
  | file .. => true
  | _ => false

def isSymlink : Node → Bool
  | symlink _ => true
  | _ => false

end Node

/-- The error kinds a program can tell apart. -/
inductive Errno where
  | notFound
  | alreadyExists
  | notADirectory
  | isADirectory
  | directoryNotEmpty
  | filesystemLoop
  | invalidInput
  | other (code : Nat)
  deriving DecidableEq, Repr

/-- A step that succeeded with a value the rest succeeded from. -/
theorem bind_eq_ok {ε α β : Type} {x : Except ε α} {f : α → Except ε β} {b : β} :
    (x >>= f) = .ok b ↔ ∃ a, x = .ok a ∧ f a = .ok b := by
  cases x <;> simp [bind, Except.bind]

/-- A prefix of an appended path stops in its first part or goes on in its second. -/
theorem prefix_append_cases {α : Type} {q a b : List α} (h : q <+: a ++ b) :
    q <+: a ∨ ∃ s, q = a ++ s ∧ s <+: b := by
  rcases List.prefix_or_prefix_of_prefix h (List.prefix_append a b) with hq | ⟨s, rfl⟩
  · exact .inl hq
  · exact .inr ⟨s, rfl, (List.prefix_append_right_inj a).mp h⟩

/-! ### Trees -/

/-- A finite tree of nodes: the root is a directory, and so is the parent of
every node. `paths` lists a finite set of locations outside which there is
nothing, so that emptiness of a directory can be decided. -/
structure Tree where
  node : Path → Option Node
  paths : List Path
  mem_paths : ∀ p, (node p).isSome → p ∈ paths
  root_dir : (node []).any Node.isDir
  parent_dir : ∀ p n, (node (p ++ [n])).isSome → (node p).any Node.isDir

namespace Tree

/-- `p` is a real directory. -/
def isDir (t : Tree) (p : Path) : Bool := (t.node p).any Node.isDir

/-- Something sits at `p`. -/
def has (t : Tree) (p : Path) : Bool := (t.node p).isSome

/-- No node sits directly beneath `p`. -/
def childless (t : Tree) (p : Path) : Bool :=
  t.paths.all fun q => !(t.has q && q != [] && q.dropLast == p)

variable {t : Tree} {p q : Path}

theorem isDir_iff : t.isDir p = true ↔ ∃ m, t.node p = some (.dir m) := by
  unfold isDir
  cases h : t.node p with
  | none => simp
  | some x => cases x <;> simp [Node.isDir]

theorem has_of_isDir (h : t.isDir p = true) : t.has p = true := by
  obtain ⟨m, hm⟩ := isDir_iff.mp h
  simp [has, hm]

theorem has_of_node {x : Node} (h : t.node p = some x) : t.has p = true := by
  simp [has, h]

@[simp] theorem isDir_root (t : Tree) : t.isDir [] = true := t.root_dir

theorem isDir_of_child {n : Name} (h : t.has (p ++ [n]) = true) : t.isDir p = true :=
  t.parent_dir p n h

/-- **Everything above a node is a directory.** -/
theorem isDir_of_append {s : Path} (hs : s ≠ []) (h : t.has (p ++ s) = true) :
    t.isDir p = true := by
  induction s using List.reverseRecOn with
  | nil => exact absurd rfl hs
  | append_singleton s n ih =>
      rw [← List.append_assoc] at h
      have hd : t.isDir (p ++ s) = true := isDir_of_child h
      by_cases hs' : s = []
      · subst hs'
        simpa using hd
      · exact ih hs' (has_of_isDir hd)

theorem isDir_of_above (hpq : p <+: q) (hne : p ≠ q) (h : t.has q = true) :
    t.isDir p = true := by
  obtain ⟨s, rfl⟩ := hpq
  exact isDir_of_append (by rintro rfl; simp at hne) h

theorem isDir_above (hpq : p <+: q) (h : t.isDir q = true) : t.isDir p = true := by
  by_cases hne : p = q
  · exact hne ▸ h
  · exact isDir_of_above hpq hne (has_of_isDir h)

theorem isDir_dropLast (h : t.has p = true) : t.isDir p.dropLast = true := by
  rcases List.eq_nil_or_concat' p with rfl | ⟨s, n, rfl⟩
  · simp
  · rw [List.dropLast_concat]
    exact isDir_of_child h

theorem childless_iff : t.childless p = true ↔ ∀ n, t.node (p ++ [n]) = none := by
  unfold childless has
  constructor
  · intro h n
    by_contra hne
    have hs : (t.node (p ++ [n])).isSome := Option.isSome_iff_ne_none.mpr hne
    have := List.all_eq_true.mp h _ (t.mem_paths _ hs)
    simp [hs] at this
  · intro h
    rw [List.all_eq_true]
    intro q hq
    rcases List.eq_nil_or_concat' q with rfl | ⟨s, n, rfl⟩
    · simp
    · by_cases hs : s = p
      · subst hs
        simp [h n]
      · simp [hs]

/-- The tree of a root directory and nothing else. -/
def empty : Tree where
  node p := if p = [] then some (.dir none) else none
  paths := [[]]
  mem_paths p h := by
    by_cases hp : p = [] <;> simp_all
  root_dir := rfl
  parent_dir p n h := by simp at h

/-! ### Updates -/

/-- What makes a tree with `x` at `p` well formed: `p` stays a directory if it
is one, and else its parent is a directory. -/
def CanPut (t : Tree) (p : Path) (x : Node) : Prop :=
  if t.isDir p then x.isDir = true else t.isDir p.dropLast = true

instance (t : Tree) (p : Path) (x : Node) : Decidable (t.CanPut p x) :=
  inferInstanceAs (Decidable (if t.isDir p then x.isDir = true else t.isDir p.dropLast = true))

/-- Set the node at `p`; a tree where that is not possible is unchanged. -/
def put (t : Tree) (p : Path) (x : Node) : Tree :=
  if h : t.CanPut p x then
    { node := fun q => if q = p then some x else t.node q
      paths := p :: t.paths
      mem_paths := by
        intro q hq
        by_cases hqp : q = p
        · simp [hqp]
        · simp only [if_neg hqp] at hq
          exact List.mem_cons_of_mem _ (t.mem_paths q hq)
      root_dir := by
        by_cases hp : p = []
        · subst hp
          have hx : x.isDir = true := by simpa [CanPut] using h
          simp [hx]
        · simp only [if_neg (Ne.symm hp)]
          exact t.root_dir
      parent_dir := by
        intro q n hq
        have hdir : t.isDir q = true ∨ q ++ [n] = p ∧ t.isDir p = false := by
          by_cases hqp : q ++ [n] = p
          · cases hd : t.isDir p with
            | false => exact .inr ⟨hqp, rfl⟩
            | true => exact .inl (isDir_of_child (hqp ▸ has_of_isDir hd))
          · simp only [if_neg hqp] at hq
            exact .inl (isDir_of_child hq)
        by_cases hqp : q = p
        · subst hqp
          rcases hdir with hd | ⟨hc, -⟩
          · have hx : x.isDir = true := by simpa [CanPut, hd] using h
            simp [hx]
          · simp at hc
        · simp only [if_neg hqp]
          rcases hdir with hd | ⟨rfl, hf⟩
          · exact hd
          · have hp : t.isDir (q ++ [n]).dropLast = true := by simpa [CanPut, hf] using h
            rwa [List.dropLast_concat] at hp }
  else t

theorem node_put {x : Node} (h : t.CanPut p x) (q : Path) :
    (t.put p x).node q = if q = p then some x else t.node q := by
  rw [put, dif_pos h]

/-- Remove the node at `p`, if nothing sits beneath it. -/
def erase (t : Tree) (p : Path) : Tree :=
  if h : p ≠ [] ∧ t.childless p = true then
    { node := fun q => if q = p then none else t.node q
      paths := t.paths
      mem_paths := by
        intro q hq
        by_cases hqp : q = p
        · simp [hqp] at hq
        · simp only [if_neg hqp] at hq
          exact t.mem_paths q hq
      root_dir := by
        simp only [if_neg (Ne.symm h.1)]
        exact t.root_dir
      parent_dir := by
        intro q n hq
        have hq' : (t.node (q ++ [n])).isSome := by
          by_cases hqp : q ++ [n] = p
          · simp [hqp] at hq
          · simpa only [if_neg hqp] using hq
        have hqp : q ≠ p := by
          rintro rfl
          rw [childless_iff.mp h.2 n] at hq'
          simp at hq'
        simp only [if_neg hqp]
        exact t.parent_dir q n hq' }
  else t

theorem node_erase (hp : p ≠ []) (hc : t.childless p = true) (q : Path) :
    (t.erase p).node q = if q = p then none else t.node q := by
  rw [erase, dif_pos ⟨hp, hc⟩]

theorem childless_of_not_isDir (h : t.isDir p = false) : t.childless p = true := by
  rw [childless_iff]
  intro n
  by_contra hne
  have := isDir_of_child (t := t) (p := p) (n := n) (Option.isSome_iff_ne_none.mpr hne)
  simp [h] at this

/-- Remove everything at and beneath `p`. -/
def prune (t : Tree) (p : Path) : Tree :=
  if h : p ≠ [] then
    { node := fun q => if p <+: q then none else t.node q
      paths := t.paths
      mem_paths := by
        intro q hq
        by_cases hpq : p <+: q
        · simp [hpq] at hq
        · exact t.mem_paths q (by simpa [hpq] using hq)
      root_dir := by
        have : ¬ p <+: [] := by simpa using h
        simpa [this] using t.root_dir
      parent_dir := by
        intro q n hq
        by_cases hpq : p <+: q ++ [n]
        · simp [hpq] at hq
        · have hpq' : ¬ p <+: q := fun hc => hpq (hc.trans (List.prefix_append _ _))
          simp only [hpq, hpq', if_false] at hq ⊢
          exact t.parent_dir q n hq }
  else t

theorem node_prune (hp : p ≠ []) (q : Path) :
    (t.prune p).node q = if p <+: q then none else t.node q := by
  rw [prune, dif_pos hp]

/-- The location that moving `src` to `dst` puts at `q`. -/
def movedFrom (src dst q : Path) : Option Path :=
  if dst <+: q then some (src ++ q.drop dst.length)
  else if src <+: q then none
  else some q

/-- What makes moving `src` to `dst` well formed: `src` is there, neither is
above the other, and `dst` has a directory for a parent. -/
def CanMove (t : Tree) (src dst : Path) : Prop :=
  t.has src = true ∧ src ≠ [] ∧ dst ≠ [] ∧ t.isDir dst.dropLast = true ∧
    ¬ src <+: dst ∧ ¬ dst <+: src

instance (t : Tree) (src dst : Path) : Decidable (t.CanMove src dst) :=
  inferInstanceAs (Decidable (_ ∧ _ ∧ _ ∧ _ ∧ _ ∧ _))

/-- Move `src`, with all beneath it, onto `dst`, dropping what `dst` held. -/
def move (t : Tree) (src dst : Path) : Tree :=
  if h : t.CanMove src dst then
    { node := fun q => (movedFrom src dst q).bind t.node
      paths := t.paths ++ t.paths.map fun q => dst ++ q.drop src.length
      mem_paths := by
        intro q hq
        rw [List.mem_append, List.mem_map]
        unfold movedFrom at hq
        split at hq
        next hd =>
          obtain ⟨s, rfl⟩ := hd
          refine .inr ⟨src ++ s, t.mem_paths _ (by simpa using hq), by simp⟩
        next =>
          split at hq
          · simp at hq
          · exact .inl (t.mem_paths q (by simpa using hq))
      root_dir := by
        obtain ⟨-, hs, hd, -⟩ := h
        have h₁ : ¬ dst <+: [] := by simpa using hd
        have h₂ : ¬ src <+: [] := by simpa using hs
        simpa [movedFrom, h₁, h₂] using t.root_dir
      parent_dir := by
        obtain ⟨hsrc, hs, hd, hpar, hsd, hds⟩ := h
        intro q n hq
        by_cases hdq : dst <+: q
        · obtain ⟨s, rfl⟩ := hdq
          have h₁ : dst <+: dst ++ s ++ [n] := by rw [List.append_assoc]; exact ⟨_, rfl⟩
          rw [movedFrom, if_pos h₁] at hq
          rw [movedFrom, if_pos (List.prefix_append _ _)]
          simp only [List.append_assoc, List.drop_left, Option.bind_some] at hq ⊢
          rw [← List.append_assoc] at hq
          exact t.parent_dir _ n hq
        · by_cases hdn : dst = q ++ [n]
          · have hq' : ¬ src <+: q := fun hc => hsd (hdn ▸ hc.trans (List.prefix_append _ _))
            rw [movedFrom, if_neg hdq, if_neg hq']
            rw [hdn, List.dropLast_concat] at hpar
            exact hpar
          · have hdn' : ¬ dst <+: q ++ [n] := by
              rintro hc
              rcases (List.prefix_concat_iff.mp hc) with h | h
              · exact hdn h
              · exact hdq h
            by_cases hsn : src <+: q ++ [n]
            · simp [movedFrom, hdn', hsn] at hq
            · have hsq : ¬ src <+: q := fun hc => hsn (hc.trans (List.prefix_append _ _))
              rw [movedFrom, if_neg hdn', if_neg hsn] at hq
              rw [movedFrom, if_neg hdq, if_neg hsq]
              exact t.parent_dir q n hq }
  else t

theorem node_move {src dst : Path} (h : t.CanMove src dst) (q : Path) :
    (t.move src dst).node q = (movedFrom src dst q).bind t.node := by
  rw [move, dif_pos h]

/-- A tree of the listed nodes, each put after its parent. -/
def ofNodes (nodes : List (Path × Node)) : Tree := nodes.foldl (fun t x => t.put x.1 x.2) empty

/-- No node is a link. -/
def linkless (t : Tree) : Bool := t.paths.all fun p => !(t.node p).any Node.isSymlink

theorem linkless_iff :
    t.linkless = true ↔ ∀ p target, t.node p ≠ some (.symlink target) := by
  unfold linkless
  rw [List.all_eq_true]
  constructor
  · intro h p target hn
    have := h p (t.mem_paths p (by simp [hn]))
    simp [hn, Node.isSymlink] at this
  · intro h p _
    cases hn : t.node p with
    | none => rfl
    | some x =>
        cases x with
        | dir m => rfl
        | file content m => rfl
        | symlink target => exact absurd hn (h p target)

end Tree

end FileTree
