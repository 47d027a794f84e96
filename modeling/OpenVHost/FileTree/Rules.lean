/-
# Rules for programs over a file tree

`Io.wp` is the weakest precondition of a program, with one postcondition for a
result and one for an error. The rules below take it apart along the program;
the lemmas on tree operations say what each does on a path without links.

* `Io.wp_bind`, `Io.wp_forM`, `Io.wp_update`, `Io.wp_query` — the rules a proof
  about a program follows.
* `Tree.addNew_ok`, `Tree.chmod_ok`, `Tree.append_ok`, `Tree.copy_ok` — what a
  successful operation leaves.
* `Io.wp_createDirAll` — on a path without links, `createDirAll` only adds the
  directories that are missing; when it returns they are all there, and without
  faults it fails only where a file is in the way.
-/

import OpenVHost.FileTree.Io

namespace FileTree

/-! ### What the operations do on a path without links -/

namespace Tree

section Straight

variable {t t' : Tree} {p : Path}

theorem put_node_of_parent {x : Node} (hp : t.isDir p.dropLast = true) (hn : t.isDir p = false)
    (q : Path) : (t.put p x).node q = if q = p then some x else t.node q := by
  refine node_put ?_ q
  simp [CanPut, hn, hp]

theorem put_node_of_some {x y : Node} (hy : t.node p = some y)
    (hdir : y.isDir = true → x.isDir = true) (q : Path) :
    (t.put p x).node q = if q = p then some x else t.node q := by
  refine node_put ?_ q
  unfold CanPut
  split
  next hd =>
    obtain ⟨m, hm⟩ := isDir_iff.mp hd
    rw [hm] at hy
    exact hdir (Option.some.inj hy ▸ rfl)
  next => exact isDir_dropLast (has_of_node hy)

theorem addNew_ok {x : Node} (hne : p ≠ []) (hp : Plain p) (hs : t.Straight p.dropLast)
    (h : t.addNew p x = .ok t') :
    t.isDir p.dropLast = true ∧ t.node p = none ∧
      ∀ q, t'.node q = if q = p then some x else t.node q := by
  unfold addNew at h
  cases hl : t.locate p with
  | error e => simp [hl] at h
  | ok q =>
      obtain ⟨rfl, hd⟩ := locate_ok_straight hne hp hs hl
      simp only [hl] at h
      split at h
      · cases h
      next hh =>
        have hnone : t.node q = none := by simpa [has] using hh
        cases h
        exact ⟨hd, hnone, put_node_of_parent hd (by simp [isDir, hnone])⟩

theorem addNew_of_isDir {x : Node} (hne : p ≠ []) (hp : Plain p) (hd : t.isDir p.dropLast = true)
    (hn : t.node p = none) : t.addNew p x = .ok (t.put p x) := by
  rcases List.eq_nil_or_concat' p with rfl | ⟨s, n, rfl⟩
  · exact absurd rfl hne
  · rw [List.dropLast_concat] at hd
    simp [addNew, locate_of_isDir hp hd, has, hn]

theorem stat_straight (hp : Plain p) (hs : t.Straight p) :
    t.stat p = match t.node p with | some x => .ok x | none => .error (t.missing [] p) := by
  unfold stat
  rw [resolve_straight hp hs]
  cases hn : t.node p with
  | none => simp [has, hn]
  | some x => simp [has, hn]

theorem lstat_ok (hne : p ≠ []) (hp : Plain p) (hs : t.Straight p.dropLast) {x : Node}
    (h : t.lstat p = .ok x) : t.node p = some x := by
  unfold lstat at h
  cases hl : t.locate p with
  | error e => simp [hl] at h
  | ok q =>
      obtain ⟨rfl, -⟩ := locate_ok_straight hne hp hs hl
      simp only [hl] at h
      cases hn : t.node q with
      | none => simp [hn] at h
      | some y =>
          rw [hn] at h
          exact congrArg some (Except.ok.inj h)

theorem chmod_ok {mode : Nat} (hp : Plain p) (hs : t.Straight p) (h : t.chmod p mode = .ok t') :
    ∃ x, t.node p = some x ∧
      ∀ q, t'.node q = if q = p then some (setMode mode x) else t.node q := by
  unfold chmod at h
  rw [resolve_straight hp hs] at h
  cases hn : t.node p with
  | none => simp [has, hn] at h
  | some x =>
      simp only [has, hn, Option.isSome_some, if_true] at h
      cases h
      refine ⟨x, rfl, put_node_of_some hn ?_⟩
      cases x <;> simp [setMode, Node.isDir]

theorem chmod_of_node {mode : Nat} {x : Node} (hp : Plain p) (hs : t.Straight p)
    (hn : t.node p = some x) : t.chmod p mode = .ok (t.put p (setMode mode x)) := by
  simp [chmod, resolve_straight hp hs, has, hn]

theorem append_ok {bytes : Bytes} (hp : Plain p) (hs : t.Straight p)
    (h : t.append p bytes = .ok t') :
    ∃ content mode, t.node p = some (.file content mode) ∧
      ∀ q, t'.node q = if q = p then some (.file (content ++ bytes) mode) else t.node q := by
  unfold append at h
  rw [resolve_straight hp hs] at h
  cases hn : t.node p with
  | none => simp [has, hn] at h
  | some x =>
      simp only [has, hn, Option.isSome_some, if_true] at h
      cases x with
      | dir m => cases h
      | symlink target => cases h
      | file content mode =>
          cases h
          exact ⟨content, mode, rfl, put_node_of_some hn (by simp [Node.isDir])⟩

theorem append_of_node {bytes content : Bytes} {mode : Option Nat} (hp : Plain p)
    (hs : t.Straight p) (hn : t.node p = some (.file content mode)) :
    t.append p bytes = .ok (t.put p (.file (content ++ bytes) mode)) := by
  simp [append, resolve_straight hp hs, has, hn]

theorem copy_ok {src dst : Path} {n : Nat} (hsrc : Plain src) (hdst : Plain dst)
    (hs : t.Straight src) (hd : t.Straight dst) (h : t.copy src dst none = .ok (n, t')) :
    ∃ content mode, t.node src = some (.file content mode) ∧ t.isDir dst = false ∧
      ∀ q, t'.node q =
        if q = dst then some (.file (if src = dst then [] else content) mode) else t.node q := by
  unfold copy at h
  rw [resolve_straight hsrc hs, resolveNew_straight hdst hd] at h
  cases hn : t.node src with
  | none => simp [has, hn] at h
  | some x =>
      rw [if_pos (has_of_node hn)] at h
      simp only [hn] at h
      cases x with
      | dir m => cases h
      | symlink target => cases h
      | file content mode =>
          refine ⟨content, mode, rfl, ?_⟩
          by_cases hr : (t.has dst || t.isDir dst.dropLast) = true
          · simp only [hr, if_true] at h
            split at h
            · cases h
            next hnd =>
              have hnd' : t.isDir dst = false := by simpa using hnd
              have hpar : t.isDir dst.dropLast = true := by
                rcases (Bool.or_eq_true _ _).mp hr with hh | hh
                · exact isDir_dropLast hh
                · exact hh
              cases h
              exact ⟨hnd', put_node_of_parent hpar hnd'⟩
          · simp only [hr, if_false, Bool.false_eq_true] at h
            cases h

end Straight

/-! ### Adding missing directories -/

/-- `t'` is `t` with some of the missing directories at or above `p` added. -/
def Adds (p : Path) (t t' : Tree) : Prop :=
  ∀ q, t'.node q = t.node q ∨
    (q <+: p ∧ t.node q = none ∧ t'.node q = some (.dir none))

namespace Adds

variable {t t' t'' : Tree} {p q : Path}

theorem refl (p : Path) (t : Tree) : Adds p t t := fun _ => .inl rfl

theorem trans (h : Adds p t t') (h' : Adds p t' t'') : Adds p t t'' := by
  intro q
  rcases h q with h₁ | ⟨hq, hn, hd⟩
  · rcases h' q with h₂ | ⟨hq, hn, hd⟩
    · exact .inl (h₂.trans h₁)
    · exact .inr ⟨hq, h₁ ▸ hn, hd⟩
  · rcases h' q with h₂ | ⟨-, hn', -⟩
    · exact .inr ⟨hq, hn, h₂.trans hd⟩
    · rw [hd] at hn'
      cases hn'

theorem mono (h : Adds q t t') (hqp : q <+: p) : Adds p t t' := by
  intro r
  rcases h r with h₁ | ⟨hr, hn, hd⟩
  · exact .inl h₁
  · exact .inr ⟨hr.trans hqp, hn, hd⟩

theorem keeps (h : Adds p t t') {x : Node} (hx : t.node q = some x) : t'.node q = some x := by
  rcases h q with h₁ | ⟨-, hn, -⟩
  · exact h₁.trans hx
  · rw [hn] at hx
    cases hx

theorem isDir (h : Adds p t t') (hq : t.isDir q = true) : t'.isDir q = true := by
  obtain ⟨m, hm⟩ := isDir_iff.mp hq
  exact isDir_iff.mpr ⟨m, h.keeps hm⟩

theorem straight (h : Adds p t t') (hs : t.Straight q) : t'.Straight q := by
  intro r hr target hn
  rcases h r with h₁ | ⟨-, -, hd⟩
  · exact hs r hr target (h₁ ▸ hn)
  · rw [hd] at hn
    cases hn

/-- What is not a directory was there before. -/
theorem node_of_not_isDir (h : Adds p t t') {x : Node} (hx : t'.node q = some x)
    (hd : x.isDir = false) : t.node q = some x := by
  rcases h q with h₁ | ⟨-, -, hn⟩
  · exact h₁ ▸ hx
  · rw [hn] at hx
    cases hx
    simp [Node.isDir] at hd

theorem of_addNew (hne : p ≠ []) (hp : Plain p) (hs : t.Straight p.dropLast)
    (h : t.mkdir p = .ok t') : Adds p t t' := by
  obtain ⟨-, hn, hq⟩ := addNew_ok hne hp hs h
  intro q
  rw [hq q]
  by_cases hqp : q = p
  · subst hqp
    exact .inr ⟨List.prefix_refl _, hn, by simp⟩
  · exact .inl (by simp [hqp])

end Adds

/-- A file sits at or above `p`. -/
def Blocked (t : Tree) (p : Path) : Prop :=
  ∃ q content mode, q <+: p ∧ t.node q = some (.file content mode)

theorem Blocked.mono {t : Tree} {p q : Path} (h : t.Blocked q) (hqp : q <+: p) : t.Blocked p := by
  obtain ⟨r, content, mode, hr, hn⟩ := h
  exact ⟨r, content, mode, hr.trans hqp, hn⟩

theorem Blocked.of_adds {t t' : Tree} {p q : Path} (ha : Adds q t t') (h : t'.Blocked p) :
    t.Blocked p := by
  obtain ⟨r, content, mode, hr, hn⟩ := h
  exact ⟨r, content, mode, hr, ha.node_of_not_isDir hn rfl⟩

theorem blocked_of_not_isDir {t : Tree} {p : Path} (hs : t.Straight p) (hh : t.has p = true)
    (hd : t.isDir p = false) : t.Blocked p := by
  cases hn : t.node p with
  | none => simp [has, hn] at hh
  | some x =>
      cases x with
      | dir m => simp [isDir, hn, Node.isDir] at hd
      | file content mode => exact ⟨p, content, mode, List.prefix_refl _, hn⟩
      | symlink target => exact absurd hn (hs p (List.prefix_refl _) target)

/-- A directory cannot be made where one is, where its parent is missing, or
where a file is in the way. -/
theorem mkdir_error {t : Tree} {p : Path} {e : Errno} (hne : p ≠ []) (hp : Plain p)
    (hs : t.Straight p.dropLast) (h : t.mkdir p = .error e) :
    (e = .alreadyExists ∧ t.has p = true) ∨ (e = .notFound ∧ t.isDir p.dropLast = false) ∨
      t.Blocked p := by
  rcases List.eq_nil_or_concat' p with rfl | ⟨s, n, rfl⟩
  · exact absurd rfl hne
  · rw [List.dropLast_concat] at hs ⊢
    rw [mkdir, addNew, locate_straight hp hs] at h
    by_cases hd : t.isDir s = true
    · simp only [hd, if_true] at h
      split at h
      next hh =>
        cases h
        exact .inl ⟨rfl, hh⟩
      next => cases h
    · have hd' : t.isDir s = false := by simpa using hd
      have hpre : s <+: s ++ [n] := List.prefix_append _ _
      by_cases hh : t.has s = true
      · exact .inr (.inr ((blocked_of_not_isDir hs hh hd').mono hpre))
      · simp only [hd, hh, if_false, Bool.false_eq_true] at h
        cases h
        by_cases hb : t.Blocked s
        · exact .inr (.inr (hb.mono hpre))
        · refine .inr (.inl ⟨missing_eq_notFound fun q hq => ?_, hd'⟩)
          rw [List.nil_append]
          cases hn : t.node q with
          | none => rfl
          | some x =>
              cases x with
              | dir m => rfl
              | file content mode => exact absurd ⟨q, content, mode, hq, hn⟩ hb
              | symlink target => exact absurd hn (hs q hq target)

end Tree

/-! ### Weakest preconditions -/

namespace Io

variable {ε ε' α β : Type}

/-- Running `x` from `d` ends in `Q` with a result or in `E` with an error. -/
def wp (x : Io ε α) (Q : α → Disk → Prop) (E : ε → Disk → Prop) (d : Disk) : Prop :=
  match x d with
  | .ok a d' => Q a d'
  | .error e d' => E e d'

section Rules

variable {Q Q' : α → Disk → Prop} {E E' : ε → Disk → Prop} {d : Disk}

theorem wp_ok {x : Io ε α} {a : α} {d' : Disk} (h : wp x Q E d) (hx : x d = .ok a d') : Q a d' := by
  simpa [wp, hx] using h

theorem wp_error {x : Io ε α} {e : ε} {d' : Disk} (h : wp x Q E d) (hx : x d = .error e d') :
    E e d' := by
  simpa [wp, hx] using h

theorem exists_of_returns {x : Io ε α} (h : returns x d = true) : ∃ a d', x d = .ok a d' := by
  unfold returns at h
  cases hx : x d with
  | ok a d' => exact ⟨a, d', rfl⟩
  | error e d' => simp [hx] at h

theorem wp_mono {x : Io ε α} (h : wp x Q E d) (hQ : ∀ a d', Q a d' → Q' a d')
    (hE : ∀ e d', E e d' → E' e d') : wp x Q' E' d := by
  unfold wp at h ⊢
  cases hx : x d with
  | ok a d' => exact hQ a d' (by simpa [hx] using h)
  | error e d' => exact hE e d' (by simpa [hx] using h)

/-- A run always ends somewhere. -/
theorem wp_true (x : Io ε α) (d : Disk) : wp x (fun _ _ => True) (fun _ _ => True) d := by
  unfold wp
  cases x d <;> trivial

@[simp] theorem wp_pure {a : α} : wp (pure a) Q E d ↔ Q a d := Iff.rfl

@[simp] theorem wp_fail {e : ε} : wp (fail e) Q E d ↔ E e d := Iff.rfl

@[simp] theorem wp_bind {x : Io ε β} {f : β → Io ε α} :
    wp (x >>= f) Q E d ↔ wp x (fun b d' => wp (f b) Q E d') E d := by
  show wp (EStateM.bind x f) Q E d ↔ _
  unfold wp EStateM.bind
  cases x d <;> rfl

@[simp] theorem wp_mapErr {f : ε' → ε} {x : Io ε' α} :
    wp (mapErr f x) Q E d ↔ wp x Q (fun e d' => E (f e) d') d := by
  unfold wp mapErr
  cases x d <;> rfl

@[simp] theorem wp_attempt {x : Io ε' α} {Q : Except ε' α → Disk → Prop} :
    wp (attempt x) Q E d ↔ wp x (fun a => Q (.ok a)) (fun e => Q (.error e)) d := by
  unfold wp attempt
  cases x d <;> rfl

@[simp] theorem wp_ofExcept {a : Except ε α} :
    wp (ofExcept a) Q E d ↔ match a with | .ok a => Q a d | .error e => E e d := by
  cases a <;> rfl

/-- **The loop rule**: an invariant over what the loop has done. -/
theorem wp_forM {f : α → Io ε PUnit} {xs : List α} {I : List α → Disk → Prop}
    {Q : PUnit → Disk → Prop} (h : I [] d) (hQ : ∀ d', I xs d' → Q ⟨⟩ d')
    (hstep : ∀ done x rest d', xs = done ++ x :: rest → I done d' →
      wp (f x) (fun _ => I (done ++ [x])) E d') :
    wp (xs.forM f) Q E d := by
  have loop : ∀ rest done d', xs = done ++ rest → I done d' →
      wp (rest.forM f) Q E d' := by
    intro rest
    induction rest with
    | nil =>
        intro done d' hxs hd
        rw [List.append_nil] at hxs
        exact hQ d' (hxs ▸ hd)
    | cons x rest ih =>
        intro done d' hxs hd
        show wp (f x >>= fun _ => rest.forM f) Q E d'
        rw [wp_bind]
        refine wp_mono (hstep done x rest d' hxs hd) (fun _ d'' h'' => ?_) fun _ _ h => h
        exact ih (done ++ [x]) d'' (by simp [hxs]) h''
  exact loop xs [] d rfl h

end Rules

/-- Whatever a program returns, on whatever disk, has `P`. -/
def Gives (x : Io ε α) (P : α → Prop) : Prop := ∀ d a d', x d = .ok a d' → P a

namespace Gives

variable {P : α → Prop} {R : β → Prop}

theorem any (x : Io ε α) : Gives x fun _ => True := fun _ _ _ _ => trivial

theorem pure {a : α} (h : P a) : Gives (Pure.pure a : Io ε α) P := by
  rintro d b d' hb
  cases hb
  exact h

theorem bind {x : Io ε β} {f : β → Io ε α} (hx : Gives x R) (hf : ∀ b, R b → Gives (f b) P) :
    Gives (x >>= f) P := by
  intro d a d' h
  have hrun : EStateM.bind x f d = .ok a d' := h
  unfold EStateM.bind at hrun
  cases hxd : x d with
  | ok b d₁ =>
      rw [hxd] at hrun
      exact hf b (hx d b d₁ hxd) d₁ a d' hrun
  | error e d₁ => simp [hxd] at hrun

theorem ofExcept {x : Except ε α} (h : ∀ a, x = .ok a → P a) : Gives (Io.ofExcept x) P := by
  rintro d a d' hx
  cases x with
  | error e => cases hx
  | ok b =>
      cases hx
      exact h a rfl

theorem mapM' {f : α → Io ε β} :
    ∀ {xs : List α}, (∀ x ∈ xs, Gives (f x) R) → Gives (xs.mapM' f) fun ys => ∀ y ∈ ys, R y
  | [], _ => pure (by simp)
  | x :: xs, h => by
      refine bind (h x List.mem_cons_self) fun y hy => ?_
      refine bind (mapM' fun x hx => h x (List.mem_cons_of_mem _ hx)) fun ys hys => ?_
      refine pure fun z hz => ?_
      rcases List.mem_cons.mp hz with rfl | hz
      · exact hy
      · exact hys z hz

end Gives

/-- `d'` is `d` after an operation that left the tree and wrote nothing. -/
structure Kept (d d' : Disk) : Prop where
  tree : d'.tree = d.tree
  writes : d'.writes = d.writes
  faults : d.faults = [] → d'.faults = []

theorem Kept.refl (d : Disk) : Kept d d := ⟨rfl, rfl, id⟩

theorem Kept.trans {d d' d'' : Disk} (h : Kept d d') (h' : Kept d' d'') : Kept d d'' :=
  ⟨h'.tree.trans h.tree, h'.writes.trans h.writes, h'.faults ∘ h.faults⟩

/-- The error of an operation: its own, or a fault's. -/
def Raised (d : Disk) (own : Prop) (e : Errno) : Prop :=
  own ∨ (d.faults ≠ [] ∧ ∃ code, e = .other code)

theorem Raised.own {d : Disk} {own : Prop} {e : Errno} (h : Raised d own e)
    (he : d.faults = [] ∨ ∀ code, e ≠ .other code) : own := by
  rcases h with h | ⟨hf, code, hc⟩
  · exact h
  · rcases he with he | he
    · exact absurd he hf
    · exact absurd hc (he code)

theorem Raised.imp {d : Disk} {own own' : Prop} {e : Errno} (h : Raised d own e)
    (himp : own → own') : Raised d own' e :=
  Or.imp_left himp h

/-- **The rule of a loop that collects what it reads.** -/
theorem wp_collect {f : α → Io ε β} {R : α → β → Prop} {E : ε → Disk → Prop} {d : Disk} :
    ∀ {xs : List α}, (∀ x ∈ xs, ∀ d₁, Kept d d₁ →
        wp (f x) (fun y d₂ => Kept d d₂ ∧ R x y) E d₁) →
      ∀ {d₁}, Kept d d₁ →
        wp (xs.mapM' f) (fun ys d₂ => Kept d d₂ ∧ List.Forall₂ R xs ys) E d₁
  | [], _, _, hk => ⟨hk, .nil⟩
  | x :: xs, h, d₁, hk => by
      show wp (f x >>= fun y => xs.mapM' f >>= fun ys => pure (y :: ys)) _ E d₁
      rw [wp_bind]
      refine wp_mono (h x List.mem_cons_self d₁ hk) (fun y d₂ hy => ?_) fun _ _ h => h
      rw [wp_bind]
      refine wp_mono (wp_collect (fun x hx => h x (List.mem_cons_of_mem _ hx)) hy.1)
        (fun ys d₃ hys => ?_) fun _ _ h => h
      exact ⟨hys.1, .cons hy.2 hys.2⟩

section Operations

variable {E : Errno → Disk → Prop} {d : Disk}

theorem wp_call {writes : List Write} {partly : Fault → Tree → Tree}
    {f : Tree → Except Errno (α × Tree)} {Q : α → Disk → Prop}
    (hok : ∀ a d', f d.tree = .ok (a, d'.tree) → d'.writes = d.writes ++ writes →
      (d.faults = [] → d'.faults = []) → Q a d')
    (herr : ∀ e d', Kept d d' → f d.tree = .error e → E e d')
    (hfault : ∀ fault d', d.faults ≠ [] → d'.tree = partly fault d.tree →
      d'.writes = d.writes → E (.other fault.code) d') :
    wp (call writes partly f) Q E d := by
  unfold wp call
  rcases hfs : d.faults with _ | ⟨_ | fault, later⟩
  · cases hf : f d.tree with
    | ok r => exact hok r.1 _ hf rfl fun _ => rfl
    | error e => exact herr e _ ⟨rfl, rfl, fun _ => rfl⟩ hf
  · cases hf : f d.tree with
    | ok r => exact hok r.1 _ hf rfl fun h => by simp [hfs] at h
    | error e => exact herr e _ ⟨rfl, rfl, fun h => by simp [hfs] at h⟩ hf
  · exact hfault fault _ (by simp [hfs]) rfl rfl

theorem wp_query {f : Tree → Except Errno α} {Q : α → Disk → Prop}
    (hok : ∀ a d', Kept d d' → f d.tree = .ok a → Q a d')
    (herr : ∀ e d', Kept d d' → Raised d (f d.tree = .error e) e → E e d') :
    wp (query f) Q E d := by
  refine wp_call (fun a d' hf hw hfs => ?_) (fun e d' hk hf => ?_) fun fault d' hfs ht hw => ?_
  · cases hr : f d.tree with
    | error e => simp [hr, Except.map] at hf
    | ok b =>
        simp only [hr, Except.map, Except.ok.injEq, Prod.mk.injEq] at hf
        obtain ⟨rfl, ht⟩ := hf
        exact hok b d' ⟨ht.symm, by simpa using hw, hfs⟩ hr
  · cases hr : f d.tree with
    | error e' =>
        simp only [hr, Except.map, Except.error.injEq] at hf
        subst hf
        exact herr e' d' hk (.inl hr)
    | ok b => simp [hr, Except.map] at hf
  · exact herr _ d' ⟨ht, hw, fun h => absurd h hfs⟩ (.inr ⟨hfs, fault.code, rfl⟩)

theorem wp_update {writes : List Write} {f : Tree → Except Errno Tree} {Q : Unit → Disk → Prop}
    (hok : ∀ d', f d.tree = .ok d'.tree → d'.writes = d.writes ++ writes →
      (d.faults = [] → d'.faults = []) → Q () d')
    (herr : ∀ e d', Kept d d' → Raised d (f d.tree = .error e) e → E e d') :
    wp (update writes f) Q E d := by
  refine wp_call (fun a d' hf hw hfs => ?_) (fun e d' hk hf => ?_) fun fault d' hfs ht hw => ?_
  · cases hr : f d.tree with
    | error e => simp [hr, Except.map] at hf
    | ok t =>
        simp only [hr, Except.map, Except.ok.injEq, Prod.mk.injEq, true_and] at hf
        exact hok d' (hf ▸ hr) hw hfs
  · cases hr : f d.tree with
    | error e' =>
        simp only [hr, Except.map, Except.error.injEq] at hf
        subst hf
        exact herr e' d' hk (.inl hr)
    | ok t => simp [hr, Except.map] at hf
  · exact herr _ d' ⟨ht, hw, fun h => absurd h hfs⟩ (.inr ⟨hfs, fault.code, rfl⟩)

theorem wp_isFile {E : ε → Disk → Prop} {p : Path} {Q : Bool → Disk → Prop}
    (h : ∀ b d', Kept d d' → (b = true → ∃ content mode,
      d.tree.stat p = .ok (.file content mode)) → Q b d') :
    wp (isFile p) Q E d := by
  rw [isFile, wp_bind, wp_attempt, stat]
  refine wp_query (fun x d' hk hx => ?_) fun e d' hk _ => h false d' hk (by simp)
  refine h x.isFile d' hk fun hb => ?_
  cases x with
  | file content mode => exact ⟨content, mode, hx⟩
  | dir m => simp [Node.isFile] at hb
  | symlink target => simp [Node.isFile] at hb

theorem wp_isDir {E : ε → Disk → Prop} {p : Path} {Q : Bool → Disk → Prop}
    (h : ∀ b d', Kept d d' →
      (∃ x, d.tree.stat p = .ok x ∧ x.isDir = b) ∨
        (b = false ∧ ∃ e, Raised d (d.tree.stat p = .error e) e) → Q b d') :
    wp (isDir p) Q E d := by
  rw [isDir, wp_bind, wp_attempt, stat]
  refine wp_query (fun x d' hk hx => h x.isDir d' hk (.inl ⟨x, hx, rfl⟩)) fun e d' hk he => ?_
  exact h false d' hk (.inr ⟨rfl, e, he⟩)

end Operations

/-! ### Creating directories -/

section CreateDirAll

open FileTree.Tree

/-- What `createDirAll p` leaves: nothing but missing directories added. -/
structure DirsAdded (p : Path) (d d' : Disk) : Prop where
  adds : Adds p d.tree d'.tree
  writes : d'.writes = d.writes
  faults : d.faults = [] → d'.faults = []

theorem DirsAdded.of_kept {p : Path} {d d' : Disk} (h : Kept d d') : DirsAdded p d d' :=
  ⟨h.tree ▸ Adds.refl p _, h.writes, h.faults⟩

theorem DirsAdded.trans {p : Path} {d d' d'' : Disk} (h : DirsAdded p d d')
    (h' : DirsAdded p d' d'') : DirsAdded p d d'' :=
  ⟨h.adds.trans h'.adds, h'.writes.trans h.writes, h'.faults ∘ h.faults⟩

theorem DirsAdded.mono {p q : Path} {d d' : Disk} (h : DirsAdded q d d') (hqp : q <+: p) :
    DirsAdded p d d' :=
  ⟨h.adds.mono hqp, h.writes, h.faults⟩

/-- The outcome of a step of `createDirAll p`. -/
def MadeDir (p : Path) (d : Disk) (_ : Unit) (d' : Disk) : Prop :=
  DirsAdded p d d' ∧ d'.tree.isDir p = true

def FailedDir (p : Path) (d : Disk) (_ : Errno) (d' : Disk) : Prop :=
  DirsAdded p d d' ∧ (d.faults = [] → d.tree.Blocked p)

/-- An error is tolerated only where the directory is there. -/
theorem wp_tolerate {p : Path} {e : Errno} {d d' : Disk} (hk : Kept d d') (hp : Plain p)
    (hs : d.tree.Straight p)
    (he : Raised d ((e = .alreadyExists ∧ d.tree.has p = true) ∨ d.tree.Blocked p) e) :
    wp (tolerate p e) (MadeDir p d) (FailedDir p d) d' := by
  unfold tolerate
  split
  next heq =>
    rw [wp_bind]
    refine wp_isDir fun b d'' hk' hb => ?_
    rw [hk.tree, stat_straight hp hs] at hb
    have hk'' := hk.trans hk'
    cases b with
    | true =>
        refine ⟨.of_kept hk'', ?_⟩
        rcases hb with ⟨x, hx, hxd⟩ | ⟨hf, -⟩
        · rw [hk''.tree]
          cases hn : d.tree.node p with
          | none => simp [hn] at hx
          | some y =>
              rw [hn] at hx
              cases hx
              simp [Tree.isDir, hn, hxd]
        · cases hf
    | false =>
        refine ⟨.of_kept hk'', fun hq => ?_⟩
        rcases he.own (.inl hq) with ⟨-, hh⟩ | hblk
        · refine blocked_of_not_isDir hs hh ?_
          cases hn : d.tree.node p with
          | none => simp [has, hn] at hh
          | some y =>
              rw [hn] at hb
              rcases hb with ⟨x, hx, hxd⟩ | ⟨-, e', he'⟩
              · cases hx
                simp [Tree.isDir, hn, hxd]
              · cases he'.own (.inl (hk.faults hq))
        · exact hblk
  next hne =>
    refine ⟨.of_kept hk, fun hq => ?_⟩
    rcases he.own (.inl hq) with ⟨heq, -⟩ | hblk
    · exact absurd heq hne
    · exact hblk

theorem madeDir_of_mkdir {p : Path} {d d' : Disk} (hne : p ≠ []) (hp : Plain p)
    (hs : d.tree.Straight p.dropLast) (hf : d.tree.mkdir p = .ok d'.tree)
    (hw : d'.writes = d.writes ++ []) (hq : d.faults = [] → d'.faults = []) :
    MadeDir p d () d' := by
  obtain ⟨-, -, hn⟩ := addNew_ok hne hp hs hf
  refine ⟨⟨.of_addNew hne hp hs hf, by simpa using hw, hq⟩, ?_⟩
  simp [Tree.isDir, hn p, Node.isDir]

/-- An outcome from a disk that only had directories added since is one from
the disk before. -/
theorem wp_after_adds {p : Path} {x : Io Errno Unit} {d d' : Disk} (h : DirsAdded p d d')
    (hx : wp x (MadeDir p d') (FailedDir p d') d') : wp x (MadeDir p d) (FailedDir p d) d' :=
  wp_mono hx (fun _ _ h' => ⟨h.trans h'.1, h'.2⟩)
    fun _ _ h' => ⟨h.trans h'.1, fun hq => (h'.2 (h.faults hq)).of_adds h.adds⟩

/-- Making `p` itself, once what is above it has been dealt with. -/
theorem wp_mkdir_last {p : Path} {d : Disk} (hne : p ≠ []) (hp : Plain p)
    (hs : d.tree.Straight p) (habove : d.tree.isDir p.dropLast = true) :
    wp (do match ← attempt (mkdir p) with | .ok () => pure () | .error e => tolerate p e)
      (MadeDir p d) (FailedDir p d) d := by
  have hs' : d.tree.Straight p.dropLast := hs.above (List.dropLast_prefix p)
  rw [wp_bind, wp_attempt, mkdir]
  refine wp_update (fun d' hf hw hq => ?_) fun e d' hk he => ?_
  · exact madeDir_of_mkdir hne hp hs' hf hw hq
  · refine wp_tolerate hk hp hs (he.imp fun he => ?_)
    rcases mkdir_error hne hp hs' he with h | ⟨-, h⟩ | h
    · exact .inl h
    · rw [habove] at h
      cases h
    · exact .inr h

theorem wp_createDirAllUp : ∀ (up : List Name) {d : Disk}, Plain up.reverse →
    d.tree.Straight up.reverse →
    wp (createDirAllUp up) (MadeDir up.reverse d) (FailedDir up.reverse d) d
  | [], d, hp, hs => by
      have hroot : d.tree.mkdir [] = .error .alreadyExists := by
        simp [Tree.mkdir, addNew, locate, has_of_isDir (isDir_root d.tree)]
      rw [createDirAllUp, wp_bind, wp_attempt, mkdir]
      refine wp_update (fun d' hf _ _ => ?_) fun e d' hk he => ?_
      · rw [hroot] at hf
        cases hf
      · refine wp_tolerate hk hp hs (he.imp fun he => .inl ?_)
        rw [hroot] at he
        cases he
        exact ⟨rfl, has_of_isDir (isDir_root d.tree)⟩
  | n :: above, d, hp, hs => by
      have hrev : (n :: above).reverse = above.reverse ++ [n] := List.reverse_cons
      have hne : (n :: above).reverse ≠ [] := by simp
      have hdl : (n :: above).reverse.dropLast = above.reverse := by rw [hrev, List.dropLast_concat]
      have hpre : above.reverse <+: (n :: above).reverse := ⟨[n], hrev.symm⟩
      have hs' : d.tree.Straight (n :: above).reverse.dropLast :=
        hs.above (List.dropLast_prefix _)
      rw [createDirAllUp, wp_bind, wp_attempt, mkdir]
      refine wp_update (fun d' hf hw hq => ?_) fun e d' hk he => ?_
      · exact madeDir_of_mkdir hne hp hs' hf hw hq
      · by_cases hnf : e = .notFound
        · -- something above is missing: make that first
          subst hnf
          have hrec := wp_createDirAllUp above (d := d') (Plain.above hp hpre)
            (hk.tree ▸ hs.above hpre)
          simp only [if_true]
          rw [wp_bind]
          refine wp_mono hrec (fun _ d'' h'' => ?_) fun e d'' h'' => ?_
          · obtain ⟨hadd, hdir⟩ := h''
            have hall : DirsAdded (n :: above).reverse d d'' :=
              (DirsAdded.of_kept hk).trans (hadd.mono hpre)
            exact wp_after_adds hall
              (wp_mkdir_last hne hp (hall.adds.straight hs) (by rwa [hdl]))
          · refine ⟨(DirsAdded.of_kept hk).trans (h''.1.mono hpre), fun hq => ?_⟩
            rw [← hk.tree]
            exact (h''.2 (hk.faults hq)).mono hpre
        · simp only [hnf, if_false]
          refine wp_tolerate hk hp hs (he.imp fun he => ?_)
          rcases mkdir_error hne hp hs' he with h | ⟨h, -⟩ | h
          · exact .inl h
          · exact absurd h hnf
          · exact .inr h

/-- **`createDirAll` only adds missing directories**, all of them when it
returns, and without faults only a file in the way makes it fail. -/
theorem wp_createDirAll {p : Path} {d : Disk} (hp : Plain p) (hs : d.tree.Straight p) :
    wp (createDirAll p) (MadeDir p d) (FailedDir p d) d := by
  have h := wp_createDirAllUp p.reverse (d := d) (by rwa [List.reverse_reverse])
    (by rwa [List.reverse_reverse])
  rwa [List.reverse_reverse] at h

end CreateDirAll

end Io

end FileTree
