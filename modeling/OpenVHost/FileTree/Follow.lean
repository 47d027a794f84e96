/-
# Following a path in parts and across small changes

* `Tree.resolveFrom_through` — where two parts of a path lead, through the links of both.
* `Tree.resolveFrom_unnamed` — a new entry whose name nothing mentions changes no path's end.
* `Tree.symlink_ok`, `Tree.rename_over` — what a new link leaves, and a link that is renamed
  over its neighbour.
* `Tree.erase_grows` — what is found without an entry is found with it.
* `Io.Quiet` — programs that leave no fault to come where none was to come.
-/

import OpenVHost.FileTree.Paved
import OpenVHost.FileTree.Succeeds

namespace FileTree

namespace Tree

variable {t t' t'' : Tree} {p q r : Path} {n a b : Name} {x : Node} {target : List Char}

/-- `t'` has the nodes of `t`. -/
def Same (t t' : Tree) : Prop := ∀ q, t'.node q = t.node q

/-- `t'` has `x` at `q` and the nodes of `t` elsewhere. -/
def Sets (q : Path) (x : Node) (t t' : Tree) : Prop :=
  ∀ r, t'.node r = if r = q then some x else t.node r

theorem Same.refl (t : Tree) : Same t t := fun _ => rfl

theorem Same.symm (h : Same t t') : Same t' t := fun q => (h q).symm

theorem Same.grows (h : Same t t') : Grows t t' := fun q x hx => ⟨x, (h q).trans hx, rfl⟩

theorem Same.isDir (h : Same t t') (q : Path) : t'.isDir q = t.isDir q := by
  rw [Tree.isDir, h q, Tree.isDir]

theorem Sets.at (h : Sets q x t t') : t'.node q = some x := by
  rw [h q, if_pos rfl]

theorem Sets.other (h : Sets q x t t') (hr : r ≠ q) : t'.node r = t.node r := by
  rw [h r, if_neg hr]

/-- What is set where there was nothing is there beside what was. -/
theorem Sets.grows (h : Sets q x t t') (hq : t.node q = none) : Grows t t' := by
  intro r y hy
  have hr : r ≠ q := by
    rintro rfl
    rw [hq] at hy
    cases hy
  exact ⟨y, (h.other hr).trans hy, rfl⟩

theorem absent_of_paths (h : ∀ q ∈ t.paths, q.getLast? ≠ some n) (r : Path) :
    t.node (r ++ [n]) = none := by
  by_contra hne
  exact h _ (t.mem_paths _ (Option.isSome_iff_ne_none.mpr hne)) (by simp)

/-! ### Leaving an entry out -/

theorem node_erase_other (hq : q ≠ p) : (t.erase p).node q = t.node q := by
  unfold Tree.erase
  split
  next => exact if_neg hq
  next => rfl

theorem erase_grows (p : Path) : Grows (t.erase p) t := by
  intro q y hq
  unfold Tree.erase at hq
  split at hq
  next =>
    dsimp only at hq
    split at hq
    next => cases hq
    next => exact ⟨y, hq, rfl⟩
  next => exact ⟨y, hq, rfl⟩

/-- What is left without an entry is there when it is set. -/
theorem Sets.grows_of_erase (h : Sets p x t t') (hp : p ≠ []) (hfile : t.isDir p = false) :
    Grows (t.erase p) t' := by
  intro q y hq
  rw [node_erase hp (childless_of_not_isDir hfile) q] at hq
  split at hq
  next => cases hq
  next hqp => exact ⟨y, (h.other hqp).trans hq, rfl⟩

/-- Leaving out what was set gives no more than leaving out what it replaced. -/
theorem Sets.erase_grows (h : Sets p x t t') (hp : p ≠ []) (hx : x.isDir = false) :
    Grows (t'.erase p) (t.erase p) := by
  intro q y hq
  have hfile : t'.isDir p = false := by simp [isDir, h.at, hx]
  have hne : q ≠ p := by
    rintro rfl
    rw [node_erase hp (childless_of_not_isDir hfile), if_pos rfl] at hq
    cases hq
  rw [node_erase_other hne, h.other hne] at hq
  exact ⟨y, (node_erase_other hne).trans hq, rfl⟩

/-! ### Whether a path leads to a directory -/

def namesDir (t : Tree) (p : Path) : Bool :=
  match t.stat p with
  | .ok x => x.isDir
  | .error _ => false

theorem namesDir_iff : t.namesDir p = true ↔ ∃ r, t.resolve p = .ok r ∧ t.isDir r = true := by
  unfold namesDir stat isDir
  cases hr : t.resolve p with
  | error e => simp
  | ok r => cases hx : t.node r <;> simp [hx]

/-! ### Why a path leads nowhere -/

theorem walk_ne_other {create : Bool} {follow : Path → List Name → Except Errno Path} {code : Nat}
    (hf : ∀ cur rest, follow cur rest ≠ .error (.other code)) :
    ∀ (rest : List Name) (cur : Path), t.walk create follow cur rest ≠ .error (.other code)
  | [], _, h => by cases h
  | c :: rest, cur, h => by
      unfold walk at h
      split at h
      next => exact walk_ne_other hf rest _ h
      next =>
        split at h
        next => exact walk_ne_other hf rest _ h
        next =>
          split at h
          next => split at h <;> cases h
          next => exact walk_ne_other hf rest _ h
          next => split at h <;> cases h
          next => exact hf _ _ h

/-- A path never fails with an error that only the system gives. -/
theorem resolveFrom_ne_other {create : Bool} {code : Nat} :
    ∀ (links : Nat) (cur : Path) (rest : List Name),
      t.resolveFrom create links cur rest ≠ .error (.other code)
  | 0, cur, rest => walk_ne_other (fun _ _ h => by cases h) rest cur
  | links + 1, cur, rest => walk_ne_other (resolveFrom_ne_other links) rest cur

theorem symlink_ne_other {code : Nat} (hn : special n = false) :
    t.symlink target (p ++ [n]) ≠ .error (.other code) := by
  intro h
  unfold symlink at h
  split at h
  next => cases h
  next =>
    rw [addNew, locate_concat hn] at h
    cases hr : t.resolve p with
    | error e =>
        simp only [hr, Except.error.injEq] at h
        exact resolveFrom_ne_other maxLinks [] p (h ▸ hr)
    | ok r =>
        rw [hr] at h
        dsimp only at h
        by_cases hd : t.isDir r = true
        · rw [if_pos hd] at h
          dsimp only at h
          split at h <;> cases h
        · rw [if_neg hd] at h
          cases h

/-! ### Links along the way -/

theorem resolveFrom_succ {links : Nat} {cur : Path} {rest : List Name}
    (h : t.resolveFrom false links cur rest = .ok q) :
    t.resolveFrom false (links + 1) cur rest = .ok q := by
  have hself : Grows t t := (Same.refl t).grows
  induction links generalizing cur rest with
  | zero => exact hself.walk (fun hf => by cases hf) h
  | succ links ih => exact hself.walk ih h

/-- More links do not change where a path leads. -/
theorem resolveFrom_mono {links links' : Nat} {cur : Path} {rest : List Name}
    (hle : links ≤ links') (h : t.resolveFrom false links cur rest = .ok q) :
    t.resolveFrom false links' cur rest = .ok q := by
  induction hle with
  | refl => exact h
  | step _ ih => exact resolveFrom_succ ih

theorem walk_through {follow follow' : Path → List Name → Except Errno Path} {ys : List Name}
    (hdir : t.isDir p = true) (hend : t.walk false follow' p ys = .ok q)
    (hf : ∀ cur zs, follow cur zs = .ok p → follow' cur (zs ++ ys) = .ok q) :
    ∀ (xs : List Name) (cur : Path), t.walk false follow cur xs = .ok p →
      t.walk false follow' cur (xs ++ ys) = .ok q
  | [], cur, h => by
      obtain rfl : cur = p := Except.ok.inj h
      exact hend
  | c :: xs, cur, h => by
      rw [List.cons_append]
      unfold walk at h ⊢
      split at h
      next hc =>
        rw [if_pos hc]
        exact walk_through hdir hend hf xs cur h
      next hc =>
        rw [if_neg hc]
        split at h
        next hup =>
          rw [if_pos hup]
          exact walk_through hdir hend hf xs _ h
        next hup =>
          rw [if_neg hup]
          split at h
          next => simp at h
          next => exact walk_through hdir hend hf xs _ h
          next hfile =>
            -- the first part ends in a directory, not in this file
            split at h
            next =>
              obtain rfl : cur ++ [c] = p := Except.ok.inj h
              simp [isDir, hfile, Node.isDir] at hdir
            next => cases h
          next target =>
            rw [← List.append_assoc]
            exact hf _ _ h

/-- **A path in two parts leads on from where the first part leads**, through the links of
both. -/
theorem resolveFrom_through {ys : List Name} {links' : Nat} (hdir : t.isDir p = true)
    (hys : t.resolveFrom false links' p ys = .ok q) :
    ∀ (links : Nat) (cur : Path) (xs : List Name), t.resolveFrom false links cur xs = .ok p →
      t.resolveFrom false (links + links') cur (xs ++ ys) = .ok q
  | 0, cur, xs, h => by
      rw [Nat.zero_add]
      cases links' with
      | zero => exact walk_through hdir hys (fun _ _ h => by cases h) xs cur h
      | succ links' => exact walk_through hdir hys (fun _ _ h => by cases h) xs cur h
  | links + 1, cur, xs, h => by
      have hend := resolveFrom_mono (Nat.le_add_left links' (links + 1)) hys
      rw [Nat.add_right_comm] at hend ⊢
      exact walk_through hdir hend (resolveFrom_through hdir hys links) xs cur h

/-- A link in a directory leads where its text leads. -/
theorem resolveFrom_link {links : Nat} (hn : special n = false)
    (hl : t.node (p ++ [n]) = some (.symlink target))
    (h : t.resolveFrom false links (linkStart p target) (splitPath target) = .ok q) :
    t.resolveFrom false (links + 1) p [n] = .ok q := by
  rw [resolveFrom, walk_plain hn, hl]
  simpa only [List.append_nil] using h

/-! ### A name that nothing mentions -/

/-- No link's text mentions the name. -/
def Unmentioned (n : Name) (t : Tree) : Prop :=
  ∀ q target, t.node q = some (.symlink target) → n ∉ splitPath target

theorem unmentioned_of_linkless (h : t.linkless = true) : Unmentioned n t :=
  fun q target hq => absurd hq (linkless_iff.mp h q target)

theorem walk_unnamed {create : Bool} {follow follow' : Path → List Name → Except Errno Path}
    (hnode : ∀ cur c, c ≠ n → t'.node (cur ++ [c]) = t.node (cur ++ [c]))
    (htext : Unmentioned n t)
    (hf : ∀ cur rest, n ∉ rest → follow' cur rest = follow cur rest) :
    ∀ (rest : List Name) (cur : Path), n ∉ rest →
      t'.walk create follow' cur rest = t.walk create follow cur rest
  | [], _, _ => rfl
  | c :: rest, cur, hrest => by
      rw [List.mem_cons, not_or] at hrest
      obtain ⟨hc, hrest⟩ := hrest
      have hstep : ∀ cur', t'.walk create follow' cur' rest = t.walk create follow cur' rest :=
        fun cur' => walk_unnamed hnode htext hf rest cur' hrest
      unfold walk
      rw [hnode cur c (Ne.symm hc)]
      split
      next => exact hstep cur
      next =>
        split
        next => exact hstep _
        next =>
          cases hx : t.node (cur ++ [c]) with
          | none => rfl
          | some x =>
              cases x with
              | dir m => exact hstep _
              | file content m => rfl
              | symlink target =>
                  apply hf
                  rw [List.mem_append, not_or]
                  exact ⟨htext _ _ hx, hrest⟩

/-- **An entry whose name nothing mentions is not looked at.** -/
theorem resolveFrom_unnamed {create : Bool}
    (hnode : ∀ cur c, c ≠ n → t'.node (cur ++ [c]) = t.node (cur ++ [c]))
    (htext : Unmentioned n t) :
    ∀ (links : Nat) (cur : Path) (rest : List Name), n ∉ rest →
      t'.resolveFrom create links cur rest = t.resolveFrom create links cur rest
  | 0, cur, rest, hrest => walk_unnamed hnode htext (fun _ _ _ => rfl) rest cur hrest
  | links + 1, cur, rest, hrest =>
      walk_unnamed hnode htext (resolveFrom_unnamed hnode htext links) rest cur hrest

theorem Sets.resolve_unnamed (h : Sets (r ++ [n]) x t t') (htext : Unmentioned n t)
    (hp : n ∉ p) : t'.resolve p = t.resolve p := by
  apply resolveFrom_unnamed (fun cur c hc => h.other ?_) htext maxLinks [] p hp
  intro heq
  exact hc (List.append_inj_right' heq rfl |> List.cons.inj |>.1)

/-! ### Links that are created and renamed -/

/-- A new link takes a place that was empty in the directory a path leads to. -/
theorem symlink_ok (hn : special n = false) (h : t.symlink target (p ++ [n]) = .ok t') :
    ∃ r, t.resolve p = .ok r ∧ t.isDir r = true ∧ t.node (r ++ [n]) = none ∧
      Sets (r ++ [n]) (.symlink target) t t' := by
  unfold symlink at h
  split at h
  next => cases h
  next =>
    obtain ⟨q, hl, hnone, rfl⟩ := addNew_any h
    rw [locate_concat hn] at hl
    cases hr : t.resolve p with
    | error e => simp [hr] at hl
    | ok r =>
        rw [hr] at hl
        dsimp only at hl
        split at hl
        next hd =>
          cases hl
          refine ⟨r, rfl, hd, hnone, put_node_of_parent ?_ ?_⟩
          · rw [List.dropLast_concat]
            exact hd
          · simp [isDir, hnone]
        next => cases hl

theorem symlink_entry (hn : special n = false) (ht : target ≠ []) (hr : t.resolve p = .ok r)
    (hd : t.isDir r = true) (hnone : t.node (r ++ [n]) = none) :
    ∃ t', t.symlink target (p ++ [n]) = .ok t' := by
  refine ⟨t.put (r ++ [n]) (.symlink target), ?_⟩
  rw [symlink, if_neg (by simpa using ht), addNew, locate_entry hn hr hd]
  simp [has, hnone]

/-- A file or a link that is renamed over its neighbour. -/
theorem rename_over (ha : special a = false) (hb : special b = false) (hab : a ≠ b)
    (hr : t.resolve p = .ok r) (hd : t.isDir r = true) (hx : t.node (r ++ [a]) = some x)
    (hfile : x.isDir = false) (h : t.rename (p ++ [a]) (p ++ [b]) = .ok t') (q : Path) :
    t'.node q = if q = r ++ [b] then some x else if q = r ++ [a] then none else t.node q := by
  have hne : r ++ [a] ≠ r ++ [b] := by simpa using hab
  have hcan : ∀ {y : Option Node}, t.node (r ++ [b]) = y → y.all (fun y => !y.isDir) = true →
      t' = t.move (r ++ [a]) (r ++ [b]) →
      t'.node q = if q = r ++ [b] then some x else if q = r ++ [a] then none else t.node q := by
    rintro y hy hyfile rfl
    apply node_move_file ⟨has_of_node hx, by simp, by simp, by simpa using hd, ?_, ?_⟩ hx hfile
    · apply childless_of_not_isDir
      rw [isDir, hy]
      cases y with
      | none => rfl
      | some y => simpa using hyfile
    · intro hpre
      exact hne (hpre.eq_of_length (by simp))
    · intro hpre
      exact hne (hpre.eq_of_length (by simp)).symm
  unfold rename at h
  rw [locate_entry ha hr hd, locate_entry hb hr hd] at h
  simp only [hx, if_neg hne, hfile] at h
  split at h
  · cases h
  · split at h
    · cases h
    · split at h
      next hy => exact hcan hy rfl (Except.ok.inj h).symm
      next => simp at h
      next y hnotdir hy =>
        have hmove : t.move (r ++ [a]) (r ++ [b]) = t' := by simpa using h
        refine hcan hy ?_ hmove.symm
        cases y with
        | dir m => exact absurd rfl (hnotdir m)
        | file content m => rfl
        | symlink target => rfl

end Tree

/-! ### Runs without faults -/

namespace Io

variable {ε ε' α β : Type} {d : Disk}

/-- Where no fault is to come before the program, none is after it. -/
def Quiet (x : Io ε α) : Prop :=
  ∀ d, d.faults = [] → wp x (fun _ d' => d'.faults = []) (fun _ d' => d'.faults = []) d

/-- Two postconditions of one program hold together. -/
theorem wp_both {x : Io ε α} {Q Q' : α → Disk → Prop} {E E' : ε → Disk → Prop} (h : wp x Q E d)
    (h' : wp x Q' E' d) :
    wp x (fun a d' => Q a d' ∧ Q' a d') (fun e d' => E e d' ∧ E' e d') d := by
  unfold wp at h h' ⊢
  cases hx : x d with
  | ok a d' =>
      rw [hx] at h h'
      exact ⟨h, h'⟩
  | error e d' =>
      rw [hx] at h h'
      exact ⟨h, h'⟩

/-- A program that cannot fail ends in what it always returns. -/
theorem wp_of_gives {x : Io Empty α} {P : α → Prop} {E : Empty → Disk → Prop} (h : Gives x P) :
    wp x (fun a _ => P a) E d := by
  unfold wp
  cases hx : x d with
  | ok a d' => exact h d a d' hx
  | error e d' => exact nomatch e

namespace Quiet

theorem pure (a : α) : Quiet (Pure.pure a : Io ε α) := fun _ h => h

theorem fail (e : ε) : Quiet (Io.fail e : Io ε α) := fun _ h => h

theorem bind {x : Io ε β} {f : β → Io ε α} (hx : Quiet x) (hf : ∀ b, Quiet (f b)) :
    Quiet (x >>= f) := by
  intro d hd
  rw [wp_bind]
  exact wp_mono (hx d hd) (fun b d' hd' => hf b d' hd') fun _ _ hd' => hd'

theorem attempt {x : Io ε α} (hx : Quiet x) : Quiet (Io.attempt x : Io ε' (Except ε α)) := by
  intro d hd
  rw [wp_attempt]
  exact hx d hd

theorem mapErr {f : ε → ε'} {x : Io ε α} (hx : Quiet x) : Quiet (Io.mapErr f x) := by
  intro d hd
  rw [wp_mapErr]
  exact hx d hd

theorem call (writes : List Write) (partly : Fault → Tree → Tree)
    (f : Tree → Except Errno (α × Tree)) : Quiet (Io.call writes partly f) := by
  intro d hd
  refine wp_call (fun _ _ _ _ h => h hd) (fun _ _ hk _ => hk.faults hd) fun _ _ hne => ?_
  exact absurd hd hne

theorem query (f : Tree → Except Errno α) : Quiet (Io.query f) := call _ _ _

theorem update (writes : List Write) (f : Tree → Except Errno Tree) : Quiet (Io.update writes f) :=
  call _ _ _

theorem isDir (p : Path) : Quiet (Io.isDir p : Io ε Bool) := by
  refine bind (attempt (query (·.stat p))) fun r => ?_
  cases r with
  | ok x => exact pure _
  | error e => exact pure _

theorem tolerate (p : Path) (e : Errno) : Quiet (Io.tolerate p e) := by
  unfold Io.tolerate
  split
  · refine bind (isDir p) fun b => ?_
    cases b with
    | true => exact pure _
    | false => exact fail _
  · exact fail _

theorem mkdirOr (p : Path) {f : Errno → Io Errno Unit} (hf : ∀ e, Quiet (f e)) :
    Quiet (do match ← Io.attempt (mkdir p) with | .ok () => Pure.pure () | .error e => f e) := by
  refine bind (attempt (update [] (·.mkdir p))) fun r => ?_
  cases r with
  | ok u => exact pure _
  | error e => exact hf e

theorem createDirAllUp : ∀ up : List Name, Quiet (Io.createDirAllUp up)
  | [] => mkdirOr [] (tolerate [])
  | n :: above => by
      refine mkdirOr _ fun e => ?_
      split
      · exact bind (createDirAllUp above) fun _ => mkdirOr _ (tolerate _)
      · exact tolerate _ e

end Quiet

end Io

end FileTree
