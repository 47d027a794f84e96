/-
# Operations through links

What the operations change wherever the links above a path lead. A tree `Grows`
when everything in it stays, of its kind; it changes `Mildly` when moreover only
directories are new and only modes differ.

* `Tree.Grows.locate` — in a tree that has grown a path still names its place.
* `Io.wp_createDirAll_mild` — creating directories is mild, whatever is above.
* `Tree.rename_link`, `Tree.removeFile_link` — a link of another name stays.
-/

import OpenVHost.FileTree.Replace

namespace FileTree

/-- What a node is, without its content and its mode. -/
def Node.kind : Node → Node
  | dir _ => dir none
  | file .. => file [] none
  | symlink target => symlink target

namespace Tree

/-- Everything in `t` is in `t'`, of the same kind. -/
def Grows (t t' : Tree) : Prop :=
  ∀ q x, t.node q = some x → ∃ y, t'.node q = some y ∧ y.kind = x.kind

/-- Everything in `t` is in `t'`, of the same kind, but for some files among `R`. -/
def Keeps (R : Path → Prop) (t t' : Tree) : Prop :=
  ∀ q x, t.node q = some x →
    (∃ y, t'.node q = some y ∧ y.kind = x.kind) ∨ (R q ∧ x.kind = .file [] none)

/-- Only directories are new, and only modes differ. -/
def Mild (t t' : Tree) : Prop :=
  ∀ q, (t'.node q).map (setMode 0) = (t.node q).map (setMode 0) ∨
    (t.node q = none ∧ t'.isDir q = true)

variable {t t' t'' : Tree} {p q : Path}

theorem kind_setMode (mode : Nat) (x : Node) : (setMode mode x).kind = x.kind := by
  cases x <;> rfl

theorem Mild.refl (t : Tree) : Mild t t := fun _ => .inl rfl

theorem isDir_of_setMode (h : (t'.node q).map (setMode 0) = (t.node q).map (setMode 0))
    (hd : t.isDir q = true) : t'.isDir q = true := by
  obtain ⟨m, hm⟩ := isDir_iff.mp hd
  rw [hm] at h
  cases hn : t'.node q with
  | none => simp [hn] at h
  | some y =>
      cases y with
      | dir m' => exact isDir_iff.mpr ⟨m', hn⟩
      | file content m' => simp [hn, setMode] at h
      | symlink target => simp [hn, setMode] at h

theorem Mild.trans (h : Mild t t') (h' : Mild t' t'') : Mild t t'' := by
  intro q
  rcases h' q with heq' | ⟨hnone', hdir'⟩
  · rcases h q with heq | ⟨hnone, hdir⟩
    · exact .inl (heq'.trans heq)
    · exact .inr ⟨hnone, isDir_of_setMode heq' hdir⟩
  · rcases h q with heq | ⟨hnone, hdir⟩
    · rw [hnone'] at heq
      cases hn : t.node q with
      | none => exact .inr ⟨rfl, hdir'⟩
      | some x => simp [hn] at heq
    · rw [isDir, hnone'] at hdir
      cases hdir

theorem Mild.grows (h : Mild t t') : Grows t t' := by
  intro q x hx
  rcases h q with heq | ⟨hnone, -⟩
  · rw [hx] at heq
    cases hn : t'.node q with
    | none => simp [hn] at heq
    | some y =>
        simp only [hn, Option.map_some, Option.some.injEq] at heq
        exact ⟨y, rfl, by rw [← kind_setMode 0 y, heq, kind_setMode]⟩
  · rw [hnone] at hx
    cases hx

theorem Grows.trans (h : Grows t t') (h' : Grows t' t'') : Grows t t'' := by
  intro q x hx
  obtain ⟨y, hy, hyx⟩ := h q x hx
  obtain ⟨z, hz, hzy⟩ := h' q y hy
  exact ⟨z, hz, hzy.trans hyx⟩

theorem Grows.link (h : Grows t t') {target : List Char}
    (hl : t.node q = some (.symlink target)) : t'.node q = some (.symlink target) := by
  obtain ⟨y, hy, hk⟩ := h q _ hl
  cases y with
  | dir m => cases hk
  | file content m => cases hk
  | symlink target' =>
      cases hk
      exact hy

theorem Grows.isDir (h : Grows t t') (hd : t.isDir q = true) : t'.isDir q = true := by
  obtain ⟨m, hm⟩ := isDir_iff.mp hd
  obtain ⟨y, hy, hk⟩ := h q _ hm
  cases y with
  | dir m' => exact isDir_iff.mpr ⟨m', hy⟩
  | file content m' => cases hk
  | symlink target => cases hk

theorem Mild.straight (h : Mild t t') (hs : t.Straight p) : t'.Straight p := by
  intro q hq target hn
  rcases h q with heq | ⟨-, hdir⟩
  · rw [hn] at heq
    cases hx : t.node q with
    | none => simp [hx] at heq
    | some x =>
        cases x with
        | dir m => simp [hx, setMode] at heq
        | file content m => simp [hx, setMode] at heq
        | symlink target' => exact hs q hq target' hx
  · rw [isDir, hn] at hdir
    cases hdir

/-- Mild changes leave the content of every file, and make none. -/
theorem Mild.file (h : Mild t t') {content : Bytes} :
    (∃ m, t'.node p = some (.file content m)) ↔ ∃ m, t.node p = some (.file content m) := by
  rcases h p with heq | ⟨hnone, hdir⟩
  · constructor
    · rintro ⟨m, hm⟩
      rw [hm] at heq
      cases hx : t.node p with
      | none => simp [hx] at heq
      | some x => cases x <;> simp_all [setMode]
    · rintro ⟨m, hm⟩
      rw [hm] at heq
      cases hx : t'.node p with
      | none => simp [hx] at heq
      | some x => cases x <;> simp_all [setMode]
  · obtain ⟨m, hm⟩ := isDir_iff.mp hdir
    simp [hnone, hm]

/-! ### Resolution in a tree that has grown -/

theorem Grows.keeps (h : Grows t t') : Keeps (fun _ => False) t t' :=
  fun q x hx => .inl (h q x hx)

/-- A walk does not need the files that it does not end at. -/
theorem Keeps.walk {R : Path → Prop} (h : Keeps R t t')
    {follow follow' : Path → List Name → Except Errno Path} {r : Path} (hr : ¬ R r)
    (hf : ∀ {cur rest}, follow cur rest = .ok r → follow' cur rest = .ok r) :
    ∀ {rest : List Name} {cur : Path}, t.walk false follow cur rest = .ok r →
      t'.walk false follow' cur rest = .ok r
  | [], _, hw => hw
  | c :: rest, cur, hw => by
      by_cases hc : special c = false
      · rw [walk_plain hc] at hw ⊢
        cases hn : t.node (cur ++ [c]) with
        | none => simp [hn] at hw
        | some x =>
            rw [hn] at hw
            rcases h _ x hn with ⟨y, hy, hk⟩ | ⟨hgone, hk⟩
            · rw [hy]
              cases x with
              | dir m =>
                  cases y with
                  | dir m' => exact h.walk hr hf hw
                  | file content m' => cases hk
                  | symlink target => cases hk
              | file content m =>
                  cases y with
                  | dir m' => cases hk
                  | file content' m' => exact hw
                  | symlink target => cases hk
              | symlink target =>
                  cases y with
                  | dir m' => cases hk
                  | file content' m' => cases hk
                  | symlink target' =>
                      cases hk
                      exact hf hw
            · -- a file can only be where the walk ends
              cases x with
              | dir m => cases hk
              | symlink target => cases hk
              | file content m =>
                  cases rest with
                  | nil =>
                      cases hw
                      exact absurd hgone hr
                  | cons c' rest => simp at hw
      · unfold Tree.walk at hw ⊢
        by_cases h₁ : (c == [] || c == ['.']) = true
        · rw [if_pos h₁] at hw ⊢
          exact h.walk hr hf hw
        · have h₂ : (c == ['.', '.']) = true := by
            simp only [special, Bool.or_eq_false_iff, beq_eq_false_iff_ne, ne_eq] at hc
            simp only [Bool.or_eq_true, beq_iff_eq, not_or] at h₁
            simp only [beq_iff_eq]
            tauto
          rw [if_neg h₁, if_pos h₂] at hw ⊢
          exact h.walk hr hf hw

theorem Keeps.resolveFrom {R : Path → Prop} (h : Keeps R t t') {r : Path} (hr : ¬ R r) :
    ∀ {links : Nat} {cur rest}, t.resolveFrom false links cur rest = .ok r →
      t'.resolveFrom false links cur rest = .ok r
  | 0, _, _, ht => h.walk hr (fun hf => by cases hf) ht
  | _ + 1, _, _, ht => h.walk hr (h.resolveFrom hr) ht

theorem Grows.walk (h : Grows t t') {follow follow' : Path → List Name → Except Errno Path}
    {r cur : Path} {rest : List Name}
    (hf : ∀ {cur rest}, follow cur rest = .ok r → follow' cur rest = .ok r)
    (hw : t.walk false follow cur rest = .ok r) : t'.walk false follow' cur rest = .ok r :=
  h.keeps.walk id hf hw

theorem Grows.resolveFrom (h : Grows t t') {r : Path} {links : Nat} {cur : Path}
    {rest : List Name} (hr : t.resolveFrom false links cur rest = .ok r) :
    t'.resolveFrom false links cur rest = .ok r :=
  h.keeps.resolveFrom id hr

/-- In a tree that has grown a path still names its place. -/
theorem Grows.locate (h : Grows t t') (hl : t.locate p = .ok q) : t'.locate p = .ok q := by
  unfold Tree.locate at hl ⊢
  cases hp : p.getLast? with
  | none => simpa [hp] using hl
  | some n =>
      simp only [hp] at hl ⊢
      by_cases hn : special n = true
      · rw [if_pos hn] at hl ⊢
        exact h.resolveFrom hl
      · rw [if_neg hn] at hl ⊢
        cases hr : t.resolve p.dropLast with
        | error e => simp [hr] at hl
        | ok s =>
            have hs : t'.resolve p.dropLast = .ok s := h.resolveFrom hr
            simp only [hr, hs] at hl ⊢
            split at hl
            next hd => rw [if_pos (h.isDir hd), hl]
            next => cases hl

theorem locate_ok {n : Name} (hn : p.getLast? = some n) (hsp : special n = false)
    (h : t.locate p = .ok q) : ∃ s, q = s ++ [n] ∧ t.isDir s = true := by
  unfold locate at h
  simp only [hn, hsp, Bool.false_eq_true, if_false] at h
  split at h
  next => cases h
  next s hs =>
    split at h
    next hd => exact ⟨s, (Except.ok.inj h).symm, hd⟩
    next => cases h

/-! ### Single operations -/

theorem node_put_cases (x : Node) (q r : Path) :
    (t.put q x).node r = t.node r ∨ (r = q ∧ (t.put q x).node r = some x) := by
  by_cases hcan : t.CanPut q x
  · rw [node_put hcan]
    by_cases hr : r = q
    · exact .inr ⟨hr, by rw [if_pos hr]⟩
    · exact .inl (by rw [if_neg hr])
  · exact .inl (by rw [put, dif_neg hcan])

theorem addNew_any {x : Node} (h : t.addNew p x = .ok t') :
    ∃ q, t.locate p = .ok q ∧ t.node q = none ∧ t' = t.put q x := by
  unfold addNew at h
  cases hl : t.locate p with
  | error e => simp [hl] at h
  | ok q =>
      simp only [hl] at h
      split at h
      next => cases h
      next hh =>
        refine ⟨q, rfl, ?_, (Except.ok.inj h).symm⟩
        simpa [has] using hh

theorem mkdir_mild (h : t.mkdir p = .ok t') : Mild t t' := by
  obtain ⟨q, -, hnone, rfl⟩ := addNew_any h
  intro r
  rcases node_put_cases (t := t) (.dir none) q r with heq | ⟨rfl, heq⟩
  · exact .inl (by rw [heq])
  · exact .inr ⟨hnone, isDir_iff.mpr ⟨none, heq⟩⟩

theorem chmod_mild {mode : Nat} (h : t.chmod p mode = .ok t') : Mild t t' := by
  unfold chmod at h
  split at h
  next => cases h
  next q _ =>
    split at h
    next => cases h
    next x hx =>
      cases h
      intro r
      rcases node_put_cases (t := t) (setMode mode x) q r with heq | ⟨rfl, heq⟩
      · exact .inl (by rw [heq])
      · refine .inl ?_
        rw [heq, hx]
        cases x <;> rfl

/-- A new file is where its path leads. -/
theorem createNew_file {n : Name} (hn : p.getLast? = some n) (hsp : special n = false)
    (h : t.createNew p = .ok t') :
    ∃ q, t.locate p = .ok q ∧ t'.node q = some (.file [] none) := by
  obtain ⟨q, hq, hnone, rfl⟩ := addNew_any h
  obtain ⟨s, rfl, hdir⟩ := locate_ok hn hsp hq
  refine ⟨_, hq, ?_⟩
  rw [put_node_of_parent (by rwa [List.dropLast_concat]) (by simp [isDir, hnone]), if_pos rfl]

theorem createNew_grows (h : t.createNew p = .ok t') : Grows t t' := by
  obtain ⟨q, -, hnone, rfl⟩ := addNew_any h
  intro r x hx
  rcases node_put_cases (t := t) (.file [] none) q r with heq | ⟨rfl, -⟩
  · exact ⟨x, heq.trans hx, rfl⟩
  · rw [hnone] at hx
    cases hx

theorem append_grows {bytes : Bytes} (h : t.append p bytes = .ok t') : Grows t t' := by
  unfold append at h
  split at h
  next => cases h
  next q _ =>
    split at h
    next content mode hq =>
      cases h
      intro r x hx
      rcases node_put_cases (t := t) (.file (content ++ bytes) mode) q r with heq | ⟨rfl, heq⟩
      · exact ⟨x, heq.trans hx, rfl⟩
      · rw [hq] at hx
        cases hx
        exact ⟨_, heq, rfl⟩
    next => cases h

/-- Renaming what is no directory leaves a link that has neither name. -/
theorem rename_link {src dst l : Path} {n : Name} {target : List Char} {s : Path} {x : Node}
    (hs : t.locate src = .ok s) (hx : t.node s = some x) (hxd : x.isDir = false)
    (hxl : x.isSymlink = false) (hn : dst.getLast? = some n) (hsp : special n = false)
    (hl : t.node l = some (.symlink target)) (hln : l.getLast? ≠ some n)
    (h : t.rename src dst = .ok t') : t'.node l = some (.symlink target) := by
  unfold rename at h
  simp only [hs, hx] at h
  cases hd : t.locate dst with
  | error e => simp [hd] at h
  | ok d =>
      obtain ⟨r, rfl, -⟩ := locate_ok hn hsp hd
      simp only [hd] at h
      split at h
      · cases h
        exact hl
      · split at h
        · cases h
        · split at h
          · cases h
          · have hmove : t' = t.move s (r ++ [n]) ∧ t.isDir (r ++ [n]) = false := by
              cases hq : t.node (r ++ [n]) with
              | none =>
                  simp only [hq, Except.ok.injEq] at h
                  exact ⟨h.symm, by simp [isDir, hq]⟩
              | some y =>
                  cases y with
                  | dir m => simp [hq, hxd] at h
                  | file content m =>
                      simp only [hq, hxd, Bool.false_eq_true, if_false, Except.ok.injEq] at h
                      exact ⟨h.symm, by simp [isDir, hq, Node.isDir]⟩
                  | symlink target' =>
                      simp only [hq, hxd, Bool.false_eq_true, if_false, Except.ok.injEq] at h
                      exact ⟨h.symm, by simp [isDir, hq, Node.isDir]⟩
            obtain ⟨rfl, hnd⟩ := hmove
            by_cases hcan : t.CanMove s (r ++ [n])
            · rw [node_move_file hcan hx hxd (childless_of_not_isDir hnd)]
              have h₁ : l ≠ r ++ [n] := by
                rintro rfl
                exact hln List.getLast?_concat
              have h₂ : l ≠ s := by
                rintro rfl
                rw [hl] at hx
                cases hx
                cases hxl
              rw [if_neg h₁, if_neg h₂, hl]
            · rw [move, dif_neg hcan]
              exact hl

/-- Removing a file leaves a link of another name. -/
theorem removeFile_link {l : Path} {n : Name} {target : List Char} (hn : p.getLast? = some n)
    (hsp : special n = false) (hl : t.node l = some (.symlink target))
    (hln : l.getLast? ≠ some n) (h : t.removeFile p = .ok t') :
    t'.node l = some (.symlink target) := by
  unfold removeFile at h
  cases hq : t.locate p with
  | error e => simp [hq] at h
  | ok q =>
      obtain ⟨r, rfl, -⟩ := locate_ok hn hsp hq
      have hne : l ≠ r ++ [n] := by
        rintro rfl
        exact hln List.getLast?_concat
      have herase : (t.erase (r ++ [n])).node l = some (.symlink target) := by
        unfold erase
        split
        · show (if l = r ++ [n] then none else t.node l) = _
          rw [if_neg hne, hl]
        · exact hl
      simp only [hq] at h
      cases hx : t.node (r ++ [n]) with
      | none => simp [hx] at h
      | some x =>
          rw [hx] at h
          cases x with
          | dir m => cases h
          | file content m =>
              cases h
              exact herase
          | symlink target' =>
              cases h
              exact herase

end Tree

/-! ### Creating directories -/

namespace Io

open FileTree.Tree

variable {d d' : Disk} {p : Path}

theorem wp_tolerate_mild {t : Tree} {e : Errno} (h : Mild t d.tree) :
    wp (tolerate p e) (fun _ d' => Mild t d'.tree) (fun _ d' => Mild t d'.tree) d := by
  unfold tolerate
  split
  · rw [wp_bind]
    refine wp_isDir fun b d' hk _ => ?_
    have h' : Mild t d'.tree := hk.tree ▸ h
    cases b with
    | true => exact h'
    | false => exact h'
  · exact h

theorem wp_mkdir_mild {t : Tree} {x : Io Errno Unit} {f : Errno → Io Errno Unit}
    (hm : Mild t d.tree)
    (hf : ∀ e d', Mild t d'.tree →
      wp (f e) (fun _ d' => Mild t d'.tree) (fun _ d' => Mild t d'.tree) d')
    (hx : x = do match ← attempt (mkdir p) with | .ok () => pure () | .error e => f e) :
    wp x (fun _ d' => Mild t d'.tree) (fun _ d' => Mild t d'.tree) d := by
  subst hx
  rw [wp_bind, wp_attempt, mkdir]
  exact wp_update (fun d' h _ _ => hm.trans (mkdir_mild h)) fun e d' hk _ =>
    hf e d' (hk.tree ▸ hm)

theorem wp_createDirAllUp_mild {t : Tree} : ∀ (up : List Name) {d : Disk}, Mild t d.tree →
    wp (createDirAllUp up) (fun _ d' => Mild t d'.tree) (fun _ d' => Mild t d'.tree) d
  | [], _, h => wp_mkdir_mild h (fun _ _ h => wp_tolerate_mild h) rfl
  | n :: above, d, h => by
      refine wp_mkdir_mild h (fun e d' h' => ?_) rfl
      split
      · rw [wp_bind]
        refine wp_mono (wp_createDirAllUp_mild above h') (fun _ d₂ h₂ => ?_) fun _ _ h => h
        exact wp_mkdir_mild h₂ (fun _ _ h => wp_tolerate_mild h) rfl
      · exact wp_tolerate_mild h'

/-- **Creating directories is mild**, wherever the links above lead. -/
theorem wp_createDirAll_mild :
    wp (createDirAll p) (fun _ d' => Mild d.tree d'.tree) (fun _ d' => Mild d.tree d'.tree) d :=
  wp_createDirAllUp_mild p.reverse (Mild.refl d.tree)

end Io

end FileTree
