/-
# Directories that are created on the way

* `Tree.resolve_append_dir` — a path goes on into a directory that its place holds.
* `Paved` — a tree with new directories, each of which a path above the wanted one leads to.
* `Paved.beneath` — nothing is new beneath the place that the whole path leads to.
* `Io.wp_createDirAll_paved` — creating a directory and all above it paves the way, whatever
  links there are.
-/

import OpenVHost.FileTree.Removal

namespace FileTree

namespace Tree

variable {t t' t'' : Tree} {p q : Path}

/-- **A path goes on into a directory that its place holds.** -/
theorem resolve_append_dir {m : Path} {n : Name} (hn : special n = false)
    (hd : t.isDir (m ++ [n]) = true) (h : t.resolve p = .ok m) :
    t.resolve (p ++ [n]) = .ok (m ++ [n]) := by
  obtain ⟨mode, hm⟩ := isDir_iff.mp hd
  exact resolve_append_entry hn hm rfl h

end Tree

/-- `t'` is `t` with new directories to which `p` or a path above it leads. -/
def Paved (p : Path) (t t' : Tree) : Prop :=
  ∀ q, t'.node q = t.node q ∨
    (t.node q = none ∧ t'.isDir q = true ∧ ∃ p', p' <+: p ∧ t'.resolve p' = .ok q)

namespace Paved

open FileTree.Tree

variable {t t' t'' : Tree} {p q r : Path} {n : Name}

theorem refl (p : Path) (t : Tree) : Paved p t t := fun _ => .inl rfl

theorem grows (h : Paved p t t') : Grows t t' := by
  intro q x hx
  rcases h q with heq | ⟨hnone, -⟩
  · exact ⟨x, heq.trans hx, rfl⟩
  · rw [hnone] at hx
    cases hx

theorem trans (h : Paved p t t') (h' : Paved p t' t'') : Paved p t t'' := by
  intro q
  rcases h' q with heq | ⟨hnone, hnew⟩
  · rcases h q with heq' | ⟨hnone', hdir, p', hp', hr⟩
    · exact .inl (heq.trans heq')
    · exact .inr ⟨hnone', h'.grows.isDir hdir, p', hp', h'.grows.resolveFrom hr⟩
  · rcases h q with heq' | ⟨-, hdir, -⟩
    · exact .inr ⟨heq' ▸ hnone, hnew⟩
    · simp [isDir, hnone] at hdir

theorem mono {p' : Path} (h : Paved p t t') (hp : p <+: p') : Paved p' t t' := fun q =>
  (h q).imp_right fun ⟨hnone, hdir, above, habove, hr⟩ => ⟨hnone, hdir, above, habove.trans hp, hr⟩

/-- What is beneath a new directory is new, and so a directory. -/
theorem isDir_beneath (h : Paved p t t') (hq : t.node q = none) {s : Path}
    (hs : t'.has (q ++ s) = true) : t'.isDir (q ++ s) = true := by
  rcases h (q ++ s) with heq | ⟨-, hdir, -⟩
  · exfalso
    have hhas : t.has (q ++ s) = true := by
      rw [← hs]
      exact (congrArg Option.isSome heq).symm
    by_cases hnil : s = []
    · subst hnil
      simp [has, hq] at hhas
    · have hdir := isDir_of_append hnil hhas
      simp [isDir, hq] at hdir
  · exact hdir

/-- From a new directory a path of plain names goes straight on. -/
theorem resolve_beneath (h : Paved p t t') (hq : t.node q = none) {p' : Path}
    (hr : t'.resolve p' = .ok q) (rest : List Name) :
    ∀ {r}, Plain rest → t'.resolve (p' ++ rest) = .ok r → r = q ++ rest := by
  induction rest using List.reverseRecOn with
  | nil =>
      intro r _ hrest
      rw [List.append_nil] at hrest ⊢
      exact Except.ok.inj (hrest.symm.trans hr)
  | append_singleton rest n ih =>
      intro r hplain hrest
      rw [plain_append] at hplain
      rw [← List.append_assoc] at hrest ⊢
      obtain ⟨mid, hmid, hcase⟩ := resolve_concat (hplain.2 n List.mem_cons_self) hrest
      obtain rfl := ih hplain.1 hmid
      rcases hcase with ⟨target, htarget⟩ | ⟨rfl, -⟩
      · rw [List.append_assoc] at htarget
        have hdir := h.isDir_beneath hq (has_of_node htarget)
        simp [isDir, htarget, Node.isDir] at hdir
      · rfl

/-- **Nothing is new beneath the place that the whole path leads to.** -/
theorem beneath (h : Paved p t t') (hp : Plain p) (hr : t'.resolve p = .ok r) {s : Path}
    (hs : s ≠ []) : t'.node (r ++ s) = t.node (r ++ s) := by
  rcases h (r ++ s) with heq | ⟨hnone, -, p', ⟨rest, rfl⟩, hp'⟩
  · exact heq
  · have hlong := h.resolve_beneath hnone hp' rest (plain_append.mp hp).2 hr
    have := congrArg List.length hlong
    have hpos := List.length_pos_of_ne_nil hs
    simp only [List.length_append] at this
    omega

theorem of_mkdir (h : t.mkdir (p ++ [n]) = .ok t') : Paved (p ++ [n]) t t' := by
  obtain ⟨q, hl, hnone, rfl⟩ := addNew_any h
  have hn : special n = false := by
    by_contra hspecial
    have hr : t.resolve (p ++ [n]) = .ok q := by
      simpa [locate, Bool.not_eq_false _ ▸ hspecial] using hl
    have hhas := has_of_resolve hr
    simp [has, hnone] at hhas
  intro r
  rcases node_put_cases (t := t) (.dir none) q r with heq | ⟨rfl, heq⟩
  · exact .inl heq
  · have hdir : (t.put r (.dir none)).isDir r = true := isDir_iff.mpr ⟨none, heq⟩
    refine .inr ⟨hnone, hdir, p ++ [n], List.prefix_refl _, ?_⟩
    have hgrows : Grows t (t.put r (.dir none)) := (mkdir_mild h).grows
    rw [locate_concat hn] at hl
    cases hm : t.resolve p with
    | error e => simp [hm] at hl
    | ok m =>
        rw [hm] at hl
        dsimp only at hl
        split at hl
        next =>
          cases hl
          exact resolve_append_dir hn hdir (hgrows.resolveFrom hm)
        next => cases hl

end Paved

/-! ### Creating directories -/

namespace Io

open FileTree.Tree

variable {d d' : Disk} {p : Path}

theorem mkdir_root (t : Tree) : ∃ e, t.mkdir [] = .error e := by
  unfold Tree.mkdir addNew
  have hroot : t.locate [] = .ok [] := rfl
  have hhas : t.has [] = true := has_of_isDir (isDir_root t)
  rw [hroot]
  exact ⟨.alreadyExists, by simp [hhas]⟩

theorem wp_tolerate_any {e : Errno} {Q : Unit → Disk → Prop} {E : Errno → Disk → Prop}
    (hok : ∀ d', Kept d d' → (∃ x, d.tree.stat p = .ok x ∧ x.isDir = true) → Q () d')
    (herr : ∀ d', Kept d d' → E e d') : wp (tolerate p e) Q E d := by
  unfold tolerate
  split
  · rw [wp_bind]
    refine wp_isDir fun b d' hk hb => ?_
    cases b with
    | true =>
        refine hok d' hk ?_
        rcases hb with hx | ⟨hb, -⟩
        · exact hx
        · cases hb
    | false => exact herr d' hk
  · exact herr d (Kept.refl d)

theorem wp_createDirAllUp_paved : ∀ (up : List Name) {d : Disk},
    wp (createDirAllUp up) (fun _ d' => Paved up.reverse d.tree d'.tree)
      (fun _ d' => Paved up.reverse d.tree d'.tree) d
  | [], d => by
      have hkeep : ∀ {d' : Disk}, Kept d d' → Paved [] d.tree d'.tree := fun hk =>
        hk.tree ▸ Paved.refl _ _
      rw [createDirAllUp, wp_bind, wp_attempt, Io.mkdir]
      refine wp_update (fun d' h _ _ => ?_) fun e d' hk _ => ?_
      · obtain ⟨e, he⟩ := mkdir_root d.tree
        rw [he] at h
        cases h
      · exact wp_tolerate_any (fun d₂ hk₂ _ => hkeep (hk.trans hk₂)) fun d₂ hk₂ =>
          hkeep (hk.trans hk₂)
  | n :: above, d => by
      have hkeep : ∀ {d₁ d₂ : Disk}, Paved (n :: above).reverse d.tree d₁.tree → Kept d₁ d₂ →
          Paved (n :: above).reverse d.tree d₂.tree := fun h hk => hk.tree ▸ h
      have hlast : ∀ {d₁ d₂ : Disk}, Paved (n :: above).reverse d.tree d₁.tree →
          d₁.tree.mkdir (n :: above).reverse = .ok d₂.tree →
          Paved (n :: above).reverse d.tree d₂.tree := by
        intro d₁ d₂ h hm
        rw [List.reverse_cons] at hm h ⊢
        exact h.trans (Paved.of_mkdir hm)
      have htolerate : ∀ {e : Errno} {d₁ : Disk}, Paved (n :: above).reverse d.tree d₁.tree →
          wp (tolerate (n :: above).reverse e)
            (fun _ d' => Paved (n :: above).reverse d.tree d'.tree)
            (fun _ d' => Paved (n :: above).reverse d.tree d'.tree) d₁ := fun h =>
        wp_tolerate_any (fun d₂ hk _ => hkeep h hk) fun d₂ hk => hkeep h hk
      rw [createDirAllUp, wp_bind, wp_attempt, Io.mkdir]
      refine wp_update (fun d₁ h _ _ => hlast (Paved.refl _ _) h) fun e d₁ hk _ => ?_
      have h₁ := hkeep (Paved.refl (n :: above).reverse d.tree) hk
      dsimp only
      split
      · rw [wp_bind]
        have hup := wp_createDirAllUp_paved above (d := d₁)
        have hmono : ∀ d₂ : Disk, Paved above.reverse d₁.tree d₂.tree →
            Paved (n :: above).reverse d.tree d₂.tree := by
          intro d₂ h
          refine h₁.trans (h.mono ?_)
          rw [List.reverse_cons]
          exact List.prefix_append _ _
        refine wp_mono hup (fun _ d₂ h₂ => ?_) fun _ d₂ h₂ => hmono d₂ h₂
        rw [wp_bind, wp_attempt]
        exact wp_update (fun d₃ h _ _ => hlast (hmono d₂ h₂) h) fun e d₃ hk _ =>
          htolerate (hkeep (hmono d₂ h₂) hk)
      · exact htolerate h₁

/-- **Creating a directory paves the way to it**: what is above it first, and then the
directory, which a call that goes through has made or found. -/
theorem wp_createDirAll_paved {n : Name} :
    wp (createDirAll (p ++ [n]))
      (fun _ d' => ∃ t, Paved p d.tree t ∧ (t.mkdir (p ++ [n]) = .ok d'.tree ∨
        (d'.tree = t ∧ ∃ x, t.stat (p ++ [n]) = .ok x ∧ x.isDir = true)))
      (fun _ d' => Paved p d.tree d'.tree) d := by
  have hrev : (n :: p.reverse).reverse = p ++ [n] := by simp
  have htolerate : ∀ {e : Errno} {d₁ : Disk}, Paved p d.tree d₁.tree →
      wp (tolerate (n :: p.reverse).reverse e)
        (fun _ d' => ∃ t, Paved p d.tree t ∧ (t.mkdir (p ++ [n]) = .ok d'.tree ∨
          (d'.tree = t ∧ ∃ x, t.stat (p ++ [n]) = .ok x ∧ x.isDir = true)))
        (fun _ d' => Paved p d.tree d'.tree) d₁ := by
    intro e d₁ h
    rw [hrev]
    exact wp_tolerate_any (fun d₂ hk hx => ⟨d₁.tree, h, .inr ⟨hk.tree, hx⟩⟩) fun d₂ hk =>
      hk.tree ▸ h
  have hmade : ∀ {d₁ d₂ : Disk}, Paved p d.tree d₁.tree →
      d₁.tree.mkdir (n :: p.reverse).reverse = .ok d₂.tree →
      ∃ t, Paved p d.tree t ∧ (t.mkdir (p ++ [n]) = .ok d₂.tree ∨
        (d₂.tree = t ∧ ∃ x, t.stat (p ++ [n]) = .ok x ∧ x.isDir = true)) :=
    fun {d₁ _} h hm => ⟨d₁.tree, h, .inl (hrev ▸ hm)⟩
  rw [createDirAll, List.reverse_append, List.reverse_singleton, List.singleton_append,
    createDirAllUp, wp_bind, wp_attempt, Io.mkdir]
  refine wp_update (fun d₁ h _ _ => hmade (Paved.refl _ _) h) fun e d₁ hk _ => ?_
  have h₁ : Paved p d.tree d₁.tree := hk.tree ▸ Paved.refl _ _
  dsimp only
  split
  · rw [wp_bind]
    have hup := wp_createDirAllUp_paved p.reverse (d := d₁)
    rw [List.reverse_reverse, hk.tree] at hup
    refine wp_mono hup (fun _ d₂ h₂ => ?_) fun _ _ h₂ => h₂
    rw [wp_bind, wp_attempt]
    exact wp_update (fun d₃ h _ _ => hmade h₂ h) fun e d₃ hk₃ _ => htolerate (hk₃.tree ▸ h₂)
  · exact htolerate h₁

end Io

end FileTree
