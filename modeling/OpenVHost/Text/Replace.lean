/-
# Replacing a text in a text

Every occurrence of a pattern is replaced, from the left, and none of them overlap. What is put
in their place is fenced off from a word that holds neither its first character nor its last and
is not between them: no occurrence of the word reaches into it.

* `not_infix_replaceAll` — the pattern does not occur in the result.
* `infix_of_infix_replaceAll` — a word that occurs in the result occurs in the text.
* `exists_piece` — a word without separators is within one piece of a text.
* `not_infix_replaceEach` — of several patterns, replaced one after the other, none occurs.
-/

import Mathlib.Data.List.Infix

namespace Text

variable {α : Type}

/-! ### Words around a separator -/

section Infix

variable {w x y : List α} {b : α}

theorem prefix_before (h : w <+: x ++ b :: y) (hb : b ∉ w) : w <+: x := by
  have hx : x ++ [b] <+: x ++ b :: y := ⟨y, by simp⟩
  have hnot : ¬ x ++ [b] <+: w := fun hw => hb (hw.subset (by simp))
  rcases List.prefix_or_prefix_of_prefix h hx with hw | hw
  · rcases List.prefix_concat_iff.mp hw with rfl | hw
    · exact absurd List.prefix_rfl hnot
    · exact hw
  · exact absurd hw hnot

/-- A word without the separator is on one side of it. -/
theorem infix_around (h : w <:+: x ++ b :: y) (hb : b ∉ w) : w <:+: x ∨ w <:+: y := by
  induction x with
  | nil =>
      rcases List.infix_cons_iff.mp h with hw | hw
      · exact .inl (prefix_before hw hb).isInfix
      · exact .inr hw
  | cons a x ih =>
      rcases List.infix_cons_iff.mp h with hw | hw
      · exact .inl (prefix_before hw hb).isInfix
      · exact (ih hw).imp_left List.infix_cons

/-- A word without separators is within one of the pieces between them. -/
theorem exists_piece {p : α → Bool} (hw : ∀ c ∈ w, p c = false) (h : w <:+: x) :
    ∃ piece ∈ x.splitOnP p, w <:+: piece := by
  induction hn : x.length using Nat.strong_induction_on generalizing x with
  | _ n ih =>
      by_cases hsep : ∃ c ∈ x, p c = true
      · obtain ⟨c, hc, hp⟩ := hsep
        obtain ⟨left, right, rfl⟩ := List.append_of_mem hc
        have hne : c ∉ w := fun hc => by simp [hw c hc] at hp
        rw [List.splitOnP_append_cons left right hp]
        simp only [List.length_append, List.length_cons] at hn
        rcases infix_around h hne with hleft | hright
        · obtain ⟨piece, hmem, hpiece⟩ := ih left.length (by omega) hleft rfl
          exact ⟨piece, List.mem_append_left _ hmem, hpiece⟩
        · obtain ⟨piece, hmem, hpiece⟩ := ih right.length (by omega) hright rfl
          exact ⟨piece, List.mem_append_right _ hmem, hpiece⟩
      · have hnone : ∀ c ∈ x, p c = false := fun c hc => by
          simpa using fun hp => hsep ⟨c, hc, hp⟩
        refine ⟨x, ?_, h⟩
        rw [List.splitOnP_eq_singleton hnone]
        exact List.mem_singleton_self x

end Infix

/-! ### Replacing -/

section Replace

variable [DecidableEq α]

/-- The rest of a text, with so many characters of an occurrence still to be passed over. -/
def replaceFrom (pat new : List α) : Nat → List α → List α
  | _, [] => []
  | n + 1, _ :: s => replaceFrom pat new n s
  | 0, c :: s =>
      if pat.isPrefixOf (c :: s) then new ++ replaceFrom pat new (pat.length - 1) s
      else c :: replaceFrom pat new 0 s

/-- Every occurrence of a pattern is replaced; an empty one is at every character and at the
end. -/
def replaceAll (pat new s : List α) : List α :=
  if pat = [] then new ++ s.flatMap (fun c => c :: new) else replaceFrom pat new 0 s

/-- Several patterns are replaced, one after the other. -/
def replaceEach (new : List α) (pats : List (List α)) (s : List α) : List α :=
  pats.foldl (fun s pat => replaceAll pat new s) s

/-- What no occurrence of a word reaches into. -/
structure Fenced (w new : List α) : Prop where
  ne_nil : w ≠ []
  fence : ∃ a mid b, new = a :: (mid ++ [b]) ∧ a ∉ w ∧ b ∉ w ∧ ¬ w <:+: mid

variable {w pat new s t : List α} {n : Nat}

omit [DecidableEq α] in
theorem Fenced.of_infix (h : Fenced w new) (hw : w <:+: new ++ t) : w <:+: t := by
  have hempty : ¬ w <:+: [] := fun hw => h.ne_nil (List.infix_nil.mp hw)
  obtain ⟨a, mid, b, rfl, ha, hb, hmid⟩ := h.fence
  have hw : w <:+: (a :: mid) ++ b :: t := by simpa using hw
  refine (infix_around hw hb).resolve_left fun hfirst => ?_
  rcases infix_around (show w <:+: [] ++ a :: mid from hfirst) ha with hw | hw
  · exact hempty hw
  · exact hmid hw

/-- A tail of the word at the front of the result is at the front of the text. -/
theorem prefix_of_prefix_replaceFrom {u : List α} (h : Fenced w new) (hu : ∀ c ∈ u, c ∈ w)
    (hpre : u <+: replaceFrom pat new 0 s) : u <+: s := by
  induction s generalizing u with
  | nil => exact hpre
  | cons c s ih =>
      cases u with
      | nil => exact List.nil_prefix
      | cons d u =>
          rw [replaceFrom] at hpre
          split_ifs at hpre
          · obtain ⟨a, mid, b, rfl, ha, -⟩ := h.fence
            obtain ⟨rfl, -⟩ := List.cons_prefix_cons.mp hpre
            exact absurd (hu d List.mem_cons_self) ha
          · obtain ⟨hd, htail⟩ := List.cons_prefix_cons.mp hpre
            exact List.cons_prefix_cons.mpr
              ⟨hd, ih (fun e he => hu e (List.mem_cons_of_mem _ he)) htail⟩

theorem infix_of_infix_replaceFrom (h : Fenced w new) (hw : w <:+: replaceFrom pat new n s) :
    w <:+: s := by
  induction s generalizing n with
  | nil => cases n <;> exact hw
  | cons c s ih =>
      cases n with
      | succ n => exact List.infix_cons (ih hw)
      | zero =>
          rw [replaceFrom] at hw
          split_ifs at hw with hmatch
          · exact List.infix_cons (ih (h.of_infix hw))
          · rcases List.infix_cons_iff.mp hw with hpre | hrest
            · have hpre : w <+: replaceFrom pat new 0 (c :: s) := by
                rw [replaceFrom, if_neg hmatch]
                exact hpre
              exact (prefix_of_prefix_replaceFrom h (fun _ hc => hc) hpre).isInfix
            · exact List.infix_cons (ih hrest)

theorem not_infix_replaceFrom (h : Fenced pat new) : ¬ pat <:+: replaceFrom pat new n s := by
  induction s generalizing n with
  | nil =>
      intro hw
      exact h.ne_nil (List.infix_nil.mp (by cases n <;> exact hw))
  | cons c s ih =>
      cases n with
      | succ n => exact ih
      | zero =>
          intro hw
          rw [replaceFrom] at hw
          split_ifs at hw with hmatch
          · exact ih (h.of_infix hw)
          · rcases List.infix_cons_iff.mp hw with hpre | hrest
            · have hpre : pat <+: replaceFrom pat new 0 (c :: s) := by
                rw [replaceFrom, if_neg hmatch]
                exact hpre
              exact hmatch (List.isPrefixOf_iff_prefix.mpr
                (prefix_of_prefix_replaceFrom h (fun _ hc => hc) hpre))
            · exact ih hrest

/-- **A pattern that has been replaced does not occur.** -/
theorem not_infix_replaceAll (h : Fenced pat new) : ¬ pat <:+: replaceAll pat new s := by
  rw [replaceAll, if_neg h.ne_nil]
  exact not_infix_replaceFrom h

/-- **A replacement makes no occurrence of a word** that it is fenced off from. -/
theorem infix_of_infix_replaceAll (hpat : pat ≠ []) (h : Fenced w new)
    (hw : w <:+: replaceAll pat new s) : w <:+: s := by
  rw [replaceAll, if_neg hpat] at hw
  exact infix_of_infix_replaceFrom h hw

theorem infix_of_infix_replaceEach {pats : List (List α)} (hpats : ∀ pat ∈ pats, pat ≠ [])
    (h : Fenced w new) (hw : w <:+: replaceEach new pats s) : w <:+: s := by
  induction pats generalizing s with
  | nil => exact hw
  | cons pat pats ih =>
      exact infix_of_infix_replaceAll (hpats pat List.mem_cons_self) h
        (ih (fun p hp => hpats p (List.mem_cons_of_mem _ hp)) hw)

/-- **Of several patterns that are replaced one after the other none occurs.** -/
theorem not_infix_replaceEach {pats : List (List α)} (h : ∀ pat ∈ pats, Fenced pat new)
    (hpat : pat ∈ pats) : ¬ pat <:+: replaceEach new pats s := by
  induction pats generalizing s with
  | nil => cases hpat
  | cons p pats ih =>
      have hrest : ∀ q ∈ pats, Fenced q new := fun q hq => h q (List.mem_cons_of_mem _ hq)
      rcases List.mem_cons.mp hpat with rfl | hpat
      · intro hw
        have hfirst : pat <:+: replaceAll pat new s :=
          infix_of_infix_replaceEach (fun q hq => (hrest q hq).ne_nil)
            (h pat List.mem_cons_self) hw
        exact not_infix_replaceAll (h pat List.mem_cons_self) hfirst
      · exact ih hrest hpat

end Replace

example : replaceAll "aa".toList "b".toList "aaaca".toList = "baca".toList := by decide

end Text
