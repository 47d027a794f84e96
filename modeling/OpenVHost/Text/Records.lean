/-
# A sequence cut into lines

A sequence of elements, one of which ends a line. What `read_until` returns, call
after call, are its chunks: the complete lines with their separator and at the end
what is left without one.

* `lines_join` — the complete lines of lines put together are these lines.
* `chunks_join` — and so are the chunks.
* `mem_lines` — a complete line stands between two boundaries, the start of the
  sequence being one.
* `exists_join` — every sequence is complete lines and a fragment.
-/

import Mathlib.Data.List.Basic
import Mathlib.Tactic.Common

namespace Text

variable {α : Type} (sep : α)

/-- Lines put together, each with its separator. -/
def join (ls : List (List α)) : List α := (ls.map (· ++ [sep])).flatten

variable [DecidableEq α]

/-- The complete lines, without their separators. -/
def lines : List α → List (List α)
  | [] => []
  | x :: rest =>
      if x = sep then [] :: lines rest
      else match lines rest with
        | [] => []
        | line :: others => (x :: line) :: others

/-- The chunks that `read_until` returns before the end. -/
def chunks : List α → List (List α)
  | [] => []
  | x :: rest =>
      if x = sep then [x] :: chunks rest
      else match chunks rest with
        | [] => [[x]]
        | chunk :: others => (x :: chunk) :: others

/-- A place at which a line can begin. -/
def AtBoundary (l : List α) (n : Nat) : Prop := n = 0 ∨ l[n - 1]? = some sep

instance (l : List α) (n : Nat) : Decidable (AtBoundary sep l n) :=
  inferInstanceAs (Decidable (_ ∨ _))

/-- The elements between two boundaries, if no other lies between them. -/
def IsLine (l line : List α) : Prop :=
  ∃ before after, l = before ++ line ++ sep :: after ∧ sep ∉ line ∧
    AtBoundary sep l before.length

variable {sep}

section Join

omit [DecidableEq α]

@[simp] theorem join_nil : join sep [] = [] := rfl

@[simp] theorem join_cons (line : List α) (ls : List (List α)) :
    join sep (line :: ls) = line ++ sep :: join sep ls := by
  simp [join]

@[simp] theorem join_append (ls ms : List (List α)) :
    join sep (ls ++ ms) = join sep ls ++ join sep ms := by
  simp [join]

/-- After whole lines a new one begins. -/
theorem atBoundary_join (ls : List (List α)) (after : List α) :
    AtBoundary sep (join sep ls ++ after) (join sep ls).length := by
  obtain rfl | ⟨init, last, rfl⟩ := List.eq_nil_or_concat ls
  · exact .inl rfl
  · right
    simp

/-- More at the end moves no boundary. -/
theorem AtBoundary.append {l : List α} {n : Nat} (h : AtBoundary sep l n) (more : List α) :
    AtBoundary sep (l ++ more) n := by
  obtain rfl | h := h
  · exact .inl rfl
  · exact .inr (List.getElem?_append_left (List.getElem?_eq_some_iff.mp h).1 ▸ h)

theorem IsLine.append {l line : List α} (h : IsLine sep l line) (more : List α) :
    IsLine sep (l ++ more) line := by
  obtain ⟨before, after, rfl, hline, hb⟩ := h
  exact ⟨before, after ++ more, by simp, hline, hb.append more⟩

end Join

theorem lines_cut {line : List α} (h : sep ∉ line) (after : List α) :
    lines sep (line ++ sep :: after) = line :: lines sep after := by
  induction line with
  | nil => simp [lines]
  | cons x line ih =>
      rw [List.mem_cons, not_or] at h
      rw [List.cons_append, lines, if_neg (Ne.symm h.1), ih h.2]

theorem chunks_cut {line : List α} (h : sep ∉ line) (after : List α) :
    chunks sep (line ++ sep :: after) = (line ++ [sep]) :: chunks sep after := by
  induction line with
  | nil => simp [chunks]
  | cons x line ih =>
      rw [List.mem_cons, not_or] at h
      rw [List.cons_append, chunks, if_neg (Ne.symm h.1), ih h.2]
      rfl

theorem lines_fragment {fragment : List α} (h : sep ∉ fragment) : lines sep fragment = [] := by
  induction fragment with
  | nil => rfl
  | cons x fragment ih =>
      rw [List.mem_cons, not_or] at h
      rw [lines, if_neg (Ne.symm h.1), ih h.2]

theorem chunks_fragment {fragment : List α} (h : sep ∉ fragment) (hne : fragment ≠ []) :
    chunks sep fragment = [fragment] := by
  induction fragment with
  | nil => exact absurd rfl hne
  | cons x fragment ih =>
      rw [List.mem_cons, not_or] at h
      rw [chunks, if_neg (Ne.symm h.1)]
      cases hf : fragment with
      | nil => rfl
      | cons y rest =>
          rw [← hf, ih h.2 (by simp [hf])]

variable (sep) in
/-- Induction along the lines of a sequence. -/
theorem cut_induction {P : List α → Prop} (fragment : ∀ a, sep ∉ a → P a)
    (line : ∀ a after, sep ∉ a → P after → P (a ++ sep :: after)) : ∀ l, P l := by
  intro l
  induction hn : l.length using Nat.strongRecOn generalizing l with
  | ind n ih =>
      by_cases hmem : sep ∈ l
      · obtain ⟨a, after, rfl, ha⟩ := List.eq_append_cons_of_mem hmem
        refine line a after ha (ih after.length ?_ after rfl)
        rw [← hn, List.length_append, List.length_cons]
        omega
      · exact fragment l hmem

theorem lines_join {ls : List (List α)} (h : ∀ line ∈ ls, sep ∉ line) (after : List α) :
    lines sep (join sep ls ++ after) = ls ++ lines sep after := by
  induction ls with
  | nil => rfl
  | cons line ls ih =>
      rw [List.forall_mem_cons] at h
      rw [join_cons, List.append_assoc, List.cons_append, lines_cut h.1, ih h.2]
      rfl

theorem not_mem_of_mem_lines {l line : List α} (h : line ∈ lines sep l) : sep ∉ line := by
  induction l using cut_induction sep generalizing line with
  | fragment a ha => simp [lines_fragment ha] at h
  | line a after ha ih =>
      rw [lines_cut ha, List.mem_cons] at h
      obtain rfl | h := h
      · exact ha
      · exact ih h

variable (sep) in
/-- **Every sequence is complete lines and a fragment.** -/
theorem exists_join (l : List α) :
    ∃ fragment, sep ∉ fragment ∧ l = join sep (lines sep l) ++ fragment := by
  induction l using cut_induction sep with
  | fragment a ha => exact ⟨a, ha, by simp [lines_fragment ha]⟩
  | line a after ha ih =>
      obtain ⟨fragment, hf, hl⟩ := ih
      exact ⟨fragment, hf, by rw [lines_cut ha, join_cons, List.append_assoc, List.cons_append,
        ← hl]⟩

/-- What stands before a boundary is whole lines. -/
theorem take_eq_join {l : List α} {n : Nat} (h : AtBoundary sep l n) :
    l.take n = join sep (lines sep (l.take n)) := by
  obtain ⟨fragment, hf, hl⟩ := exists_join sep (l.take n)
  obtain rfl | hn := h
  · rfl
  obtain ⟨hlt, hget⟩ := List.getElem?_eq_some_iff.mp hn
  obtain rfl | ⟨init, last, rfl⟩ := List.eq_nil_or_concat fragment
  · simpa using hl
  have hne : n ≠ 0 := by
    rintro rfl
    simp at hl
  have hlast : (l.take n).getLast? = some sep := by
    rw [List.getLast?_eq_getElem?, List.length_take, Nat.min_eq_left (by omega),
      List.getElem?_take_of_lt (by omega), hn]
  rw [hl] at hlast
  simp only [List.concat_eq_append, ← List.append_assoc, List.getLast?_concat,
    Option.some.injEq] at hlast
  simp [hlast] at hf

/-- The lines before a boundary, and those after it. -/
theorem lines_of_atBoundary {l : List α} {n : Nat} (h : AtBoundary sep l n) :
    lines sep l = lines sep (l.take n) ++ lines sep (l.drop n) := by
  conv_lhs => rw [← List.take_append_drop n l, take_eq_join h]
  exact lines_join (fun _ hm => not_mem_of_mem_lines hm) _

/-- Past whole lines there is a boundary again. -/
theorem AtBoundary.join {l after : List α} {n : Nat} {ls : List (List α)}
    (h : AtBoundary sep l n) (hn : n ≤ l.length) (hl : l.drop n = Text.join sep ls ++ after) :
    AtBoundary sep l (n + (Text.join sep ls).length) := by
  have hcut : l = Text.join sep (lines sep (l.take n) ++ ls) ++ after := by
    rw [join_append, ← take_eq_join h, List.append_assoc, ← hl, List.take_append_drop]
  have hlen : n + (Text.join sep ls).length
      = (Text.join sep (lines sep (l.take n) ++ ls)).length := by
    rw [join_append, ← take_eq_join h, List.length_append, List.length_take, Nat.min_eq_left hn]
  rw [hlen]
  conv =>
    arg 2
    rw [hcut]
  exact atBoundary_join _ _

/-- **A complete line stands between two boundaries.** -/
theorem mem_lines {l line : List α} : line ∈ lines sep l ↔ IsLine sep l line := by
  constructor
  · intro h
    obtain ⟨fragment, -, hl⟩ := exists_join sep l
    obtain ⟨before, after, hls⟩ := List.append_of_mem h
    rw [hls] at hl
    refine ⟨join sep before, join sep after ++ fragment, by simpa using hl,
      not_mem_of_mem_lines h, ?_⟩
    rw [hl, join_append, List.append_assoc]
    exact atBoundary_join _ _
  · rintro ⟨before, after, rfl, hline, hb⟩
    rw [lines_of_atBoundary hb, List.append_assoc, List.drop_left, lines_cut hline]
    simp

/-- From any place on, a line is the end of a line. -/
theorem lines_drop_suffix {l line : List α} {n : Nat} (h : line ∈ lines sep (l.drop n)) :
    ∃ whole ∈ lines sep l, line <:+ whole := by
  induction l using cut_induction sep generalizing n with
  | fragment a ha =>
      have hdrop : sep ∉ a.drop n := fun hm => ha (List.mem_of_mem_drop hm)
      simp [lines_fragment hdrop] at h
  | line a after ha ih =>
      rw [lines_cut ha]
      by_cases hn : n ≤ a.length
      · have hdrop : sep ∉ a.drop n := fun hm => ha (List.mem_of_mem_drop hm)
        rw [List.drop_append_of_le_length hn, lines_cut hdrop, List.mem_cons] at h
        obtain rfl | h := h
        · exact ⟨a, List.mem_cons_self, List.drop_suffix n a⟩
        · exact ⟨line, List.mem_cons_of_mem a h, List.suffix_refl line⟩
      · obtain ⟨k, rfl⟩ := Nat.exists_eq_add_of_lt (Nat.lt_of_not_le hn)
        rw [Nat.add_assoc, List.drop_length_add_append, List.drop_succ_cons] at h
        obtain ⟨whole, hwhole, hsuffix⟩ := ih h
        exact ⟨whole, List.mem_cons_of_mem a hwhole, hsuffix⟩

/-- What ends with a separator ends with a line. -/
theorem lines_ne_nil {l : List α} (h : sep ∈ l) : lines sep l ≠ [] := by
  obtain ⟨a, after, rfl, ha⟩ := List.eq_append_cons_of_mem h
  rw [lines_cut ha]
  exact List.cons_ne_nil _ _

/-! ### Windows -/

/-- The first lines of a window stand at the start of what it is a window of. -/
theorem exists_of_lines_take {l : List α} {n : Nat} {taken rest : List (List α)}
    (h : lines sep (l.take n) = taken ++ rest) : ∃ after, l = join sep taken ++ after := by
  obtain ⟨fragment, -, hl⟩ := exists_join sep (l.take n)
  rw [h, join_append, List.append_assoc] at hl
  refine ⟨join sep rest ++ fragment ++ l.drop n, ?_⟩
  rw [← List.append_assoc, ← hl, List.take_append_drop]

/-- A window that is longer than the first line has a line. -/
theorem lines_take_ne_nil {l line : List α} {n : Nat} {others : List (List α)}
    (h : lines sep l = line :: others) (hn : line.length < n) : lines sep (l.take n) ≠ [] := by
  obtain ⟨fragment, -, hl⟩ := exists_join sep l
  have hline : sep ∉ line := not_mem_of_mem_lines (l := l) (by simp [h])
  rw [h, join_cons, List.append_assoc] at hl
  obtain ⟨k, rfl⟩ := Nat.exists_eq_add_of_lt hn
  rw [hl, Nat.add_assoc, List.take_length_add_append, List.cons_append, List.take_succ_cons,
    lines_cut hline]
  exact List.cons_ne_nil _ _

/-- The lines `taken` stand in a sequence from one place to another. -/
structure Passed (sep : α) (l : List α) (n n' : Nat) (taken : List (List α)) : Prop where
  whole : ∀ line ∈ taken, sep ∉ line
  content : l.drop n = join sep taken ++ l.drop n'
  place : n' = n + (join sep taken).length
  inside : n' ≤ l.length

theorem passed_of_window {l : List α} {n k : Nat} {taken rest : List (List α)}
    (hn : n ≤ l.length) (h : lines sep ((l.drop n).take k) = taken ++ rest) :
    Passed sep l n (n + (join sep taken).length) taken := by
  obtain ⟨after, hl⟩ := exists_of_lines_take h
  have hlen := congrArg List.length hl
  rw [List.length_drop, List.length_append] at hlen
  constructor
  · intro line hline
    exact not_mem_of_mem_lines (l := (l.drop n).take k) (h ▸ List.mem_append_left _ hline)
  · rw [← List.drop_drop, hl, List.drop_left]
  · rfl
  · omega

namespace Passed

variable {l more : List α} {n n' n'' : Nat} {taken taken' : List (List α)}

section

omit [DecidableEq α]

theorem refl (hn : n ≤ l.length) : Passed sep l n n [] :=
  ⟨by simp, by simp, by simp, hn⟩

theorem trans (h : Passed sep l n n' taken) (h' : Passed sep l n' n'' taken') :
    Passed sep l n n'' (taken ++ taken') := by
  constructor
  · intro line hline
    exact (List.mem_append.mp hline).elim (h.whole line) (h'.whole line)
  · rw [h.content, h'.content, join_append, List.append_assoc]
  · rw [h'.place, h.place, join_append, List.length_append, Nat.add_assoc]
  · exact h'.inside

theorem append (h : Passed sep l n n' taken) : Passed sep (l ++ more) n n' taken := by
  have hle : n ≤ n' := h.place ▸ Nat.le_add_right ..
  constructor
  · exact h.whole
  · rw [List.drop_append_of_le_length (Nat.le_trans hle h.inside),
      List.drop_append_of_le_length h.inside, h.content, List.append_assoc]
  · exact h.place
  · rw [List.length_append]
    exact Nat.le_trans h.inside (Nat.le_add_right ..)

/-- Past the first of them a line begins, wherever the first began. -/
theorem tail {first : List α} (h : Passed sep l n n' (first :: taken)) :
    ∃ m, AtBoundary sep l m ∧ Passed sep l m n' taken := by
  have hcontent := h.content
  rw [join_cons, List.append_assoc, List.cons_append] at hcontent
  refine ⟨n + (first.length + 1), .inr ?_, fun line hline => h.whole line (.tail _ hline), ?_, ?_,
    h.inside⟩
  · rw [← Nat.add_assoc, Nat.add_sub_cancel, ← List.getElem?_drop, hcontent]
    simp
  · rw [← List.drop_drop, hcontent, List.drop_length_add_append]
    rfl
  · rw [h.place, join_cons, List.length_append, List.length_cons]
    omega

end

/-- They are the first lines from there on. -/
theorem lines_drop (h : Passed sep l n n' taken) :
    lines sep (l.drop n) = taken ++ lines sep (l.drop n') := by
  rw [h.content]
  exact lines_join h.whole _

theorem atBoundary (h : Passed sep l n n' taken) (hb : AtBoundary sep l n) :
    AtBoundary sep l n' := by
  have hle : n ≤ n' := h.place ▸ Nat.le_add_right ..
  rw [h.place]
  exact hb.join (Nat.le_trans hle h.inside) h.content

theorem isLine (h : Passed sep l n n' taken) (hb : AtBoundary sep l n) {line : List α}
    (hline : line ∈ taken) : IsLine sep l line := by
  rw [← mem_lines, lines_of_atBoundary hb, h.lines_drop]
  exact List.mem_append_right _ (List.mem_append_left _ hline)

end Passed

end Text
