/-
# First come, first served

Entries claim a key each, or none, one after the other. An entry is kept if its key is
still free.

* `claim_pairwise`, `claim_free` — no two entries that are kept claim one key, and none
  claims a key that was taken before.
* `taken_of_not_claimed` — an entry that is not kept finds its key taken, before or by an
  entry that comes earlier.
-/

import Mathlib.Data.List.Basic
import Mathlib.Data.List.Pairwise

namespace Merge

variable {κ α : Type} [DecidableEq κ] (key : α → Option κ)

/-- The entries whose keys are free when they come. -/
def claim : List κ → List α → List α
  | _, [] => []
  | taken, a :: rest =>
      match key a with
      | none => a :: claim taken rest
      | some k => if k ∈ taken then claim taken rest else a :: claim (k :: taken) rest

variable {key} {taken : List κ} {xs : List α} {a b : α} {k : κ}

/-- The entry that comes first is kept without taking a key, is passed over, or takes its
key. -/
theorem claim_cons_cases (key : α → Option κ) (taken : List κ) (a : α) (rest : List α) :
    key a = none ∧ claim key taken (a :: rest) = a :: claim key taken rest ∨
      ∃ k, key a = some k ∧
        (k ∈ taken ∧ claim key taken (a :: rest) = claim key taken rest ∨
          k ∉ taken ∧ claim key taken (a :: rest) = a :: claim key (k :: taken) rest) := by
  cases hkey : key a with
  | none => exact .inl ⟨rfl, by simp [claim, hkey]⟩
  | some k =>
      refine .inr ⟨k, rfl, ?_⟩
      by_cases hk : k ∈ taken
      · exact .inl ⟨hk, by simp [claim, hkey, hk]⟩
      · exact .inr ⟨hk, by simp [claim, hkey, hk]⟩

theorem claim_sublist : (claim key taken xs).Sublist xs := by
  induction xs generalizing taken with
  | nil => exact List.Sublist.refl _
  | cons a rest ih =>
      obtain ⟨-, h⟩ | ⟨k, -, ⟨-, h⟩ | ⟨-, h⟩⟩ := claim_cons_cases key taken a rest
      · rw [h]
        exact ih.cons_cons a
      · rw [h]
        exact ih.cons a
      · rw [h]
        exact ih.cons_cons a

/-- **A key that is taken is not claimed.** -/
theorem claim_free (ha : a ∈ claim key taken xs) (hk : key a = some k) : k ∉ taken := by
  induction xs generalizing taken with
  | nil => cases ha
  | cons x rest ih =>
      obtain ⟨hx, h⟩ | ⟨k', hx, ⟨-, h⟩ | ⟨hfree, h⟩⟩ := claim_cons_cases key taken x rest
      · rw [h] at ha
        obtain rfl | ha := List.mem_cons.mp ha
        · rw [hx] at hk
          cases hk
        · exact ih ha
      · rw [h] at ha
        exact ih ha
      · rw [h] at ha
        obtain rfl | ha := List.mem_cons.mp ha
        · rw [hx] at hk
          cases hk
          exact hfree
        · exact fun hmem => ih ha (List.mem_cons_of_mem k' hmem)

/-- Two entries that do not claim one key. -/
def Apart (key : α → Option κ) (a b : α) : Prop := ∀ k, key a = some k → key b ≠ some k

/-- **No two entries claim one key.** -/
theorem claim_pairwise : (claim key taken xs).Pairwise (Apart key) := by
  induction xs generalizing taken with
  | nil => exact List.Pairwise.nil
  | cons x rest ih =>
      obtain ⟨hx, h⟩ | ⟨k, hx, ⟨-, h⟩ | ⟨-, h⟩⟩ := claim_cons_cases key taken x rest
      · rw [h]
        refine List.pairwise_cons.mpr ⟨fun b _ k hk => ?_, ih⟩
        rw [hx] at hk
        cases hk
      · rw [h]
        exact ih
      · rw [h]
        refine List.pairwise_cons.mpr ⟨fun b hb k' hk' hb' => ?_, ih⟩
        rw [hx] at hk'
        cases hk'
        exact claim_free hb hb' List.mem_cons_self

/-- **An entry that is not kept finds its key taken**, before or by one that comes earlier. -/
theorem taken_of_not_claimed {earlier : α → α → Prop} (hxs : xs.Pairwise earlier) (ha : a ∈ xs)
    (hnot : a ∉ claim key taken xs) :
    ∃ k, key a = some k ∧
      (k ∈ taken ∨ ∃ b ∈ claim key taken xs, earlier b a ∧ key b = some k) := by
  induction xs generalizing taken with
  | nil => cases ha
  | cons x rest ih =>
      obtain ⟨hfirst, hrest⟩ := List.pairwise_cons.mp hxs
      obtain ⟨-, h⟩ | ⟨k, hx, ⟨hk, h⟩ | ⟨-, h⟩⟩ := claim_cons_cases key taken x rest
      · rw [h] at hnot ⊢
        obtain ⟨hne, hnot⟩ := not_or.mp (List.mem_cons.not.mp hnot)
        obtain ⟨k, hk, htaken | ⟨b, hb, hba, hbk⟩⟩ :=
          ih hrest ((List.mem_cons.mp ha).resolve_left hne) hnot
        · exact ⟨k, hk, .inl htaken⟩
        · exact ⟨k, hk, .inr ⟨b, List.mem_cons_of_mem x hb, hba, hbk⟩⟩
      · rw [h] at hnot ⊢
        obtain rfl | ha := List.mem_cons.mp ha
        · exact ⟨k, hx, .inl hk⟩
        · exact ih hrest ha hnot
      · rw [h] at hnot ⊢
        obtain ⟨hne, hnot⟩ := not_or.mp (List.mem_cons.not.mp hnot)
        have ha' := (List.mem_cons.mp ha).resolve_left hne
        obtain ⟨k', hk', htaken | ⟨b, hb, hba, hbk⟩⟩ := ih hrest ha' hnot
        · -- the key was free before the first entry took it
          obtain rfl | htaken := List.mem_cons.mp htaken
          · exact ⟨k', hk', .inr ⟨x, List.mem_cons_self, hfirst a ha', hx⟩⟩
          · exact ⟨k', hk', .inl htaken⟩
        · exact ⟨k', hk', .inr ⟨b, List.mem_cons_of_mem x hb, hba, hbk⟩⟩

end Merge
