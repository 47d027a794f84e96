/-
# The words of a text

* `words`, `trim` — a text cut at its blanks, and a text without the blanks at its ends, for any
  notion of a blank.
* `words_intercalate` — words that are joined with a blank are found again.
-/

import Mathlib.Data.List.DropRight

namespace Text

variable {α : Type} (blank : α → Bool)

/-- The longest pieces without a blank. -/
def words (s : List α) : List (List α) := (s.splitOnP blank).filter fun w => !w.isEmpty

def trim (s : List α) : List α := (s.dropWhile blank).rdropWhile blank

variable {blank} {sep : α} {w : List α} {ws : List (List α)}

/-- Neither empty nor with a blank in it. -/
def Word (blank : α → Bool) (w : List α) : Prop := w ≠ [] ∧ ∀ c ∈ w, blank c = false

@[simp] theorem words_nil : words blank [] = [] := rfl

theorem words_singleton (hw : Word blank w) : words blank w = [w] := by
  rw [words, List.splitOnP_eq_singleton hw.2]
  simp [hw.1]

theorem words_cons (hsep : blank sep = true) (hw : Word blank w) (s : List α) :
    words blank (w ++ sep :: s) = w :: words blank s := by
  rw [words, List.splitOnP_append_cons w s hsep, List.splitOnP_eq_singleton hw.2, List.filter_append]
  simp [words, hw.1]

/-- **Words that are joined with a blank are found again.** -/
theorem words_intercalate (hsep : blank sep = true) : ∀ {ws : List (List α)}, (∀ w ∈ ws, Word blank w) →
    words blank ([sep].intercalate ws) = ws
  | [], _ => rfl
  | [w], h => by
      rw [List.intercalate_singleton]
      exact words_singleton (h w List.mem_cons_self)
  | w :: w' :: ws, h => by
      have hrest : ∀ v ∈ w' :: ws, Word blank v := fun v hv => h v (List.mem_cons_of_mem w hv)
      have hjoin : [sep].intercalate (w :: w' :: ws) = w ++ sep :: [sep].intercalate (w' :: ws) := by
        simp [List.intercalate]
      rw [hjoin, words_cons hsep (h w List.mem_cons_self), words_intercalate hsep hrest]

end Text
