/-
# A snapshot among its updates

A row is kept by updates: it is put there, changed where it is there, or dropped. Who
takes a snapshot of it in the middle of the updates, and reads on from an earlier one,
reads some of them twice.

* `replay_twice` — updates that are read twice do what they did once.
* `replay_behind` — so they do if the snapshot was one update ahead of them.
-/

import Mathlib.Init

namespace Async

/-- What is done to a row that may be there. -/
inductive Update (υ : Type) where
  | set (v : υ)
  | put (v : υ)
  | drop
  deriving DecidableEq, Repr

def Update.apply {υ : Type} : Update υ → Option υ → Option υ
  | set v, row => row.map fun _ => v
  | put v, _ => some v
  | drop, _ => none

variable {υ : Type}

def replay (updates : List (Update υ)) (row : Option υ) : Option υ :=
  updates.foldl (fun row u => u.apply row) row

/-- What updates come to, all together. -/
inductive Effect (f : Option υ → Option υ) : Prop where
  | none (h : ∀ row, f row = row)
  | set (v : υ) (h : ∀ row, f row = row.map fun _ => v)
  | const (result : Option υ) (h : ∀ row, f row = result)

theorem Update.effect (u : Update υ) : Effect u.apply := by
  cases u with
  | set v => exact .set v fun _ => rfl
  | put v => exact .const (some v) fun _ => rfl
  | drop => exact .const .none fun _ => rfl

theorem Effect.comp {f g : Option υ → Option υ} (hf : Effect f) (hg : Effect g) :
    Effect fun row => g (f row) := by
  cases hg with
  | none hg =>
      cases hf with
      | none hf => exact .none fun row => (hg _).trans (hf row)
      | set v hf => exact .set v fun row => (hg _).trans (hf row)
      | const x hf => exact .const x fun row => (hg _).trans (hf row)
  | const y hg => exact .const y fun row => hg _
  | set w hg =>
      cases hf with
      | none hf => exact .set w fun row => by rw [hg, hf]
      | set v hf => exact .set w fun row => by rw [hg, hf, Option.map_map]; rfl
      | const x hf => exact .const (x.map fun _ => w) fun row => by rw [hg, hf]

theorem effect_replay (updates : List (Update υ)) : Effect (replay updates) := by
  induction updates with
  | nil => exact .none fun _ => rfl
  | cons u us ih => exact u.effect.comp ih

/-- **Updates that are read twice** do what they did once. -/
theorem replay_twice (updates : List (Update υ)) (row : Option υ) :
    replay updates (replay updates row) = replay updates row := by
  cases effect_replay updates with
  | none h => exact h _
  | set v h => rw [h, h, Option.map_map]; rfl
  | const x h => rw [h, h]

/-- **A snapshot that was one update ahead**: the updates before that one change nothing
of what it says in the end. -/
theorem replay_behind (updates : List (Update υ)) (u : Update υ) (row : Option υ) :
    u.apply (replay updates (u.apply (replay updates row))) = u.apply (replay updates row) := by
  cases effect_replay updates with
  | const x h => rw [h, h]
  | none h =>
      rw [h, h]
      exact replay_twice [u] row
  | set v h =>
      rw [h, h]
      cases u with
      | put w | drop => rfl
      | set w => cases row <;> rfl

end Async
