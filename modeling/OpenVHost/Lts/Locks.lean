/-
# Advisory locks

Who holds each of a family of locks. A lock is taken by whoever finds it free, and goes when
its holder lets go of it or ends; nobody else can move it.

* `Locks.take`, `Locks.give`, `Locks.giveAll` — taking a lock without waiting for it, letting go
  of one, and the end of a holder.
* `Locks.others_take`, `Locks.others_give`, `Locks.others_giveAll` — what anybody else holds is the
  same.
-/

import Mathlib.Logic.Function.Basic

namespace Lts

variable {κ π : Type}

/-- Who holds each lock. -/
abbrev Locks (κ π : Type) : Type := κ → Option π

namespace Locks

def free : Locks κ π := fun _ => none

/-- Take a lock, unless it is held. -/
def take [DecidableEq κ] (l : Locks κ π) (k : κ) (p : π) : Option (Locks κ π) :=
  if l k = none then some (Function.update l k (some p)) else none

def give [DecidableEq κ] [DecidableEq π] (l : Locks κ π) (k : κ) (p : π) : Locks κ π :=
  if l k = some p then Function.update l k none else l

/-- The end of a holder. -/
def giveAll [DecidableEq π] (l : Locks κ π) (p : π) : Locks κ π :=
  fun k => if l k = some p then none else l k

variable {l l' : Locks κ π} {j k : κ} {p q : π}

theorem take_eq_some [DecidableEq κ] :
    l.take k p = some l' ↔ l k = none ∧ l' = Function.update l k (some p) := by
  unfold take
  split
  next h =>
    constructor
    · exact fun heq => ⟨h, (Option.some.inj heq).symm⟩
    · rintro ⟨-, rfl⟩
      rfl
  next h =>
    constructor
    · intro heq
      cases heq
    · exact fun heq => absurd heq.1 h

theorem held_of_take [DecidableEq κ] (h : l.take k p = some l') : l' k = some p := by
  obtain ⟨-, rfl⟩ := take_eq_some.mp h
  exact Function.update_self ..

theorem other_take [DecidableEq κ] (h : l.take k p = some l') (hj : j ≠ k) : l' j = l j := by
  obtain ⟨-, rfl⟩ := take_eq_some.mp h
  exact Function.update_of_ne hj ..

/-- What anybody else holds is the same. -/
theorem others_take [DecidableEq κ] (h : l.take k p = some l') (hq : q ≠ p) :
    l' j = some q ↔ l j = some q := by
  obtain ⟨hfree, -⟩ := take_eq_some.mp h
  by_cases hj : j = k
  · subst hj
    rw [held_of_take h, hfree]
    exact iff_of_false (fun heq => hq (Option.some.inj heq).symm) nofun
  · rw [other_take h hj]

theorem others_give [DecidableEq κ] [DecidableEq π] (hq : q ≠ p) :
    l.give k p j = some q ↔ l j = some q := by
  unfold give
  split
  next h =>
    by_cases hj : j = k
    · subst hj
      rw [Function.update_self, h]
      exact iff_of_false nofun fun heq => hq (Option.some.inj heq).symm
    · rw [Function.update_of_ne hj]
  next => exact Iff.rfl

theorem others_giveAll [DecidableEq π] (hq : q ≠ p) : l.giveAll p j = some q ↔ l j = some q := by
  unfold giveAll
  split
  next h =>
    rw [h]
    exact iff_of_false nofun fun heq => hq (Option.some.inj heq).symm
  next => exact Iff.rfl

theorem giveAll_ne [DecidableEq π] : l.giveAll p j ≠ some p := by
  unfold giveAll
  split
  next => nofun
  next h => exact h

end Locks

end Lts
