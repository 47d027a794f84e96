/-
# A value that is kept twice

A value changes first, and its copy is brought up to date by a later step, which whoever
changed the value owes. `Covered` is what survives in between: either the copy agrees, or
the agreeing copy is still owed.

* `Covered.changed`, `Covered.paid`, `Covered.forgiven` — what a change, a copy and giving up
  leave covered.
* `Covered.settled` — where nothing is owed, the copy agrees.
-/

import Mathlib.Init

namespace Lts

variable {κ υ : Type} {value copy : Option υ} {owed owed' : κ → Option υ} {k : κ} {v : υ}

/-- The copy agrees with the value, if there is one, or is owed by someone. -/
def Covered (value copy : Option υ) (owed : κ → Option υ) : Prop :=
  ∀ v, value = some v → copy = some v ∨ ∃ k, owed k = some v

namespace Covered

/-- Whoever changes the value owes its copy. -/
theorem changed (hk : owed k = some v) : Covered (some v) copy owed := by
  intro w hw
  cases hw
  exact .inr ⟨k, hk⟩

/-- Where `k` alone comes to owe something else, and not the value, it stays covered. -/
theorem forgiven (h : Covered value copy owed) (hsame : ∀ j, j ≠ k → owed' j = owed j)
    (hk : ∀ v, owed k = some v → value = some v → owed' k = some v) :
    Covered value copy owed' := by
  intro v hv
  rcases h v hv with hcopy | ⟨j, hj⟩
  · exact .inl hcopy
  · right
    by_cases hjk : j = k
    · subst hjk
      exact ⟨j, hk v hj hv⟩
    · exact ⟨j, (hsame j hjk).trans hj⟩

/-- **What is owed is copied**, which is fine unless a value that is up to date is replaced. -/
theorem paid (h : Covered value copy owed) (hsame : ∀ j, j ≠ k → owed' j = owed j)
    (hk : owed k = some v) (hstale : copy = value → value = some v) :
    Covered value (some v) owed' := by
  intro w hw
  by_cases hvw : w = v
  · exact .inl (by rw [hvw])
  · right
    rcases h w hw with hcopy | ⟨j, hj⟩
    · have hv := hstale (hcopy.trans hw.symm)
      rw [hw] at hv
      exact absurd (Option.some.inj hv) hvw
    · refine ⟨j, (hsame j ?_).trans hj⟩
      rintro rfl
      rw [hk] at hj
      exact hvw (Option.some.inj hj).symm

theorem settled (h : Covered value copy owed) (hnone : ∀ k, owed k = none) (hv : value = some v) :
    copy = some v := by
  rcases h v hv with hcopy | ⟨k, hk⟩
  · exact hcopy
  · rw [hnone k] at hk
    cases hk

end Covered

end Lts
