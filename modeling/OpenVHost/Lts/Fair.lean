/-
# Fair runs

What a run comes to, and not only what it keeps to, is a matter of runs that go on for ever and
of their fairness: a class of actions that is ready from some moment on is not passed over for
ever. A goal is reached by a rank that no step raises, and by one class at a time that lowers it
and stays ready until it does.

* `Path` — a run that goes on for ever; `Path.Keeps` — all its steps are allowed.
* `Path.Fair` — the run is fair to a class of actions.
* `Path.eventually` — the goal is reached, by a rank and a helpful class.
* `Path.exists_of_execWhile` — a list of actions before a path is a path.
-/

import Mathlib.Order.Nat
import Mathlib.Tactic.ByContra
import OpenVHost.Lts.System

namespace Lts

namespace System

variable {σ α : Type}

/-- A run that goes on for ever. -/
structure Path (S : System σ α) where
  state : Nat → σ
  act : Nat → α
  step : ∀ n, S.next (state n) (act n) = some (state (n + 1))

namespace Path

variable {S : System σ α} {allowed : σ → α → Prop} (ρ : Path S)

/-- Every step is allowed. -/
def Keeps (allowed : σ → α → Prop) : Prop := ∀ n, allowed (ρ.state n) (ρ.act n)

/-- Weak fairness: again and again an action of the class is taken, or the class is not ready. -/
def Fair (taken : α → Prop) (ready : σ → Prop) : Prop :=
  ∀ n, ∃ m, n ≤ m ∧ (taken (ρ.act m) ∨ ¬ ready (ρ.state m))

variable {ρ}

theorem Keeps.leads (hk : ρ.Keeps allowed) {m n : Nat} (h : m ≤ n) :
    S.Leads allowed (ρ.state m) (ρ.state n) := by
  induction n, h using Nat.le_induction with
  | base => exact .refl
  | succ n _ ih => exact .tail ih ⟨ρ.act n, hk n, ρ.step n⟩

theorem leads_any (ρ : Path S) {m n : Nat} (h : m ≤ n) : S.Leads Any (ρ.state m) (ρ.state n) :=
  Keeps.leads (fun _ => trivial) h

theorem reachable (ρ : Path S) (h : S.Reachable (ρ.state 0)) (n : Nat) :
    S.Reachable (ρ.state n) :=
  (ρ.leads_any (Nat.zero_le n)).reaches h

/-- The invariant rule from a moment of the run on. -/
theorem invariant {I : σ → Prop} {m : Nat} (hm : I (ρ.state m))
    (hstep : ∀ n, m ≤ n → I (ρ.state n) → I (ρ.state (n + 1))) {n : Nat} (h : m ≤ n) :
    I (ρ.state n) := by
  induction n, h using Nat.le_induction with
  | base => exact hm
  | succ n hle ih => exact hstep n hle ih

/-- **The rule for a goal**: while it is not reached, the class that `helpful` names is ready. A
step lowers the rank, or it is none of that class and leaves the rank and the class as they are. -/
theorem eventually {ι : Type} {taken : ι → α → Prop} {ready : ι → σ → Prop} (goal : σ → Prop)
    (helpful : σ → ι) (rank : σ → Nat) (hfair : ∀ i, ρ.Fair (taken i) (ready i)) (n : Nat)
    (hready : ∀ m, n ≤ m → ¬ goal (ρ.state m) → ready (helpful (ρ.state m)) (ρ.state m))
    (hstep : ∀ m, n ≤ m → ¬ goal (ρ.state m) →
      rank (ρ.state (m + 1)) < rank (ρ.state m) ∨
        rank (ρ.state (m + 1)) = rank (ρ.state m) ∧
          helpful (ρ.state (m + 1)) = helpful (ρ.state m) ∧
            ¬ taken (helpful (ρ.state m)) (ρ.act m)) :
    ∃ m, n ≤ m ∧ goal (ρ.state m) := by
  by_contra hnever
  have hgoal : ∀ m, n ≤ m → ¬ goal (ρ.state m) := fun m hm hg => hnever ⟨m, hm, hg⟩
  -- the rank falls after every moment
  have hfalls : ∀ p, n ≤ p → ∃ q, p ≤ q ∧ rank (ρ.state q) < rank (ρ.state p) := by
    intro p hp
    by_contra hstays
    have hsame : ∀ q, p ≤ q →
        rank (ρ.state q) = rank (ρ.state p) ∧ helpful (ρ.state q) = helpful (ρ.state p) := by
      intro q hq
      induction q, hq using Nat.le_induction with
      | base => exact ⟨rfl, rfl⟩
      | succ q hle ih =>
          rcases hstep q (hp.trans hle) (hgoal q (hp.trans hle)) with hlt | ⟨hrank, hhelp, -⟩
          · exact absurd ⟨q + 1, Nat.le_succ_of_le hle, ih.1 ▸ hlt⟩ hstays
          · exact ⟨hrank.trans ih.1, hhelp.trans ih.2⟩
    obtain ⟨q, hq, htaken | hunready⟩ := hfair (helpful (ρ.state p)) p
    · rcases hstep q (hp.trans hq) (hgoal q (hp.trans hq)) with hlt | ⟨-, -, hother⟩
      · exact hstays ⟨q + 1, Nat.le_succ_of_le hq, (hsame q hq).1 ▸ hlt⟩
      · exact hother ((hsame q hq).2 ▸ htaken)
    · exact hunready ((hsame q hq).2 ▸ hready q (hp.trans hq) (hgoal q (hp.trans hq)))
  have hnone : ∀ k p, n ≤ p → rank (ρ.state p) = k → False := by
    intro k
    induction k using Nat.strong_induction_on with
    | _ k ih =>
        intro p hp hk
        obtain ⟨q, hq, hlt⟩ := hfalls p hp
        exact ih _ (hk ▸ hlt) q (hp.trans hq) rfl
  exact hnone _ n (Nat.le_refl _) rfl

/-- The rule where one class helps throughout. -/
theorem eventually_of_fair {taken : α → Prop} {ready : σ → Prop} (goal : σ → Prop)
    (rank : σ → Nat) (hfair : ρ.Fair taken ready) (n : Nat)
    (hready : ∀ m, n ≤ m → ¬ goal (ρ.state m) → ready (ρ.state m))
    (hstep : ∀ m, n ≤ m → ¬ goal (ρ.state m) →
      rank (ρ.state (m + 1)) < rank (ρ.state m) ∨
        rank (ρ.state (m + 1)) = rank (ρ.state m) ∧ ¬ taken (ρ.act m)) :
    ∃ m, n ≤ m ∧ goal (ρ.state m) :=
  eventually (ι := Unit) goal (fun _ => ()) rank (fun _ => hfair) n hready fun m hm hg =>
    (hstep m hm hg).imp_right fun h => ⟨h.1, rfl, h.2⟩

/-! ### Paths from lists of actions -/

/-- The path from a moment on. -/
def drop (ρ : Path S) (d : Nat) : Path S where
  state n := ρ.state (n + d)
  act n := ρ.act (n + d)
  step n := by
    rw [Nat.add_right_comm]
    exact ρ.step (n + d)

/-- An action before a path. -/
def cons (s : σ) (a : α) (ρ : Path S) (h : S.next s a = some (ρ.state 0)) : Path S where
  state
    | 0 => s
    | n + 1 => ρ.state n
  act
    | 0 => a
    | n + 1 => ρ.act n
  step
    | 0 => h
    | n + 1 => ρ.step n

/-- A run is fair if it is from some moment on. -/
theorem Fair.of_drop {taken : α → Prop} {ready : σ → Prop} {d : Nat}
    (h : (ρ.drop d).Fair taken ready) : ρ.Fair taken ready := by
  intro n
  obtain ⟨m, hm, hcase⟩ := h n
  exact ⟨m + d, Nat.le_add_right_of_le hm, hcase⟩

/-- **A list of actions before a path**, each of which passes a check. -/
theorem exists_of_execWhile {ok : σ → α → Bool} (hok : ∀ s a, ok s a = true → allowed s a)
    (hρ : ρ.Keeps allowed) : ∀ {actions : List α} {s : σ},
      S.execWhile ok s actions = some (ρ.state 0) →
        ∃ ρ' : Path S, ρ'.state 0 = s ∧ ρ'.Keeps allowed ∧ ρ'.drop actions.length = ρ
  | [], s, h => ⟨ρ, (Option.some.inj h).symm, hρ, rfl⟩
  | a :: rest, s, h => by
      rw [execWhile, Option.ite_none_right_eq_some] at h
      obtain ⟨hcheck, h⟩ := h
      obtain ⟨t, hn, ht⟩ := Option.bind_eq_some_iff.mp h
      obtain ⟨ρ', hfirst, hkeeps, hdrop⟩ := exists_of_execWhile hok hρ ht
      refine ⟨cons s a ρ' (hfirst.symm ▸ hn), rfl, fun n => ?_, hdrop⟩
      cases n with
      | zero => exact hok s a hcheck
      | succ n => exact hkeeps n

end Path

end System

end Lts
