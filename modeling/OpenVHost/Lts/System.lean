/-
# Labelled transition systems

A system here has an executable step: an action that is not enabled has no
successor. Runs may be restricted to steps that meet a condition on the state
before them, so that one notion covers all runs and the runs of a conditional
result.

* `System.Reaches.invariant` — an invariant of the initial states and of every
  allowed step holds in every state reached.
* `System.Leads.invariant` — the same from any state on.
* `System.reaches_of_exec` — a list of actions that can be executed is a run.
-/

import Mathlib.Logic.Relation

namespace Lts

/-- Initial states, and the successor of a state under an action that is enabled. -/
structure System (σ α : Type) where
  init : σ → Prop
  next : σ → α → Option σ

namespace System

variable {σ α : Type} (S : System σ α)

/-- The states that runs reach all of whose steps are allowed. -/
inductive Reaches (allowed : σ → α → Prop) : σ → Prop where
  | init {s : σ} (h : S.init s) : Reaches allowed s
  | step {s s' : σ} {a : α} (h : Reaches allowed s) (ha : allowed s a)
      (hn : S.next s a = some s') : Reaches allowed s'

/-- One allowed step. -/
def Steps (allowed : σ → α → Prop) (s s' : σ) : Prop := ∃ a, allowed s a ∧ S.next s a = some s'

/-- The states that can come after a state. -/
def Leads (allowed : σ → α → Prop) : σ → σ → Prop := Relation.ReflTransGen (S.Steps allowed)

/-- Every step is allowed. -/
def Any : σ → α → Prop := fun _ _ => True

/-- The reachable states, whatever the steps. -/
abbrev Reachable : σ → Prop := S.Reaches Any

variable {S} {allowed allowed' : σ → α → Prop} {s s' s'' : σ}

theorem Reaches.mono (h : S.Reaches allowed s) (himp : ∀ s a, allowed s a → allowed' s a) :
    S.Reaches allowed' s := by
  induction h with
  | init h => exact .init h
  | step _ ha hn ih => exact .step ih (himp _ _ ha) hn

/-- **The invariant rule**: what holds at the start and across every allowed step
holds in every state reached. -/
theorem Reaches.invariant {I : σ → Prop} (hinit : ∀ s, S.init s → I s)
    (hstep : ∀ s a s', I s → allowed s a → S.next s a = some s' → I s') :
    S.Reaches allowed s → I s := by
  intro h
  induction h with
  | init h => exact hinit _ h
  | step _ ha hn ih => exact hstep _ _ _ ih ha hn

/-- The invariant rule beside an invariant that is known already. -/
theorem Reaches.invariant_beside {I J : σ → Prop} (hJ : ∀ s, S.Reaches allowed s → J s)
    (hinit : ∀ s, S.init s → I s)
    (hstep : ∀ s a s', J s → I s → allowed s a → S.next s a = some s' → I s') :
    S.Reaches allowed s → I s := by
  intro h
  induction h with
  | init h => exact hinit _ h
  | step hs ha hn ih => exact hstep _ _ _ (hJ _ hs) ih ha hn

theorem Leads.reaches (hs : S.Reaches allowed s) (h : S.Leads allowed s s') :
    S.Reaches allowed s' := by
  induction h with
  | refl => exact hs
  | tail _ h ih =>
      obtain ⟨a, ha, hn⟩ := h
      exact .step ih ha hn

theorem Leads.mono (h : S.Leads allowed s s') (himp : ∀ s a, allowed s a → allowed' s a) :
    S.Leads allowed' s s' := by
  refine Relation.ReflTransGen.mono (fun s s' hstep => ?_) s s' h
  obtain ⟨a, ha, hn⟩ := hstep
  exact ⟨a, himp s a ha, hn⟩

/-- **The invariant rule from any state on.** -/
theorem Leads.invariant {I : σ → Prop} (hs : I s)
    (hstep : ∀ s a s', I s → allowed s a → S.next s a = some s' → I s')
    (h : S.Leads allowed s s') : I s' := by
  induction h with
  | refl => exact hs
  | tail _ h ih =>
      obtain ⟨a, ha, hn⟩ := h
      exact hstep _ _ _ ih ha hn

variable (S)

/-- Take the actions of a list, one after the other. -/
def exec (s : σ) : List α → Option σ
  | [] => some s
  | a :: rest => (S.next s a).bind fun s' => exec s' rest

variable {S}

theorem exec_cons {a : α} {rest : List α} (h : S.next s a = some s') :
    S.exec s (a :: rest) = S.exec s' rest := by
  rw [exec, h, Option.bind_some]

theorem exec_append (before after : List α) (s : σ) :
    S.exec s (before ++ after) = (S.exec s before).bind fun s' => S.exec s' after := by
  induction before generalizing s with
  | nil => rfl
  | cons a rest ih =>
      rw [List.cons_append, exec, exec, Option.bind_assoc]
      exact Option.bind_congr fun t _ => ih t

theorem leads_of_exec : ∀ {actions : List α} {s : σ}, S.exec s actions = some s' →
    S.Leads Any s s'
  | [], s, h => by
      cases h
      exact .refl
  | a :: rest, s, h => by
      rw [exec] at h
      obtain ⟨t, hn, ht⟩ := Option.bind_eq_some_iff.mp h
      exact .head ⟨a, trivial, hn⟩ (leads_of_exec ht)

/-- **A list of actions that can be executed is a run.** -/
theorem reaches_of_exec {actions : List α} (hs : S.Reachable s)
    (h : S.exec s actions = some s') : S.Reachable s' :=
  (leads_of_exec h).reaches hs

/-- Take the actions of a list while each of them passes a check. -/
def execWhile (ok : σ → α → Bool) (s : σ) : List α → Option σ
  | [] => some s
  | a :: rest => if ok s a then (S.next s a).bind fun s' => execWhile ok s' rest else none

theorem leads_of_execWhile {ok : σ → α → Bool} (hok : ∀ s a, ok s a = true → allowed s a) :
    ∀ {actions : List α} {s : σ}, S.execWhile ok s actions = some s' → S.Leads allowed s s'
  | [], s, h => by
      cases h
      exact .refl
  | a :: rest, s, h => by
      rw [execWhile, Option.ite_none_right_eq_some] at h
      obtain ⟨hcheck, h⟩ := h
      obtain ⟨t, hn, ht⟩ := Option.bind_eq_some_iff.mp h
      exact .head ⟨a, hok s a hcheck, hn⟩ (leads_of_execWhile hok ht)

/-- The same where the check tells what it has to in states with an invariant. -/
theorem leads_of_execWhile_beside {ok : σ → α → Bool} {I : σ → Prop}
    (hstep : ∀ s a s', I s → S.next s a = some s' → I s')
    (hok : ∀ s a, I s → ok s a = true → allowed s a) :
    ∀ {actions : List α} {s : σ}, I s → S.execWhile ok s actions = some s' → S.Leads allowed s s'
  | [], s, _, h => by
      cases h
      exact .refl
  | a :: rest, s, hs, h => by
      rw [execWhile, Option.ite_none_right_eq_some] at h
      obtain ⟨hcheck, h⟩ := h
      obtain ⟨t, hn, ht⟩ := Option.bind_eq_some_iff.mp h
      exact .head ⟨a, hok s a hs hcheck, hn⟩
        (leads_of_execWhile_beside hstep hok (hstep s a t hs hn) ht)

/-- A list of allowed actions that ends in a state with a property. -/
theorem exists_of_execWhile {I : σ → Prop} (ok : σ → α → Bool) (actions : List α) (p : σ → Bool)
    (hstep : ∀ s a s', I s → S.next s a = some s' → I s')
    (hok : ∀ s a, I s → ok s a = true → allowed s a) (hs : S.Reaches allowed s) (hI : I s)
    (h : (S.execWhile ok s actions).any p = true) :
    ∃ s', S.Reaches allowed s' ∧ I s' ∧ p s' = true := by
  cases he : S.execWhile ok s actions with
  | none => simp [he] at h
  | some s' =>
      have hleads := leads_of_execWhile_beside hstep hok hI he
      refine ⟨s', hleads.reaches hs, ?_, by simpa [he] using h⟩
      exact Leads.invariant hI (fun s a s' hs _ hn => hstep s a s' hs hn) hleads

/-- A list of actions that ends in a state with a property. -/
theorem exists_of_exec (actions : List α) (p : σ → Bool) (hs : S.Reachable s)
    (h : (S.exec s actions).any p = true) : ∃ s', S.Reachable s' ∧ p s' = true := by
  cases he : S.exec s actions with
  | none => simp [he] at h
  | some s' => exact ⟨s', reaches_of_exec hs he, by simpa [he] using h⟩

end System

end Lts
