/-
# Stopping everything

`stop_all_with` observes the services that are pending, asks each of them to stop, sleeps
and observes again. It returns when nothing is pending, or with what is pending when it finds
that the timeout has passed. Other tasks change the set between two observations.

* `stopAllWith` — the loop, with whom it has asked.
* `Ends` — the observation at which the loop returns.
* `stragglers_asked_iff` — everyone it gives up on was asked exactly when the last observation
  shows no new service.
* `stopAllWith_returns` — it returns if the clock moves on while it sleeps.
-/

import OpenVHost.Tray.Model

namespace OpenVHost.Tray

/-- What a call comes to. -/
structure StopOutcome (α : Type) where
  stragglers : List α
  /-- The calls of `stop`. -/
  asked : List α
  /-- The number of the last observation. -/
  last : Nat
  deriving DecidableEq, Repr

section Loop

variable {α : Type} (pending : Nat → List α) (elapsed : Nat → Nat) (timeout : Nat)

/-- The loop from observation `k` on. At observation `k` the set is `pending k`, and the
clock that is then read says `elapsed k`. -/
def stopLoop : Nat → Nat → List α → Option (StopOutcome α)
  | 0, _, _ => none
  | fuel + 1, k, asked =>
      match pending k with
      | [] => some ⟨[], asked, k⟩
      | still@(_ :: _) =>
          if timeout ≤ elapsed k then some ⟨still, asked, k⟩
          else stopLoop fuel (k + 1) (asked ++ still)

/-- `stop_all_with`, for so many observations. -/
def stopAllWith (fuel : Nat) : Option (StopOutcome α) := stopLoop pending elapsed timeout fuel 0 []

/-- The loop is not over at an observation. -/
def GoesOn (k : Nat) : Prop := pending k ≠ [] ∧ elapsed k < timeout

/-- The loop returns at observation `n`. -/
structure Ends (n : Nat) : Prop where
  goes : ∀ k < n, GoesOn pending elapsed timeout k
  ends : ¬ GoesOn pending elapsed timeout n

variable {pending : Nat → List α} {elapsed : Nat → Nat} {timeout : Nat} {k n fuel : Nat}
  {asked : List α} {r : StopOutcome α}

theorem stopLoop_goes (h : GoesOn pending elapsed timeout k) :
    stopLoop pending elapsed timeout (fuel + 1) k asked =
      stopLoop pending elapsed timeout fuel (k + 1) (asked ++ pending k) := by
  obtain ⟨hpending, htime⟩ := h
  cases hp : pending k with
  | nil => exact absurd hp hpending
  | cons id rest => simp [stopLoop, hp, Nat.not_le.mpr htime]

theorem stopLoop_ends (h : ¬ GoesOn pending elapsed timeout k) :
    stopLoop pending elapsed timeout (fuel + 1) k asked = some ⟨pending k, asked, k⟩ := by
  cases hp : pending k with
  | nil => simp [stopLoop, hp]
  | cons id rest =>
      have htime : timeout ≤ elapsed k := by
        by_contra hlt
        exact h ⟨by simp [hp], Nat.not_le.mp hlt⟩
      simp [stopLoop, hp, htime]

/-- Everyone observed before the last observation is asked, the last one is returned. -/
theorem stopLoop_of_goes (hgoes : ∀ j, k ≤ j → j < k + n → GoesOn pending elapsed timeout j)
    (hends : ¬ GoesOn pending elapsed timeout (k + n)) :
    stopLoop pending elapsed timeout (n + 1) k asked =
      some ⟨pending (k + n), asked ++ (List.range' k n).flatMap pending, k + n⟩ := by
  induction n generalizing k asked with
  | zero => simpa using stopLoop_ends hends
  | succ n ih =>
      have hsucc : k + (n + 1) = k + 1 + n := by omega
      have hk : GoesOn pending elapsed timeout k := hgoes k le_rfl (by omega)
      rw [hsucc] at hends
      rw [stopLoop_goes hk, ih (fun j hj hjn => hgoes j (by omega) (by omega)) hends, hsucc]
      simp [List.range'_succ]

/-- What a loop that returns has gone through. -/
theorem goes_of_stopLoop (h : stopLoop pending elapsed timeout fuel k asked = some r) :
    ∃ n, (∀ j, k ≤ j → j < k + n → GoesOn pending elapsed timeout j) ∧
      ¬ GoesOn pending elapsed timeout (k + n) := by
  induction fuel generalizing k asked with
  | zero => cases h
  | succ fuel ih =>
      by_cases hk : GoesOn pending elapsed timeout k
      · rw [stopLoop_goes hk] at h
        obtain ⟨n, hgoes, hends⟩ := ih h
        have hsucc : k + (n + 1) = k + 1 + n := by omega
        refine ⟨n + 1, fun j hj hjn => ?_, by rwa [hsucc]⟩
        rcases Nat.eq_or_lt_of_le hj with rfl | hlt
        · exact hk
        · exact hgoes j hlt (by omega)
      · exact ⟨0, fun j hj hjn => absurd hjn (by omega), hk⟩

theorem stopLoop_mono {more : Nat} (h : stopLoop pending elapsed timeout fuel k asked = some r) :
    stopLoop pending elapsed timeout (fuel + more) k asked = some r := by
  induction fuel generalizing k asked with
  | zero => cases h
  | succ fuel ih =>
      rw [Nat.add_right_comm]
      by_cases hk : GoesOn pending elapsed timeout k
      · rw [stopLoop_goes hk] at h ⊢
        exact ih h
      · rw [stopLoop_ends hk] at h ⊢
        exact h

/-- **What the loop comes to.** -/
theorem stopAllWith_of_ends (h : Ends pending elapsed timeout n) :
    stopAllWith pending elapsed timeout (n + 1) =
      some ⟨pending n, (List.range n).flatMap pending, n⟩ := by
  have hrun : stopLoop pending elapsed timeout (n + 1) 0 ([] : List α) = _ :=
    stopLoop_of_goes (fun j _ hj => h.goes j (by omega)) (by rw [Nat.zero_add]; exact h.ends)
  rw [Nat.zero_add, List.nil_append, ← List.range_eq_range'] at hrun
  exact hrun

theorem ends_of_stopAllWith (h : stopAllWith pending elapsed timeout fuel = some r) :
    ∃ n, Ends pending elapsed timeout n ∧ r = ⟨pending n, (List.range n).flatMap pending, n⟩ := by
  obtain ⟨n, hgoes, hends⟩ := goes_of_stopLoop h
  rw [Nat.zero_add] at hends
  have hn : Ends pending elapsed timeout n :=
    ⟨fun j hj => hgoes j (Nat.zero_le j) (by omega), hends⟩
  have hshort : stopAllWith pending elapsed timeout (n + 1 + fuel) = _ :=
    stopLoop_mono (stopAllWith_of_ends hn)
  have hlong : stopAllWith pending elapsed timeout (fuel + (n + 1)) = some r := stopLoop_mono h
  rw [Nat.add_comm, hlong] at hshort
  exact ⟨n, hn, Option.some.inj hshort⟩

theorem Ends.unique {m : Nat} (hm : Ends pending elapsed timeout m)
    (hn : Ends pending elapsed timeout n) : m = n := by
  rcases Nat.lt_trichotomy m n with hlt | heq | hgt
  · exact absurd (hn.goes m hlt) hm.ends
  · exact heq
  · exact absurd (hm.goes n hgt) hn.ends

theorem exists_ends (h : ∃ k, ¬ GoesOn pending elapsed timeout k) :
    ∃ n, Ends pending elapsed timeout n := by
  classical
  refine ⟨Nat.find h, fun k hk => ?_, Nat.find_spec h⟩
  exact not_not.mp (Nat.find_min h hk)

/-! ### Termination -/

/-- A sleep lasts at least `poll`. -/
theorem le_elapsed {poll : Nat} (hclock : ∀ k, elapsed k + poll ≤ elapsed (k + 1)) (k : Nat) :
    k * poll ≤ elapsed k := by
  induction k with
  | zero => omega
  | succ k ih =>
      calc (k + 1) * poll = k * poll + poll := Nat.succ_mul k poll
        _ ≤ elapsed k + poll := Nat.add_le_add_right ih poll
        _ ≤ elapsed (k + 1) := hclock k

/-- **The loop returns** when the clock moves on while it sleeps, whatever it observes. -/
theorem stopAllWith_returns {poll : Nat} (hpoll : 0 < poll)
    (hclock : ∀ k, elapsed k + poll ≤ elapsed (k + 1)) :
    ∃ n ≤ timeout / poll + 1, Ends pending elapsed timeout n := by
  have hlate : timeout ≤ elapsed (timeout / poll + 1) := by
    have hmul : timeout < (timeout / poll + 1) * poll := by
      rw [Nat.mul_comm]
      exact Nat.lt_mul_div_succ timeout hpoll
    exact (Nat.le_of_lt hmul).trans (le_elapsed hclock _)
  have hover : ¬ GoesOn pending elapsed timeout (timeout / poll + 1) :=
    fun h => absurd h.2 (Nat.not_lt.mpr hlate)
  obtain ⟨n, hn⟩ := exists_ends ⟨_, hover⟩
  refine ⟨n, ?_, hn⟩
  by_contra hlt
  exact hover (hn.goes _ (Nat.not_le.mp hlt))

/-! ### Whom it asks -/

theorem asked_iff {id : α} : id ∈ (List.range n).flatMap pending ↔ ∃ k < n, id ∈ pending k := by
  simp [List.mem_flatMap]

/-- **Everyone that `stop_all_with` gives up on was asked to stop**, exactly when it comes to
an observation at which it returns and this one shows no service that no earlier one has
shown. -/
theorem stragglers_asked_iff {α : Type} (pending : Nat → List α) (elapsed : Nat → Nat)
    (timeout : Nat) :
    ((∃ fuel r, stopAllWith pending elapsed timeout fuel = some r) ∧
      ∀ fuel r, stopAllWith pending elapsed timeout fuel = some r →
        (∀ id ∈ r.stragglers, id ∈ r.asked) ∧ (r.stragglers = [] ↔ pending r.last = [])) ↔
    ∃ n, Ends pending elapsed timeout n ∧ ∀ id ∈ pending n, ∃ k < n, id ∈ pending k := by
  constructor
  · rintro ⟨⟨fuel, r, hrun⟩, hasked⟩
    obtain ⟨n, hn, rfl⟩ := ends_of_stopAllWith hrun
    refine ⟨n, hn, fun id hid => ?_⟩
    exact asked_iff.mp ((hasked fuel _ hrun).1 id hid)
  · rintro ⟨n, hn, hseen⟩
    refine ⟨⟨n + 1, _, stopAllWith_of_ends hn⟩, fun fuel r hrun => ?_⟩
    obtain ⟨m, hm, rfl⟩ := ends_of_stopAllWith hrun
    obtain rfl := hm.unique hn
    exact ⟨fun id hid => asked_iff.mpr (hseen id hid), Iff.rfl⟩

end Loop

/-! ### Over the supervisor's snapshots -/

open Proc (ServiceId ServiceStatus)

def pendingServiceIds (snapshot : List ServiceStatus) : List ServiceId :=
  (snapshot.filter fun s => isPending s.state).map ServiceStatus.id

/-- 18 s, in milliseconds. -/
def stopAllTimeout : Nat := 18 * 1000

def stopPollInterval : Nat := 100

/-- `stop_all`, over the snapshots that it takes. -/
def stopAll (snapshots : Nat → List ServiceStatus) (elapsed : Nat → Nat) (fuel : Nat) :
    Option (StopOutcome ServiceId) :=
  stopAllWith (fun k => pendingServiceIds (snapshots k)) elapsed stopAllTimeout fuel

/-- nginx does not stop, and "Start all" reaches PHP as the time runs out. -/
def lateStart (k : Nat) : List ServiceStatus :=
  [⟨"nginx", "nginx", none, some 4242, .running⟩,
    ⟨"php-fpm", "PHP-FPM", none, none, if k < 180 then .stopped else .starting⟩]

theorem pendingServiceIds_lateStart (k : Nat) :
    pendingServiceIds (lateStart k) = if k < 180 then ["nginx"] else ["nginx", "php-fpm"] := by
  by_cases hk : k < 180 <;> simp [pendingServiceIds, lateStart, isPending, hk]

/-- PHP is given up on, and nobody has asked it to stop. -/
theorem late_straggler_not_asked :
    ∃ r, stopAll lateStart (fun k => k * stopPollInterval) 181 = some r ∧
      r.stragglers = ["nginx", "php-fpm"] ∧ "php-fpm" ∉ r.asked := by
  have hends : Ends (fun k => pendingServiceIds (lateStart k)) (fun k => k * stopPollInterval)
      stopAllTimeout 180 := by
    constructor
    · intro k hk
      constructor
      · simp [pendingServiceIds_lateStart, hk]
      · show k * 100 < 18 * 1000
        omega
    · intro h
      exact absurd h.2 (by decide)
  refine ⟨_, stopAllWith_of_ends hends, rfl, fun hasked => ?_⟩
  obtain ⟨k, hk, hphp⟩ := asked_iff.mp hasked
  simp [pendingServiceIds_lateStart, hk] at hphp

end OpenVHost.Tray
