/-
# What "Start all" starts

* `start_all_selection` — a subsequence of the services in which no two share an endpoint,
  none has the endpoint of a service that is up, and nothing is left out without such a
  reason.
-/

import OpenVHost.Merge.FirstCome
import OpenVHost.Tray.Model

namespace OpenVHost.Tray

open Proc (ServiceId ServiceState ServiceStatus)
open Merge (claim Apart)

/-- Starting or running. -/
def Pending (s : ServiceStatus) : Prop := s.state = .starting ∨ s.state = .running

/-- Stopped or failed. -/
def Terminal (s : ServiceStatus) : Prop :=
  s.state = .stopped ∨ ∃ exit stderrTail, s.state = .failed exit stderrTail

theorem isPending_iff {s : ServiceStatus} : isPending s.state = true ↔ Pending s := by
  unfold isPending Pending
  cases s.state <;> simp

theorem isPending_eq_false {s : ServiceStatus} : isPending s.state = false ↔ Terminal s := by
  unfold isPending Terminal
  cases s.state <;> simp

/-- A terminal service, and not the demo. -/
def startable (s : ServiceStatus) : Bool := s.id != demoTickerId && !isPending s.state

theorem startable_iff {s : ServiceStatus} :
    startable s = true ↔ Terminal s ∧ s.id ≠ demoTickerId := by
  simp only [startable, Bool.and_eq_true, bne_iff_ne, ne_eq, Bool.not_eq_true', isPending_eq_false]
  exact And.comm

/-- A service and its place in the list. -/
abbrev Placed := ServiceStatus × Nat

/-- The services that are selected, each with its place in the list. -/
def selected (taken : List String) (services : List Placed) : List Placed :=
  claim (fun p => p.1.endpoint) taken (services.filter fun p => startable p.1)

theorem claimEndpoints_eq (taken : List String) (services : List ServiceStatus) (n : Nat) :
    claimEndpoints taken services = (selected taken (services.zipIdx n)).map fun p => p.1.id := by
  induction services generalizing taken n with
  | nil => rfl
  | cons s rest ih =>
      rw [List.zipIdx_cons, selected, claimEndpoints]
      by_cases hskip : s.id = demoTickerId ∨ isPending s.state = true
      · have hno : ¬ startable s = true := by
          unfold startable
          rcases hskip with h | h <;> simp [h]
        rw [if_pos hskip, List.filter_cons_of_neg (p := fun p : Placed => startable p.1) hno]
        exact ih taken (n + 1)
      · have hyes : startable s = true := by
          obtain ⟨hid, hstate⟩ := not_or.mp hskip
          simp [startable, hid, hstate]
        rw [if_neg hskip, List.filter_cons_of_pos (p := fun p : Placed => startable p.1) hyes]
        cases hendpoint : s.endpoint with
        | none =>
            simp only [claim, hendpoint, List.map_cons]
            rw [ih taken (n + 1)]
            rfl
        | some endpoint =>
            simp only [claim, hendpoint]
            by_cases hmem : endpoint ∈ taken
            · rw [if_pos hmem, if_pos hmem]
              exact ih taken (n + 1)
            · rw [if_neg hmem, if_neg hmem, List.map_cons, ih (endpoint :: taken) (n + 1)]
              rfl

/-- The endpoints of the services that are up. -/
def pendingEndpoints (services : List ServiceStatus) : List String :=
  (services.filter fun s => isPending s.state).filterMap ServiceStatus.endpoint

theorem mem_pendingEndpoints {services : List ServiceStatus} {endpoint : String} :
    endpoint ∈ pendingEndpoints services ↔
      ∃ s ∈ services, Pending s ∧ s.endpoint = some endpoint := by
  simp only [pendingEndpoints, List.mem_filterMap, List.mem_filter, isPending_iff, and_assoc]

/-- **"Start all" makes no conflict and forgets no service.** What it starts is a subsequence
of the services: terminal ones, the demo aside, of which no two share an endpoint and none
has that of a service that is up. A terminal service is left out only if its endpoint is
that of a service that is up or that was selected before it. -/
theorem start_all_selection (services : List ServiceStatus) :
    ∃ chosen : List Placed, chosen.Sublist services.zipIdx ∧
      bulkStartIds services = chosen.map (fun p => p.1.id) ∧
      (∀ p ∈ chosen, Terminal p.1 ∧ p.1.id ≠ demoTickerId) ∧
      chosen.Pairwise (fun p q => ∀ endpoint, p.1.endpoint = some endpoint →
        q.1.endpoint ≠ some endpoint) ∧
      (∀ p ∈ chosen, ∀ s ∈ services, Pending s → ∀ endpoint, p.1.endpoint = some endpoint →
        s.endpoint ≠ some endpoint) ∧
      ∀ p ∈ services.zipIdx, Terminal p.1 → p.1.id ≠ demoTickerId → p ∉ chosen →
        ∃ endpoint, p.1.endpoint = some endpoint ∧
          ((∃ s ∈ services, Pending s ∧ s.endpoint = some endpoint) ∨
            ∃ q ∈ chosen, q.2 < p.2 ∧ q.1.endpoint = some endpoint) := by
  have hsub : (selected (pendingEndpoints services) services.zipIdx).Sublist
      (services.zipIdx.filter fun p => startable p.1) := Merge.claim_sublist
  refine ⟨selected (pendingEndpoints services) services.zipIdx, hsub.trans List.filter_sublist,
    claimEndpoints_eq _ _ 0, ?_, Merge.claim_pairwise, ?_, ?_⟩
  · intro p hp
    exact startable_iff.mp (List.mem_filter.mp (hsub.subset hp)).2
  · intro p hp s hs hpending endpoint hendpoint hsame
    exact Merge.claim_free hp hendpoint (mem_pendingEndpoints.mpr ⟨s, hs, hpending, hsame⟩)
  · intro p hp hterminal hdemo hnot
    have hordered : (services.zipIdx.filter fun p => startable p.1).Pairwise
        fun p q => p.2 < q.2 := by
      have hidx : services.zipIdx.Pairwise fun p q => p.2 < q.2 := by
        rw [← List.pairwise_map (f := Prod.snd), List.zipIdx_map_snd]
        exact List.pairwise_lt_range'
      exact hidx.filter _
    have hmem : p ∈ services.zipIdx.filter fun p => startable p.1 :=
      List.mem_filter.mpr ⟨hp, startable_iff.mpr ⟨hterminal, hdemo⟩⟩
    obtain ⟨endpoint, hendpoint, htaken | ⟨q, hq, hlt, hsame⟩⟩ :=
      Merge.taken_of_not_claimed hordered hmem hnot
    · exact ⟨endpoint, hendpoint, .inl (mem_pendingEndpoints.mp htaken)⟩
    · exact ⟨endpoint, hendpoint, .inr ⟨q, hq, hlt, hsame⟩⟩

end OpenVHost.Tray
