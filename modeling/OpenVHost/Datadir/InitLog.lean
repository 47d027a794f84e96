/-
# The log of an initialization

`run_mysql_init` forwards what it does, and what the temporary server prints, to the sink of its
caller. The readers of the temporary server hold the sink before there is a password: a cell is
read at every call, and the attempt puts the password there before any child is given it.

* `initLog` — the attempt and the two readers, in any order of steps.
* `scrubbed_hidden` — a line does not hold the password where its call has read it from the cell,
  or where it was printed after a child had been given the password.
-/

import OpenVHost.Datadir.Driver
import OpenVHost.Lts.System

namespace OpenVHost.Datadir.InitLog

open Lts

/-- `redacting_sink`, up to the call of the sink that it wraps. -/
def redactingSink (cell : Option (List Char)) (line : String) : String :=
  match cell with
  | some secret => if secret.isEmpty then line else redact line secret
  | none => line

inductive Caller where
  /-- `run_mysql_init` itself. -/
  | attempt
  /-- The readers of the temporary server, `drain_and_forward`. -/
  | stdout
  | stderr
  deriving DecidableEq, Repr

structure Printed where
  line : String
  /-- Whether a child had been given the password. -/
  knowing : Bool
  deriving DecidableEq, Repr

/-- A call of the sink that has read the cell and not yet called what it wraps. -/
structure Call where
  scrubbed : String
  /-- What the cell held. -/
  secret : Option (List Char)
  knowing : Bool
  deriving DecidableEq, Repr

/-- A line that the caller's sink has been given. -/
structure Forwarded extends Call where
  /-- Whether there was a password by then. -/
  existed : Bool
  deriving DecidableEq, Repr

structure State where
  /-- Once it has been generated. -/
  password : Option RootPassword
  /-- `SecretCell` -/
  cell : Option (List Char)
  /-- Whether a child has been given the password. -/
  given : Bool
  /-- What has been printed and not been read. -/
  pipes : Caller → List Printed
  calls : Caller → Option Call
  forwarded : List Forwarded

inductive Action where
  /-- The temporary server prints a line. -/
  | printed (reader : Caller) (line : String)
  /-- A reader takes the next line and calls the sink. -/
  | drained (reader : Caller)
  /-- The attempt logs a line of its own. -/
  | logged (line : String)
  /-- A call of the sink forwards its line. -/
  | forwarded (c : Caller)
  | generated (password : RootPassword)
  /-- The password is put into the cell. -/
  | stored
  /-- A client is started that is given the password. -/
  | given
  deriving DecidableEq, Repr

/-! ### Steps -/

/-- A call of the sink begins: it reads the cell. -/
def call (s : State) (c : Caller) (p : Printed) : State :=
  { s with
    calls := Function.update s.calls c
      (some ⟨redactingSink s.cell p.line, s.cell, p.knowing⟩) }

def drained (s : State) (reader : Caller) : Option State :=
  match s.calls reader, s.pipes reader with
  | none, p :: rest => some (call { s with pipes := Function.update s.pipes reader rest } reader p)
  | _, _ => none

def forward (s : State) (c : Caller) : Option State :=
  match s.calls c with
  | none => none
  | some k => some { s with
      calls := Function.update s.calls c none
      forwarded := s.forwarded ++ [⟨k, s.password.isSome⟩] }

def next (s : State) : Action → Option State
  | .printed reader line =>
      if reader = .attempt then none
      else some { s with
        pipes := Function.update s.pipes reader (s.pipes reader ++ [⟨line, s.given⟩]) }
  | .drained reader => drained s reader
  | .logged line =>
      if s.calls .attempt = none then some (call s .attempt ⟨line, s.given⟩) else none
  | .forwarded c => forward s c
  | .generated password =>
      if s.calls .attempt = none ∧ s.password = none then some { s with password := some password }
      else none
  | .stored =>
      match s.password, s.cell with
      | some password, none => some { s with cell := some password.value }
      | _, _ => none
  | .given =>
      if s.calls .attempt = none ∧ s.cell.isSome then some { s with given := true } else none

/-- Before the temporary server is started. -/
structure Initial (s : State) : Prop where
  password : s.password = none
  cell : s.cell = none
  given : s.given = false
  pipes : ∀ c, s.pipes c = []
  calls : ∀ c, s.calls c = none
  forwarded : s.forwarded = []

/-- The log of one attempt. -/
def initLog : System State Action where
  init := Initial
  next := next

/-! ### What the calls know -/

/-- A call that has read a password has read it from the cell, and has redacted its line. -/
structure Sound.OfCall (cell : Option (List Char)) (k : Call) : Prop where
  knowing : k.knowing = true → k.secret.isSome = true
  scrubbed : ∀ p, k.secret = some p →
    cell = some p ∧ ∃ line, k.scrubbed = redactingSink (some p) line

structure Sound (s : State) : Prop where
  cell : ∀ p, s.cell = some p → s.password = some ⟨p⟩
  given : s.given = true → s.cell.isSome = true
  pipes : ∀ c, ∀ p ∈ s.pipes c, p.knowing = true → s.given = true
  calls : ∀ c k, s.calls c = some k → Sound.OfCall s.cell k
  forwarded : ∀ f ∈ s.forwarded, Sound.OfCall s.cell f.toCall

section Sound

variable {s s' : State} {a : Action} {p : Printed} {k : Call}

theorem Initial.sound (h : Initial s) : Sound s where
  cell p hp := by rw [h.cell] at hp; cases hp
  given hg := by rw [h.given] at hg; cases hg
  pipes c p hp := by rw [h.pipes] at hp; cases hp
  calls c k hk := by rw [h.calls] at hk; cases hk
  forwarded f hf := by rw [h.forwarded] at hf; cases hf

/-- Only an empty cell is written to. -/
theorem Sound.OfCall.stored {cell : Option (List Char)} (h : Sound.OfCall none k) :
    Sound.OfCall cell k where
  knowing := h.knowing
  scrubbed q hq := by
    obtain ⟨hcell, -⟩ := h.scrubbed q hq
    cases hcell

theorem Sound.begun (h : Sound s) (c : Caller) (hp : p.knowing = true → s.given = true) :
    Sound (call s c p) where
  cell := h.cell
  given := h.given
  pipes := h.pipes
  calls c' k hk := by
    by_cases hc : c' = c
    · subst hc
      have hk : some (Call.mk (redactingSink s.cell p.line) s.cell p.knowing) = some k := by
        simpa [call] using hk
      cases hk
      refine ⟨fun hknow => h.given (hp hknow), fun q hq => ?_⟩
      have hq : s.cell = some q := hq
      exact ⟨hq, p.line, by rw [hq]⟩
    · exact h.calls c' k (by simpa [call, hc] using hk)
  forwarded := h.forwarded

theorem Sound.drained (h : Sound s) {c : Caller} (hn : drained s c = some s') : Sound s' := by
  unfold InitLog.drained at hn
  split at hn
  next p rest hcall hpipe =>
    cases hn
    have hrest : Sound { s with pipes := Function.update s.pipes c rest } :=
      { h with
        pipes := fun c' q hq => by
          by_cases hc : c' = c
          · subst hc
            have hq : q ∈ rest := by simpa using hq
            exact h.pipes c' q (hpipe ▸ List.mem_cons_of_mem _ hq)
          · exact h.pipes c' q (by simpa [hc] using hq) }
    exact hrest.begun c (h.pipes c p (hpipe ▸ List.mem_cons_self))
  next => cases hn

theorem Sound.forward (h : Sound s) {c : Caller} (hn : forward s c = some s') : Sound s' := by
  unfold InitLog.forward at hn
  split at hn
  next => cases hn
  next k hk =>
    cases hn
    refine { h with calls := fun c' k' hk' => ?_, forwarded := fun f hf => ?_ }
    · by_cases hc : c' = c
      · subst hc
        simp at hk'
      · exact h.calls c' k' (by simpa [hc] using hk')
    · rcases List.mem_append.mp hf with hf | hf
      · exact h.forwarded f hf
      · rw [List.mem_singleton.mp hf]
        exact h.calls c k hk

theorem Sound.step (h : Sound s) (hn : next s a = some s') : Sound s' := by
  cases a with
  | printed reader line =>
      simp only [next] at hn
      split_ifs at hn
      cases hn
      refine { h with pipes := fun c p hp => ?_ }
      by_cases hc : c = reader
      · subst hc
        have hp : p ∈ s.pipes c ++ [⟨line, s.given⟩] := by simpa using hp
        rcases List.mem_append.mp hp with hp | hp
        · exact h.pipes c p hp
        · rw [List.mem_singleton.mp hp]
          exact id
      · exact h.pipes c p (by simpa [hc] using hp)
  | drained reader => exact h.drained hn
  | logged line =>
      simp only [next] at hn
      split_ifs at hn
      cases hn
      exact h.begun .attempt id
  | forwarded c => exact h.forward hn
  | generated password =>
      simp only [next] at hn
      split_ifs at hn with hfresh
      cases hn
      refine { h with cell := fun p hp => ?_ }
      rw [h.cell p hp] at hfresh
      exact absurd hfresh.2 (by simp)
  | stored =>
      simp only [next] at hn
      split at hn
      next password hpassword hcell =>
        cases hn
        exact {
          cell := fun p hp => by cases hp; exact hpassword
          given := fun _ => rfl
          pipes := h.pipes
          calls := fun c k hk => (hcell ▸ h.calls c k hk : Sound.OfCall none k).stored
          forwarded := fun f hf => (hcell ▸ h.forwarded f hf : Sound.OfCall none _).stored }
      next => cases hn
  | given =>
      simp only [next] at hn
      split_ifs at hn with hcell
      cases hn
      exact { h with
        given := fun _ => hcell.2
        pipes := fun _ _ _ _ => rfl }

theorem sound_of_reachable (h : initLog.Reachable s) : Sound s :=
  System.Reaches.invariant (fun _ h => Initial.sound h) (fun _ _ _ h _ hn => Sound.step h hn) h

end Sound

/-- **The password is in no line whose call has read it**, nor in any that was printed after a
child had been given it. -/
theorem scrubbed_hidden {s : State} (h : initLog.Reachable s) {p : RootPassword}
    (hp : s.password = some p) (hgen : Generated p.value) {f : Forwarded} (hf : f ∈ s.forwarded)
    (hread : f.secret.isSome = true ∨ f.knowing = true) :
    Hidden [p.value] f.scrubbed.toList := by
  have hs := sound_of_reachable h
  have hcall := hs.forwarded f hf
  obtain ⟨q, hq⟩ := Option.isSome_iff_exists.mp (hread.elim id hcall.knowing)
  obtain ⟨hcell, line, hline⟩ := hcall.scrubbed q hq
  obtain rfl : p = ⟨q⟩ := Option.some.inj (hp.symm.trans (hs.cell q hcell))
  have hne : ¬ q.isEmpty = true := by
    rw [List.isEmpty_iff]
    rintro rfl
    cases hgen.length
  rw [hline, redactingSink, if_neg hne]
  exact hidden_redact hgen line

end OpenVHost.Datadir.InitLog
