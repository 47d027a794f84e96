/-
# What an installation shows of its progress

The downloader reports each chunk, thousands of them a second. `ProgressThrottle`
decides which reports cross to the window: a count of bytes may be withheld, and the
next transition of the pipeline shows it first. A transition always crosses.

* `ProgressThrottle.admitProgress` — what crosses for one report.
* `forwarded` — what crosses over a whole installation, with the instants.
* `Tracks` — what the throttle remembers of the reports that it has had and of those that
  it has let through.
* `throttle_drops_superseded` — all that is lost is a count that a later one replaces.
-/

import Mathlib.Data.List.Basic

namespace OpenVHost.Desktop

/-- A report of the install pipeline. -/
inductive Progress where
  | started (total : Option Nat)
  | downloaded (bytes : Nat)
  | verified
  | extracted
  | linked
  deriving DecidableEq, Repr

/-- Nanoseconds on the clock that never goes back. -/
abbrev Instant := Nat

/-- 200 ms. -/
def downloadEventInterval : Nat := 200 * 1000000

def downloadEventFraction : Nat := 100

structure ProgressThrottle where
  /-- When the last count was forwarded. -/
  lastEmit : Option Instant
  lastBytes : Nat
  /-- The last count that was not. -/
  withheld : Option Nat
  /-- The length that the server declared. -/
  total : Option Nat
  deriving DecidableEq, Repr

namespace ProgressThrottle

def new : ProgressThrottle := ⟨none, 0, none, none⟩

variable (t : ProgressThrottle)

def shouldEmit (bytes : Nat) (now : Instant) : Bool :=
  match t.lastEmit with
  | none => true
  | some last =>
      if downloadEventInterval ≤ now - last then true
      else
        match t.total with
        | some total => max (total / downloadEventFraction) 1 ≤ bytes - t.lastBytes
        | none => false

def markEmitted (bytes : Nat) (now : Instant) : ProgressThrottle :=
  { t with lastEmit := some now, lastBytes := bytes, withheld := none }

/-- Before a transition, the count that was withheld crosses. -/
def flush (transition : Progress) (now : Instant) : List Progress × ProgressThrottle :=
  match t.withheld with
  | some bytes => ([.downloaded bytes, transition], t.markEmitted bytes now)
  | none => ([transition], t)

def admitProgress (progress : Progress) (now : Instant) : List Progress × ProgressThrottle :=
  match progress with
  | .downloaded bytes =>
      if t.shouldEmit bytes now then ([.downloaded bytes], t.markEmitted bytes now)
      else ([], { t with withheld := some bytes })
  | .started total => { t with total := total }.flush (.started total) now
  | .verified => t.flush .verified now
  | .extracted => t.flush .extracted now
  | .linked => t.flush .linked now

end ProgressThrottle

/-! ### A whole installation -/

/-- A report and the instant at which it comes or crosses. -/
abbrev Stamped := Progress × Instant

def Progress.isTransition : Progress → Bool
  | .downloaded _ => false
  | .started _ | .verified | .extracted | .linked => true

def Progress.count : Progress → Option Nat
  | .downloaded bytes => some bytes
  | .started _ | .verified | .extracted | .linked => none

/-- What a `Started` declares. -/
def Progress.declares : Progress → Option (Option Nat)
  | .started total => some total
  | .downloaded _ | .verified | .extracted | .linked => none

def transitions (events : List Stamped) : List Stamped :=
  events.filter fun e => e.1.isTransition

/-- The counts of bytes, with their instants. -/
def counts (events : List Stamped) : List (Nat × Instant) :=
  events.filterMap fun e => e.1.count.map (·, e.2)

def byteCounts (events : List Stamped) : List Nat := (counts events).map Prod.fst

/-- The length that the server has declared so far. -/
def declaredTotal (events : List Stamped) : Option Nat :=
  ((events.filterMap fun e => e.1.declares).getLast?).join

/-- The lists that `admitProgress` returns for the reports, joined, each event with the instant at
which it crosses. -/
def forwarded : ProgressThrottle → List Stamped → List Stamped
  | _, [] => []
  | t, (progress, now) :: rest =>
      (t.admitProgress progress now).1.map (·, now) ++ forwarded (t.admitProgress progress now).2 rest

/-- The throttle after the reports. -/
def ProgressThrottle.after : ProgressThrottle → List Stamped → ProgressThrottle
  | t, [] => t
  | t, (progress, now) :: rest => ProgressThrottle.after (t.admitProgress progress now).2 rest

section Append

variable (events more : List Stamped) (t : ProgressThrottle) (now : Instant) (bytes : Nat)

@[simp] theorem transitions_append :
    transitions (events ++ more) = transitions events ++ transitions more :=
  List.filter_append ..

@[simp] theorem counts_append : counts (events ++ more) = counts events ++ counts more :=
  List.filterMap_append ..

@[simp] theorem byteCounts_append :
    byteCounts (events ++ more) = byteCounts events ++ byteCounts more := by
  simp [byteCounts]

@[simp] theorem transitions_downloaded : transitions [(.downloaded bytes, now)] = [] := rfl

@[simp] theorem counts_downloaded : counts [(.downloaded bytes, now)] = [(bytes, now)] := rfl

@[simp] theorem byteCounts_downloaded : byteCounts [(.downloaded bytes, now)] = [bytes] := rfl

@[simp] theorem declaredTotal_downloaded :
    declaredTotal (events ++ [(.downloaded bytes, now)]) = declaredTotal events := by
  simp [declaredTotal, Progress.declares]

/-- What crosses for the first reports does not depend on the later ones. -/
theorem forwarded_append :
    forwarded t (events ++ more) = forwarded t events ++ forwarded (t.after events) more := by
  induction events generalizing t with
  | nil => rfl
  | cons e rest ih => simp [forwarded, ProgressThrottle.after, ih]

end Append

section Transition

variable {transition : Progress} {now : Instant} (h : transition.isTransition = true)

include h

theorem counts_transition : counts [(transition, now)] = [] := by
  cases transition with
  | downloaded bytes => cases h
  | started total => rfl
  | verified => rfl
  | extracted => rfl
  | linked => rfl

theorem byteCounts_transition : byteCounts [(transition, now)] = [] := by
  rw [byteCounts, counts_transition h, List.map_nil]

end Transition

/-! ### What the throttle remembers -/

/-- The throttle has had the reports `received`, and `sent` have crossed. -/
structure Tracks (t : ProgressThrottle) (received sent : List Stamped) : Prop where
  transitions : transitions sent = transitions received
  sublist : (byteCounts sent ++ t.withheld.toList).Sublist (byteCounts received)
  emitted : (counts sent).getLast? = t.lastEmit.map fun last => (t.lastBytes, last)
  /-- The last count has crossed, or it is withheld. -/
  latest : (byteCounts received).getLast? = t.withheld.or (byteCounts sent).getLast?
  total : t.total = declaredTotal received

namespace Tracks

variable {t : ProgressThrottle} {received sent : List Stamped} {now : Instant} {bytes : Nat}
  {transition : Progress}

theorem begin : Tracks .new [] [] where
  transitions := rfl
  sublist := List.Sublist.refl _
  emitted := rfl
  latest := rfl
  total := rfl

/-- What has crossed is part of what came. -/
theorem sent_sublist (h : Tracks t received sent) :
    (byteCounts sent).Sublist (byteCounts received) :=
  (List.sublist_append_left _ _).trans h.sublist

/-- A count crosses. -/
theorem emit (h : Tracks t received sent) :
    Tracks (t.markEmitted bytes now) (received ++ [(.downloaded bytes, now)])
      (sent ++ [(.downloaded bytes, now)]) where
  transitions := by simp [h.transitions]
  sublist := by
    simpa [ProgressThrottle.markEmitted] using h.sent_sublist.append (List.Sublist.refl [bytes])
  emitted := by simp [ProgressThrottle.markEmitted]
  latest := by simp [ProgressThrottle.markEmitted]
  total := by rw [declaredTotal_downloaded]; exact h.total

/-- A count is withheld. -/
theorem withhold (h : Tracks t received sent) :
    Tracks { t with withheld := some bytes } (received ++ [(.downloaded bytes, now)]) sent where
  transitions := by simp [h.transitions]
  sublist := by simpa using h.sent_sublist.append (List.Sublist.refl [bytes])
  emitted := h.emitted
  latest := by simp
  total := by rw [declaredTotal_downloaded]; exact h.total

/-- The count that was withheld crosses after all. -/
theorem release (h : Tracks t received sent) (hwithheld : t.withheld = some bytes) :
    Tracks (t.markEmitted bytes now) received (sent ++ [(.downloaded bytes, now)]) where
  transitions := by simp [h.transitions]
  sublist := by simpa [hwithheld, ProgressThrottle.markEmitted] using h.sublist
  emitted := by simp [ProgressThrottle.markEmitted]
  latest := by simpa [hwithheld, ProgressThrottle.markEmitted] using h.latest
  total := h.total

/-- A transition crosses. -/
theorem pass (h : Tracks t received sent) (htransition : transition.isTransition = true)
    {total : Option Nat} (htotal : total = declaredTotal (received ++ [(transition, now)])) :
    Tracks { t with total := total } (received ++ [(transition, now)])
      (sent ++ [(transition, now)]) where
  transitions := by rw [transitions_append, transitions_append, h.transitions]
  sublist := by simpa [byteCounts_transition htransition] using h.sublist
  emitted := by simpa [counts_transition htransition] using h.emitted
  latest := by simpa [byteCounts_transition htransition] using h.latest
  total := htotal

/-- A transition crosses, after the count that was withheld. -/
theorem flush (h : Tracks t received sent) (htransition : transition.isTransition = true)
    (total : Option Nat) (htotal : total = declaredTotal (received ++ [(transition, now)])) :
    Tracks ({ t with total := total }.flush transition now).2 (received ++ [(transition, now)])
      (sent ++ ({ t with total := total }.flush transition now).1.map (·, now)) := by
  cases hwithheld : t.withheld with
  | none => simpa [ProgressThrottle.flush, hwithheld] using h.pass htransition htotal
  | some bytes =>
      have hrelease : Tracks (t.markEmitted bytes now) received
          (sent ++ [(.downloaded bytes, now)]) := h.release hwithheld
      have hpass := hrelease.pass htransition htotal
      simpa [ProgressThrottle.flush, hwithheld, ProgressThrottle.markEmitted] using hpass

/-- **A step**: whatever is reported, what crosses is accounted for. -/
theorem admitProgress (h : Tracks t received sent) (progress : Progress) (now : Instant) :
    Tracks (t.admitProgress progress now).2 (received ++ [(progress, now)])
      (sent ++ (t.admitProgress progress now).1.map (·, now)) := by
  cases progress with
  | downloaded bytes =>
      simp only [ProgressThrottle.admitProgress]
      split
      · exact h.emit
      · simpa using h.withhold
  | started total =>
      exact h.flush rfl total (by simp [declaredTotal, Progress.declares])
  | verified =>
      exact h.flush rfl t.total (by simpa [declaredTotal, Progress.declares] using h.total)
  | extracted =>
      exact h.flush rfl t.total (by simpa [declaredTotal, Progress.declares] using h.total)
  | linked =>
      exact h.flush rfl t.total (by simpa [declaredTotal, Progress.declares] using h.total)

/-- **A run.** -/
theorem run (h : Tracks t received sent) (events : List Stamped) :
    Tracks (t.after events) (received ++ events) (sent ++ forwarded t events) := by
  induction events generalizing t received sent with
  | nil => simpa [forwarded, ProgressThrottle.after] using h
  | cons e rest ih => simpa [forwarded, ProgressThrottle.after] using ih (h.admitProgress e.1 e.2)

end Tracks

/-- A throttle over the reports since the installation began. -/
theorem tracks_forwarded (events : List Stamped) :
    Tracks (ProgressThrottle.new.after events) events (forwarded .new events) := by
  simpa using Tracks.begin.run events

/-! ### When a count crosses on its own -/

/-- A count may cross at `now`: it is the first, or the last one that crossed is the interval
older, or smaller by a hundredth of the declared total and by one at least. -/
def Due (received sent : List Stamped) (bytes : Nat) (now : Instant) : Prop :=
  ∀ previous last, (counts sent).getLast? = some (previous, last) →
    last + downloadEventInterval ≤ now ∨
      ∃ total, declaredTotal received = some total ∧
        previous + max 1 (total / downloadEventFraction) ≤ bytes

private theorem interval_le_iff {n a b : Nat} (hpositive : 0 < n) : n ≤ a - b ↔ b + n ≤ a := by
  omega

theorem Tracks.shouldEmit_iff {t : ProgressThrottle} {received sent : List Stamped}
    (h : Tracks t received sent) (bytes : Nat) (now : Instant) :
    t.shouldEmit bytes now = true ↔ Due received sent bytes now := by
  unfold Due
  rw [h.emitted, ← h.total, ProgressThrottle.shouldEmit]
  cases t.lastEmit with
  | none => simp
  | some last =>
      have hinterval : downloadEventInterval ≤ now - last ↔ last + downloadEventInterval ≤ now :=
        interval_le_iff (by decide)
      simp only [Option.map_some, Option.some.injEq, Prod.mk.injEq, and_imp]
      cases t.total with
      | none =>
          constructor
          · intro hemit previous last' _ hlast
            subst hlast
            left
            simpa [hinterval] using hemit
          · intro hdue
            rcases hdue t.lastBytes last rfl rfl with hlate | ⟨total, htotal, _⟩
            · simpa [hinterval] using hlate
            · cases htotal
      | some total =>
          have hstep : max (total / downloadEventFraction) 1 ≤ bytes - t.lastBytes ↔
              t.lastBytes + max 1 (total / downloadEventFraction) ≤ bytes := by
            omega
          constructor
          · intro hemit previous last' hprevious hlast
            subst hprevious hlast
            by_cases hlate : last + downloadEventInterval ≤ now
            · exact .inl hlate
            · refine .inr ⟨total, rfl, hstep.mp ?_⟩
              simpa [hinterval, hlate] using hemit
          · intro hdue
            rcases hdue t.lastBytes last rfl rfl with hlate | ⟨total', htotal, hmore⟩
            · simp [hinterval, hlate]
            · cases htotal
              simp [hstep.mpr hmore]

/-! ### What an installation shows -/

variable {events before later : List Stamped} {progress transition : Progress} {now : Instant}
  {bytes : Nat}

/-- What one more report adds. -/
theorem forwarded_concat :
    forwarded .new (before ++ [(progress, now)]) =
      forwarded .new before ++
        ((ProgressThrottle.new.after before).admitProgress progress now).1.map (·, now) := by
  rw [forwarded_append]
  simp [forwarded]

theorem admitProgress_transition (t : ProgressThrottle) (htransition : transition.isTransition = true) :
    (t.admitProgress transition now).1 = (t.withheld.toList.map .downloaded) ++ [transition] := by
  cases transition with
  | downloaded bytes => cases htransition
  | started total => cases h : t.withheld <;> simp [ProgressThrottle.admitProgress, ProgressThrottle.flush, h]
  | verified => cases h : t.withheld <;> simp [ProgressThrottle.admitProgress, ProgressThrottle.flush, h]
  | extracted => cases h : t.withheld <;> simp [ProgressThrottle.admitProgress, ProgressThrottle.flush, h]
  | linked => cases h : t.withheld <;> simp [ProgressThrottle.admitProgress, ProgressThrottle.flush, h]

/-- Before a transition crosses, the window has the last count that came. -/
theorem forwarded_transition (htransition : transition.isTransition = true) :
    ∃ sent, forwarded .new (before ++ [(transition, now)]) = sent ++ [(transition, now)] ∧
      (byteCounts sent).getLast? = (byteCounts before).getLast? := by
  have hlatest := (tracks_forwarded before).latest
  rw [forwarded_concat, admitProgress_transition _ htransition]
  cases hwithheld : (ProgressThrottle.new.after before).withheld with
  | none =>
      rw [hwithheld] at hlatest
      exact ⟨forwarded .new before, rfl, hlatest.symm⟩
  | some bytes =>
      rw [hwithheld] at hlatest
      refine ⟨forwarded .new before ++ [(.downloaded bytes, now)], by simp, ?_⟩
      simp [hlatest]

/-- A count crosses when it is due. -/
theorem forwarded_due (hdue : Due before (forwarded .new before) bytes now) :
    forwarded .new (before ++ [(.downloaded bytes, now)]) =
      forwarded .new before ++ [(.downloaded bytes, now)] := by
  have hemit := ((tracks_forwarded before).shouldEmit_iff bytes now).mpr hdue
  simp [forwarded_concat, ProgressThrottle.admitProgress, hemit]

theorem forwarded_not_due (hdue : ¬ Due before (forwarded .new before) bytes now) :
    forwarded .new (before ++ [(.downloaded bytes, now)]) = forwarded .new before := by
  have hemit := mt ((tracks_forwarded before).shouldEmit_iff bytes now).mp hdue
  simp [forwarded_concat, ProgressThrottle.admitProgress, hemit]

/-- **The throttle drops only counts that a later one replaces**: each transition crosses
once, in order and at once; the counts that cross are among those that came; the window has the
last count before a transition reaches it; and a count crosses on its own only when it is
due. -/
theorem throttle_drops_superseded (events : List Stamped) :
    transitions (forwarded .new events) = transitions events ∧
    (byteCounts (forwarded .new events)).Sublist (byteCounts events) ∧
    (∀ before later, events = before ++ later →
      forwarded .new before <+: forwarded .new events) ∧
    (∀ before transition now later, events = before ++ (transition, now) :: later →
      transition.isTransition = true →
      ∃ sent, forwarded .new (before ++ [(transition, now)]) = sent ++ [(transition, now)] ∧
        (byteCounts sent).getLast? = (byteCounts before).getLast?) ∧
    ∀ before bytes now later, events = before ++ (.downloaded bytes, now) :: later →
      forwarded .new (before ++ [(.downloaded bytes, now)]) =
          forwarded .new before ++ [(.downloaded bytes, now)] ∧
        Due before (forwarded .new before) bytes now ∨
      forwarded .new (before ++ [(.downloaded bytes, now)]) = forwarded .new before ∧
        ¬ Due before (forwarded .new before) bytes now := by
  have htracks := tracks_forwarded events
  refine ⟨htracks.transitions, htracks.sent_sublist, ?_, ?_, ?_⟩
  · rintro before later rfl
    rw [forwarded_append]
    exact List.prefix_append _ _
  · intro before transition now later _ htransition
    exact forwarded_transition htransition
  · intro before bytes now later _
    by_cases hdue : Due before (forwarded .new before) bytes now
    · exact .inl ⟨forwarded_due hdue, hdue⟩
    · exact .inr ⟨forwarded_not_due hdue, hdue⟩

/-- The last chunk of a download is shown before the verification is. -/
example : (forwarded .new [(.started (some 1000), 0), (.downloaded 980, 5), (.downloaded 985, 6),
      (.downloaded 1000, 7), (.downloaded 1000, 8), (.verified, 9)]).map Prod.fst =
    [.started (some 1000), .downloaded 980, .downloaded 1000, .downloaded 1000, .verified] := by
  decide

end OpenVHost.Desktop
