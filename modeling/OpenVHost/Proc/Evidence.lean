/-
# Crash evidence

The tail in a service's `Failed` state is taken from the row's buffer of stderr
lines, which `start` empties. The readers of a run push by the service's id, and
a reader may outlive its run: it is not aborted when the drain budget is spent.

A history carries beside the world what its runs have said: the lines that their
stderr readers pushed, and the line that a run writes when its child could not be
spawned.

* `History` — the world with what its runs have said; `recorded` is the supervisor
  with this record, which no step reads.
* `Evidence` — what is known of a run in progress.
* `evidence_is_own` — the tail of a `Failed` state is the end of what its own run
  had said when the tail was taken, with the probe's diagnostics after it, unless a
  reader of another run pushed a line meanwhile.
* `foreign_lines` — runs whose tail has lines that were not read from the child.
-/

import Mathlib.Data.List.DropRight
import OpenVHost.Proc.Stop

namespace OpenVHost.Proc

/-! ### Bounded buffers -/

section Bounded

variable {α : Type} {capacity : Nat}

/-- A buffer that drops its oldest element holds the end of what was pushed. -/
theorem pushBounded_rtake (hcap : 0 < capacity) (xs : List α) (x : α) :
    pushBounded capacity (xs.rtake capacity) x = (xs ++ [x]).rtake capacity := by
  obtain ⟨n, rfl⟩ := Nat.exists_eq_succ_of_ne_zero hcap.ne'
  rw [List.rtake_concat_succ, pushBounded]
  congr 1
  have hlen : (xs.rtake (n + 1)).length = min (n + 1) xs.length := by
    rw [List.rtake, List.length_drop]
    omega
  split
  · next hfull =>
      rw [hlen] at hfull
      rw [List.rtake, List.rtake, List.tail_drop]
      congr 1
      omega
  · next hroom =>
      rw [hlen] at hroom
      rw [List.rtake, List.rtake]
      congr 1
      omega

end Bounded

/-! ### What runs have said -/

/-- Whose a line is: read from the run's child, or the supervisor's own. -/
inductive Origin where
  | child
  | supervisor
  deriving DecidableEq, Repr

abbrev Said := List (Origin × String)

/-- The stderr line that a task is about to push itself. -/
@[simp] def Task.speaks : Task → Said
  | log .stderr line _ => [(.supervisor, line)]
  | _ => []

/-- The tail is taken, or will not be. -/
@[simp] def Task.tailTaken : Task → Bool
  | classify _ _ | removeRecord _ _ | setTerminal _ _ | done => true
  | log _ _ next | emit _ next => next.tailTaken
  | _ => false

@[simp] theorem Task.tailTaken_note (line : String) (next : Task) :
    (note line next).tailTaken = next.tailTaken := rfl

namespace World

/-- What a step adds to what run `r` has said. -/
def utters (w : World) (r : RunId) : Action → Said
  | .read r' .stderr line => if r' = r then [(.child, line)] else []
  | .task r' _ => if r' = r then ((w.runs r).map fun run => run.task.speaks).getD [] else []
  | _ => []

/-- Whether run `r` takes its tail at this step. -/
def takesTail (w : World) (r : RunId) : Action → Bool
  | .task r' .go => r' == r && (w.runs r).any fun run => match run.task with
      | .stderrTailSnapshot _ => true
      | _ => false
  | _ => false

/-- Whether the reader of another run pushes a line into the buffer that run `r` is
still to take its tail from. -/
def disturbs (w : World) (r : RunId) : Action → Bool
  | .read r' .stderr _ => r' != r && (w.runs r).any fun run => !run.task.tailTaken &&
      (w.runs r').any fun other => other.id == run.id
  | _ => false

end World

structure History where
  world : World
  said : RunId → Said
  /-- What a run had said when it took its tail. -/
  taken : RunId → Option Said
  disturbed : RunId → Bool

def History.next (h : History) (a : Action) : Option History :=
  (h.world.next a).map fun w =>
    { world := w
      said := fun r => h.said r ++ h.world.utters r a
      taken := fun r => if h.world.takesTail r a then some (h.said r) else h.taken r
      disturbed := fun r => h.disturbed r || h.world.disturbs r a }

/-- The supervisor, recording what its runs say. -/
def recorded : Lts.System History Action where
  init h := h.world.Initial ∧ (∀ r, h.said r = []) ∧ (∀ r, h.taken r = none) ∧
    ∀ r, h.disturbed r = false
  next := History.next

section Recorded

variable {h h' : History} {a : Action}

theorem History.next_world (hn : h.next a = some h') : h.world.next a = some h'.world := by
  unfold History.next at hn
  obtain ⟨w, hw, rfl⟩ := Option.map_eq_some_iff.mp hn
  exact hw

/-- The record is no part of the supervisor: it runs beside every run. -/
theorem reachable_of_recorded (hr : recorded.Reachable h) : supervisor.Reachable h.world := by
  induction hr with
  | init hinit => exact .init hinit.1
  | step _ _ hn ih => exact .step ih trivial (History.next_world hn)

end Recorded

/-! ### The buffer of a row -/

section Buffer

variable {w w' : World} {r : RunId} {run : Run} {id i : ServiceId} {a : Action}

/-- What is left in a buffer of stderr lines after some more. -/
def pushedTo (tail : List String) (said : Said) : List String :=
  (said.map Prod.snd).foldl (pushBounded stderrTailMax) tail

@[simp] theorem pushedTo_nil (tail : List String) : pushedTo tail [] = tail := rfl

theorem pushedTo_rtake (xs : List String) (said : Said) :
    pushedTo (xs.rtake stderrTailMax) said = (xs ++ said.map Prod.snd).rtake stderrTailMax := by
  induction said generalizing xs with
  | nil => simp
  | cons line said ih =>
      have hstep := ih (xs ++ [line.2])
      rw [← pushBounded_rtake (by decide)] at hstep
      simpa [pushedTo] using hstep

theorem World.stderrTail_modify {f : Entry → Entry} (hf : ∀ e, (f e).stderrTail = e.stderrTail)
    (i : ServiceId) : (w.modify id f).stderrTail i = w.stderrTail i := by
  unfold World.stderrTail
  rw [World.entries_modify]
  by_cases h : i = id
  · subst h
    rw [if_pos rfl, Option.map_map, show Entry.stderrTail ∘ f = Entry.stderrTail from funext hf]
  · rw [if_neg h]

theorem World.stderrTail_setState (state : ServiceState) (i : ServiceId) :
    (w.setState id state).stderrTail i = w.stderrTail i :=
  World.stderrTail_modify (fun e => by split <;> rfl) i

theorem World.stderrTail_congr (h : w'.entries i = w.entries i) :
    w'.stderrTail i = w.stderrTail i := by
  rw [World.stderrTail, h, World.stderrTail]

theorem World.stderrTail_stdout (line : String) (i : ServiceId) :
    (w.pushLog id .stdout line).stderrTail i = w.stderrTail i := by
  apply World.stderrTail_modify
  intro e
  rfl

/-- A stderr line goes into the row of its service. -/
theorem World.stderrTail_stderr {e : Entry} (he : w.entries id = some e) (line : String) :
    (w.pushLog id .stderr line).stderrTail id = pushBounded stderrTailMax (w.stderrTail id) line := by
  have he' : (w.pushLog id .stderr line).entries id = some
      { e with
        logs := pushBounded ringCapacity e.logs (w.logLine line)
        stderrTail := pushBounded stderrTailMax e.stderrTail line } := by
    simp [World.pushLog, World.entries_modify, he]
  rw [World.stderrTail_of_entry he', World.stderrTail_of_entry he]

theorem World.stderrTail_other (source : StreamSource) (line : String) (hne : i ≠ id) :
    (w.pushLog id source line).stderrTail i = w.stderrTail i := by
  apply World.stderrTail_congr
  rw [World.pushLog, World.entries_modify, if_neg hne]

/-- A task's step pushes a stderr line only where the task is about to. -/
theorem stepTask_stderrTail {answer : Answer} (h : w.stepTask r run answer = some w') :
    (run.task.speaks = [] ∧ ∀ i, w'.stderrTail i = w.stderrTail i) ∨
    ∃ line, run.task.speaks = [(.supervisor, line)] ∧
      ∀ i, w'.stderrTail i = (w.pushLog run.id .stderr line).stderrTail i := by
  have hexit : ∀ next, w.onExit r run next = some w' → ∀ i, w'.stderrTail i = w.stderrTail i := by
    intro next h
    unfold World.onExit at h
    split at h
    · cases h
      exact fun _ => rfl
    · cases h
    · cases h
  unfold World.stepTask at h
  split at h
  case h_3 ht =>
    cases h
    exact .inl ⟨by simp [ht], World.stderrTail_modify fun _ => rfl⟩
  case h_4 ht | h_23 ht =>
    cases h
    exact .inl ⟨by simp [ht], fun _ => rfl⟩
  case h_6 ht =>
    refine .inl ⟨by simp [ht], ?_⟩
    split at h
    · cases h
      exact fun _ => rfl
    · exact hexit _ h
    · cases h
      exact fun _ => rfl
    · cases h
  case h_9 ht | h_12 ht | h_14 ht | h_16 ht | h_18 ht => exact .inl ⟨by simp [ht], hexit _ h⟩
  case h_13 ht | h_24 ht =>
    cases h
    exact .inl ⟨by simp [ht], World.stderrTail_setState _⟩
  case h_15 ht | h_19 ht =>
    refine .inl ⟨by simp [ht], ?_⟩
    split at h
    · cases h
      exact fun _ => rfl
    · cases h
  case h_25 source line next ht =>
    cases h
    cases source with
    | stdout => exact .inl ⟨by simp [ht], World.stderrTail_stdout line⟩
    | stderr => exact .inr ⟨line, by simp [ht], fun _ => rfl⟩
  case h_27 => cases h
  case h_1 ht | h_2 ht | h_5 ht | h_7 ht | h_8 ht | h_10 ht | h_11 ht | h_17 ht | h_20 ht
      | h_21 ht | h_22 ht | h_26 ht =>
    cases h
    exact .inl ⟨by simp [ht], fun _ => rfl⟩

/-- A call leaves the buffer of a live row as it is. -/
theorem stepCall_stderrTail {c : Call} {p : World × Call} (hlive : w.current id = some r)
    (h : w.stepCall c = some p) : p.1.stderrTail id = w.stderrTail id := by
  obtain ⟨e, he, hstate, -⟩ := World.current_eq_some.mp hlive
  cases c with
  | returned result => cases h
  | emit event next =>
      cases h
      rfl
  | log j line next =>
      cases h
      exact World.stderrTail_stdout _ id
  | register spec =>
      cases h
      unfold World.register
      split
      · rfl
      · next hidle =>
          refine World.stderrTail_congr (Function.update_of_ne ?_ _ _)
          rintro rfl
          simp [he, hstate] at hidle
  | unregister j =>
      cases h
      unfold World.unregister
      split
      · rfl
      · next e' he' =>
          split
          · rfl
          · next hterm =>
              refine World.stderrTail_congr (Function.update_of_ne ?_ _ _)
              rintro rfl
              rw [he, Option.some.injEq] at he'
              subst he'
              cases hst : e.state <;> simp [hst, World.checkTerminal, ServiceState.live] at hterm hstate
  | start j =>
      cases h
      unfold World.start
      split
      · rfl
      · next e' he' =>
          split
          · rfl
          · next hidle =>
              refine World.stderrTail_congr (Function.update_of_ne ?_ _ _)
              rintro rfl
              rw [he, Option.some.injEq] at he'
              exact hidle (he' ▸ hstate)
  | stop j =>
      cases h
      unfold World.stop
      split
      · rfl
      · split <;> rfl
  | spawn r₂ =>
      cases h
      unfold World.spawnTask
      split
      · rfl
      · split <;> rfl
  | trySend control =>
      cases control with
      | none =>
          cases h
          rfl
      | some r₂ =>
          cases h
          unfold World.trySend
          split
          · rfl
          · split <;> rfl

end Buffer

/-! ### Whose lines they are -/

/-- The line that a run writes when its child could not be spawned. -/
def spawnFailure (error : String) (spec : SpawnSpec) : String :=
  "ERROR spawn failed: " ++ error ++ " — " ++ spec.program

/-- A task with no stderr line ahead. -/
@[simp] def Task.mute : Task → Bool
  | log .stderr _ _ => false
  | log .stdout _ next | emit _ next => next.mute
  | _ => true

@[simp] theorem Task.mute_note (line : String) (next : Task) : (note line next).mute = next.mute :=
  rfl

theorem Task.speaks_of_mute {t : Task} (h : t.mute = true) : t.speaks = [] := by
  cases t with
  | log source _ _ => cases source <;> simp at h ⊢
  | _ => rfl

/-- What a run has said, by where it stands: its child's lines, or its own line about
a child that could not be spawned. -/
inductive Voices (run : Run) (said : Said) : Prop where
  | child (hmute : run.task.mute = true) (hsaid : ∀ l ∈ said, l.1 = .child)
      (hearly : run.task.unspawned = true → said = [] ∧ run.stderr = .absent)
  | failing (error : String) (htask : run.task =
        .log .stderr (spawnFailure error run.spec) (.drainReaders ⟨false, none, []⟩))
      (hsaid : said = []) (habsent : run.stderr = .absent)
  | failed (error : String) (hmute : run.task.mute = true) (hchildless : run.task.childless = true)
      (hsaid : said = [(.supervisor, spawnFailure error run.spec)])
      (habsent : run.stderr = .absent)

/-- What a run can have said, in the end. -/
def OwnWords (run : Run) (said : Said) : Prop :=
  (∀ l ∈ said, l.1 = .child) ∨ ∃ error, said = [(.supervisor, spawnFailure error run.spec)]

section Voices

variable {w w' : World} {r : RunId} {run run' : Run} {said : Said} {a : Action}

theorem Voices.ownWords (h : Voices run said) : OwnWords run said := by
  cases h with
  | child _ hsaid _ => exact .inl hsaid
  | failing _ _ hsaid _ => exact .inl (by simp [hsaid])
  | failed error _ _ hsaid _ => exact .inr ⟨error, hsaid⟩

/-- How a task's step bears on what its run says. -/
structure Speech (run run' : Run) : Prop where
  spec : run'.spec = run.spec
  mute : run.task.mute = true → run'.task.mute = true ∨ run.task = .spawn ∧ ∃ error,
    run'.task = .log .stderr (spawnFailure error run.spec) (.drainReaders ⟨false, none, []⟩)
  unspawned : run'.task.unspawned = true → run.task.unspawned = true
  childless : run.task.childless = true → run'.task.childless = true
  stderr : run'.stderr = run.stderr ∨ run.task = .takePipes

theorem stepTask_speech {answer : Answer} (h : w.stepTask r run answer = some w') :
    ∃ run', w'.runs r = some run' ∧ Speech run run' := by
  have hgoto : ∀ (w₁ : World) (run₁ : Run) (t : Task),
      Speech run { run₁ with task := t } →
      ∃ run', (w₁.goto r run₁ t).runs r = some run' ∧ Speech run run' :=
    fun w₁ run₁ t ht => ⟨_, Function.update_self r _ _, ht⟩
  have hexit : ∀ next, w.onExit r run next = some w' → (∀ s, (next s).mute = true) →
      (∀ s, (next s).unspawned = false) → (∀ s, (next s).childless = true) →
      ∃ run', w'.runs r = some run' ∧ Speech run run' := by
    intro next h hmute hborn hchildless
    unfold World.onExit at h
    split at h
    · cases h
      exact hgoto w run _ ⟨rfl, fun _ => .inl (hmute _), fun ht => by simp [hborn] at ht,
        fun _ => hchildless _, .inl rfl⟩
    · cases h
    · cases h
  unfold World.stepTask at h
  split at h
  case h_2 ht =>
    cases h
    refine hgoto _ _ _ ⟨rfl, fun _ => .inr ⟨ht, _, rfl⟩, ?_, ?_, .inl rfl⟩ <;> simp
  case h_3 pid ht =>
    cases h
    refine hgoto _ _ _ ⟨rfl, fun _ => .inl ?_, ?_, ?_, .inl rfl⟩ <;> cases pid <;> simp [ht]
  case h_4 ht | h_23 ht =>
    cases h
    refine hgoto _ _ _ ⟨rfl, fun _ => .inl ?_, ?_, ?_, .inl rfl⟩ <;> simp [ht]
  case h_5 ht =>
    cases h
    refine hgoto _ _ _ ⟨rfl, fun _ => .inl ?_, ?_, ?_, .inr ht⟩ <;> simp [ht]
  case h_6 ht =>
    split at h
    · cases h
      refine hgoto _ _ _ ⟨rfl, fun _ => .inl ?_, ?_, ?_, .inl rfl⟩ <;> simp [ht]
    · exact hexit _ h (fun _ => rfl) (fun _ => rfl) fun _ => rfl
    · cases h
      refine hgoto _ _ _ ⟨rfl, fun _ => .inl ?_, ?_, ?_, .inl rfl⟩ <;> simp [ht]
    · cases h
  case h_9 | h_12 | h_14 | h_16 | h_18 =>
    exact hexit _ h (fun _ => rfl) (fun _ => rfl) fun _ => rfl
  case h_15 ht | h_19 ht =>
    split at h
    · cases h
      refine hgoto _ _ _ ⟨rfl, fun _ => .inl ?_, ?_, ?_, .inl rfl⟩ <;> simp [ht]
    · cases h
  case h_25 source line next ht =>
    cases h
    refine hgoto _ _ _ ⟨rfl, fun hmute => .inl ?_, ?_, ?_, .inl rfl⟩
    · cases source with
      | stdout => simpa [ht] using hmute
      | stderr => simp [ht] at hmute
    · simp [ht]
    · simp [ht]
  case h_26 event next ht =>
    cases h
    refine hgoto _ _ _ ⟨rfl, fun hmute => .inl ?_, ?_, ?_, .inl rfl⟩
    · simpa [ht] using hmute
    · simp [ht]
    · simp [ht]
  case h_27 => cases h
  case h_1 ht | h_7 ht | h_8 ht | h_10 ht | h_11 ht | h_13 ht | h_17 ht | h_20 ht | h_21 ht
      | h_22 ht | h_24 ht =>
    cases h
    refine hgoto _ _ _ ⟨rfl, fun _ => .inl ?_, ?_, ?_, .inl rfl⟩ <;>
      simp [ht, Task.finishWithState]

theorem utters_cases (w : World) (r : RunId) (a : Action) :
    (∃ answer, a = .task r answer) ∨ w.utters r a = [] ∨
      ∃ line, a = .read r .stderr line ∧ w.utters r a = [(.child, line)] := by
  cases a with
  | task r' answer =>
      by_cases heq : r' = r
      · exact .inl ⟨answer, heq ▸ rfl⟩
      · exact .inr (.inl (if_neg heq))
  | read r' source line =>
      cases source with
      | stdout => exact .inr (.inl rfl)
      | stderr =>
          by_cases heq : r' = r
          · exact .inr (.inr ⟨line, heq ▸ rfl, if_pos heq⟩)
          · exact .inr (.inl (if_neg heq))
  | _ => exact .inr (.inl rfl)

theorem utters_task {answer : Answer} (hr : w.runs r = some run) :
    w.utters r (.task r answer) = run.task.speaks := by
  simp [World.utters, hr]

theorem next_task {answer : Answer} (hr : w.runs r = some run)
    (h : w.next (.task r answer) = some w') : w.stepTask r run answer = some w' := by
  simpa [World.next, hr, bind, Option.bind] using h

/-- A reader that is not there reads nothing. -/
theorem ne_read_of_absent (hr : w.runs r = some run) (habsent : run.stderr = .absent)
    (line : String) : w.next (.read r .stderr line) = none := by
  simp [World.next, hr, World.reader, habsent]

theorem voices_stepTask {answer : Answer} (hv : Voices run said)
    (h : w.stepTask r run answer = some w') (hr' : w'.runs r = some run') :
    Voices run' (said ++ run.task.speaks) := by
  obtain ⟨run₂, hr₂, hspeech⟩ := stepTask_speech h
  obtain rfl : run' = run₂ := Option.some.inj (hr'.symm.trans hr₂)
  cases hv with
  | child hmute hsaid hearly =>
      rw [Task.speaks_of_mute hmute, List.append_nil]
      rcases hspeech.mute hmute with hmute' | ⟨hspawn, error, hfail⟩
      · refine .child hmute' hsaid fun hborn => ?_
        obtain ⟨hnone, habsent⟩ := hearly (hspeech.unspawned hborn)
        refine ⟨hnone, ?_⟩
        rcases hspeech.stderr with hsame | htake
        · rw [hsame, habsent]
        · have hborn' := hspeech.unspawned hborn
          simp [htake] at hborn'
      · obtain ⟨hnone, habsent⟩ := hearly (by simp [hspawn])
        refine .failing error (hspeech.spec ▸ hfail) hnone ?_
        rcases hspeech.stderr with hsame | htake
        · rw [hsame, habsent]
        · rw [hspawn] at htake
          cases htake
  | failing error htask hsaid habsent =>
      cases answer with
      | go =>
          -- the line is pushed
          simp only [World.stepTask, htask, Option.some.injEq] at h
          subst h
          obtain rfl := Option.some.inj ((Function.update_self r _ _).symm.trans hr')
          refine .failed error rfl rfl ?_ habsent
          rw [hsaid, htask]
          rfl
      | _ => simp [World.stepTask, htask] at h
  | failed error hmute hchildless hsaid habsent =>
      rw [Task.speaks_of_mute hmute, List.append_nil]
      have hmute' : run'.task.mute = true := by
        rcases hspeech.mute hmute with hmute' | ⟨hspawn, -⟩
        · exact hmute'
        · simp [hspawn] at hchildless
      refine .failed error hmute' (hspeech.childless hchildless) (hspeech.spec ▸ hsaid) ?_
      rcases hspeech.stderr with hsame | htake
      · rw [hsame, habsent]
      · simp [htake] at hchildless

theorem Voices.beside (hv : Voices run said) (hb : run.Beside run') : Voices run' said := by
  cases hv with
  | child hmute hsaid hearly =>
      rcases hb.task with hsame | ⟨hqueued, hspawn⟩
      · refine .child (hsame ▸ hmute) hsaid fun hborn => ?_
        obtain ⟨hnone, habsent⟩ := hearly (hsame ▸ hborn)
        exact ⟨hnone, hb.absent habsent⟩
      · obtain ⟨hnone, habsent⟩ := hearly (by simp [hqueued])
        exact .child (by simp [hspawn]) hsaid fun _ => ⟨hnone, hb.absent habsent⟩
  | failing error htask hsaid habsent =>
      rcases hb.task with hsame | ⟨hqueued, -⟩
      · exact .failing error (by rw [hsame, hb.spec, htask]) hsaid (hb.absent habsent)
      · rw [hqueued] at htask
        cases htask
  | failed error hmute hchildless hsaid habsent =>
      rcases hb.task with hsame | ⟨hqueued, -⟩
      · exact .failed error (hsame ▸ hmute) (hsame ▸ hchildless) (hb.spec ▸ hsaid)
          (hb.absent habsent)
      · simp [hqueued] at hchildless

/-- **A step adds what the run's reader or its task says.** -/
theorem voices_next (hs : Sound w) (hv : Voices run said) (hr : w.runs r = some run)
    (h : w.next a = some w') (hr' : w'.runs r = some run') :
    Voices run' (said ++ w.utters r a) := by
  rcases utters_cases w r a with ⟨answer, rfl⟩ | hnone | ⟨line, rfl, hline⟩
  · rw [utters_task hr]
    exact voices_stepTask hv (next_task hr h) hr'
  · rw [hnone, List.append_nil]
    rcases next_beside hs hr h with ⟨answer, rfl, hstep⟩ | ⟨run₂, hr₂, hb⟩
    · have hv' := voices_stepTask hv hstep hr'
      rwa [← utters_task hr, hnone, List.append_nil] at hv'
    · obtain rfl : run' = run₂ := Option.some.inj (hr'.symm.trans hr₂)
      exact hv.beside hb
  · -- the reader is there, so the child was spawned
    have hthere : run.stderr ≠ .absent := fun habsent => by
      rw [ne_read_of_absent hr habsent] at h
      cases h
    rcases next_beside hs hr h with ⟨answer, hne, -⟩ | ⟨run₂, hr₂, hb⟩
    · cases hne
    · obtain rfl : run' = run₂ := Option.some.inj (hr'.symm.trans hr₂)
      rw [hline]
      cases hv with
      | failing _ _ _ habsent | failed _ _ _ _ habsent => exact absurd habsent hthere
      | child hmute hsaid hearly =>
          have hspawned : run.task.unspawned = true → False := fun hborn =>
            hthere (hearly hborn).2
          have hchild : ∀ l ∈ said ++ [(Origin.child, line)], l.1 = .child := by
            intro l hl
            rcases List.mem_append.mp hl with hl | hl
            · exact hsaid l hl
            · rw [List.mem_singleton.mp hl]
          rcases hb.task with hsame | ⟨hqueued, -⟩
          · exact .child (hsame ▸ hmute) hchild fun hborn => (hspawned (hsame ▸ hborn)).elim
          · exact (hspawned (by simp [hqueued])).elim

end Voices

/-! ### The tail on its way -/

/-- What a readiness probe adds to a tail: nothing, or how its deadline passed. -/
def ProbeLines (lines : List String) : Prop := lines = [] ∨ ∃ detail, lines = ["probe: " ++ detail]

/-- The lines that a task is to add to its tail. -/
@[simp] def Task.extra : Task → List String
  | terminate _ extra | reap _ extra => extra
  | drainReaders f | stderrTailSnapshot f | classify f _ => f.extraTail
  | log _ _ next | emit _ next => next.extra
  | _ => []

@[simp] theorem Task.extra_note (line : String) (next : Task) : (note line next).extra = next.extra :=
  rfl

def ServiceState.tail : ServiceState → Option (List String)
  | failed _ tail => some tail
  | _ => none

/-- The tail that a task has taken. -/
@[simp] def Task.tail : Task → Option (List String)
  | classify _ tail => some tail
  | removeRecord state _ | setTerminal state _ => state.1.tail
  | log _ _ next | emit _ next => next.tail
  | _ => none

@[simp] theorem Task.tail_note (line : String) (next : Task) : (note line next).tail = next.tail :=
  rfl

/-- A tail that is the end of what the run had said, with the probe's lines. -/
def TailOf (taken : Option Said) (tail : List String) : Prop :=
  ∃ own extra, taken = some own ∧ tail = (own.map Prod.snd).rtake stderrTailMax ++ extra ∧
    ProbeLines extra

section Tail

variable {w w' : World} {r : RunId} {run run' : Run} {a : Action}

theorem Task.tailTaken_of_ended {t : Task} (h : t.ended = true) : t.tailTaken = true := by
  induction t with
  | log _ _ next ih | emit _ next ih => exact ih h
  | _ => simp at h ⊢

theorem probeLines_nil : ProbeLines [] := .inl rfl

theorem classify_tail {f : Finish} {b : Bool} {tail tail' : List String}
    (h : (f.classify b tail).1.tail = some tail') : tail' = tail := by
  unfold Finish.classify at h
  split at h
  · cases b <;> simp [classifyExitDuringProbe, ServiceState.tail] at h
    exact h.symm
  · unfold classifyExit at h
    cases b with
    | true => simp [ServiceState.tail] at h
    | false =>
        cases hst : f.status with
        | none =>
            simp [hst, ServiceState.tail] at h
            exact h.symm
        | some s =>
            simp only [hst] at h
            cases hok : s.success <;> simp [hok, ServiceState.tail] at h
            exact h.symm

/-- How a step bears on the tail of run `r`. -/
structure Tails (w : World) (r : RunId) (a : Action) (run run' : Run) : Prop where
  id : run'.id = run.id
  spec : run'.spec = run.spec
  extra : ProbeLines run.task.extra → ProbeLines run'.task.extra
  taken : run.task.tailTaken = true → run'.task.tailTaken = true
  tail : ∀ tail, run'.task.tail = some tail → run.task.tail = some tail ∨
    ∃ f, run.task = .stderrTailSnapshot f ∧ a = .task r .go ∧
      tail = w.stderrTail run.id ++ f.extraTail

theorem stepTask_tails {answer : Answer} (h : w.stepTask r run answer = some w') :
    ∃ run', w'.runs r = some run' ∧ Tails w r (.task r answer) run run' := by
  have hgoto : ∀ (w₁ : World) (run₁ : Run) (t : Task),
      Tails w r (.task r answer) run { run₁ with task := t } →
      ∃ run', (w₁.goto r run₁ t).runs r = some run' ∧ Tails w r (.task r answer) run run' :=
    fun w₁ run₁ t ht => ⟨_, Function.update_self r _ _, ht⟩
  have hexit : ∀ next, w.onExit r run next = some w' →
      (∀ s, ProbeLines run.task.extra → ProbeLines (next s).extra) →
      (∀ s, (next s).tail = none) → run.task.tailTaken = false →
      ∃ run', w'.runs r = some run' ∧ Tails w r (.task r answer) run run' := by
    intro next h hextra htail huntaken
    unfold World.onExit at h
    split at h
    · cases h
      refine hgoto w run _ ⟨rfl, rfl, hextra _, fun ht => ?_, fun tail ht => ?_⟩
      · simp [huntaken] at ht
      · simp [htail] at ht
    · cases h
    · cases h
  unfold World.stepTask at h
  split at h
  case h_3 pid ht =>
    cases h
    refine hgoto _ _ _ ⟨rfl, rfl, fun _ => ?_, ?_, ?_⟩ <;> cases pid <;> simp [ht, probeLines_nil]
  case h_4 ht =>
    cases h
    refine hgoto _ _ _ ⟨rfl, rfl, fun _ => ?_, ?_, ?_⟩ <;> simp [ht, probeLines_nil]
  case h_23 ht =>
    cases h
    refine hgoto _ _ _ ⟨rfl, rfl, fun _ => ?_, ?_, fun tail htail => .inl ?_⟩ <;>
      simp_all [probeLines_nil]
  case h_6 ht =>
    split at h
    · cases h
      refine hgoto _ _ _ ⟨rfl, rfl, fun _ => ?_, ?_, ?_⟩ <;> simp [ht, probeLines_nil]
    · exact hexit _ h (fun _ _ => probeLines_nil) (fun _ => rfl) (by simp [ht])
    · cases h
      refine hgoto _ _ _ ⟨rfl, rfl, fun _ => ?_, ?_, ?_⟩ <;> simp [ht, probeLines_nil]
    · cases h
  case h_9 ht | h_12 ht | h_14 ht =>
    exact hexit _ h (fun _ _ => probeLines_nil) (fun _ => rfl) (by simp [ht])
  case h_16 ht | h_18 ht =>
    exact hexit _ h (fun _ hextra => by simpa [ht] using hextra) (fun _ => rfl) (by simp [ht])
  case h_10 ht =>
    cases h
    refine hgoto _ _ _ ⟨rfl, rfl, fun _ => .inr ⟨_, rfl⟩, ?_, ?_⟩ <;> simp [ht]
  case h_15 ht =>
    split at h
    · cases h
      refine hgoto _ _ _ ⟨rfl, rfl, fun _ => ?_, ?_, ?_⟩ <;> simp [ht, probeLines_nil]
    · cases h
  case h_17 ht | h_20 ht =>
    cases h
    refine hgoto _ _ _ ⟨rfl, rfl, fun hextra => ?_, ?_, ?_⟩
    · simpa [ht] using hextra
    · simp [ht]
    · simp
  case h_19 ht =>
    split at h
    · cases h
      refine hgoto _ _ _ ⟨rfl, rfl, fun hextra => ?_, ?_, ?_⟩
      · simpa [ht] using hextra
      · simp [ht]
      · simp
    · cases h
  case h_21 f ht =>
    -- the tail is taken
    cases h
    refine hgoto _ _ _ ⟨rfl, rfl, fun hextra => ?_, fun _ => rfl, fun tail htail => ?_⟩
    · simpa [ht] using hextra
    · exact .inr ⟨f, ht, rfl, by simpa using htail.symm⟩
  case h_22 f tail ht =>
    cases h
    refine hgoto _ _ _ ⟨rfl, rfl, fun _ => probeLines_nil, fun _ => rfl, fun tail' htail => .inl ?_⟩
    rw [classify_tail htail, ht]
    rfl
  case h_24 ht =>
    cases h
    refine hgoto _ _ _ ⟨rfl, rfl, fun _ => probeLines_nil, ?_, ?_⟩ <;> simp
  case h_25 ht | h_26 ht =>
    cases h
    refine hgoto _ _ _ ⟨rfl, rfl, fun hextra => ?_, fun htaken => ?_, fun tail htail => .inl ?_⟩
    · simpa [ht] using hextra
    · simpa [ht] using htaken
    · simpa [ht] using htail
  case h_27 => cases h
  case h_1 ht | h_2 ht | h_5 ht | h_7 ht | h_8 ht | h_11 ht | h_13 ht =>
    cases h
    refine hgoto _ _ _ ⟨rfl, rfl, fun _ => ?_, ?_, ?_⟩ <;> simp [ht, probeLines_nil]

theorem tails_next (hs : Sound w) (hr : w.runs r = some run) (h : w.next a = some w')
    (hr' : w'.runs r = some run') : Tails w r a run run' := by
  rcases next_beside hs hr h with ⟨answer, rfl, hstep⟩ | ⟨run₂, hr₂, hb⟩
  · obtain ⟨run₂, hr₂, ht⟩ := stepTask_tails hstep
    obtain rfl : run' = run₂ := Option.some.inj (hr'.symm.trans hr₂)
    exact ht
  · obtain rfl : run' = run₂ := Option.some.inj (hr'.symm.trans hr₂)
    obtain ⟨run₃, hr₃, hold⟩ := (aged_next hs h).kept r run hr
    obtain rfl : run' = run₃ := Option.some.inj (hr'.symm.trans hr₃)
    rcases hb.task with hsame | ⟨hqueued, hspawn⟩
    · exact ⟨hold.id, hb.spec, fun hx => hsame ▸ hx, fun ht => hsame ▸ ht, fun _ ht =>
        .inl (hsame ▸ ht)⟩
    · refine ⟨hold.id, hb.spec, fun _ => ?_, ?_, ?_⟩ <;> simp [hqueued, hspawn, probeLines_nil]

end Tail

/-- **What is known of a run and of what it has said.** -/
structure Evidence (w : World) (run : Run) (said : Said) (taken : Option Said)
    (disturbed : Bool) : Prop where
  voices : Voices run said
  own : ∀ own, taken = some own → own <+: said ∧ OwnWords run own
  extra : ProbeLines run.task.extra
  buffer : disturbed = false → run.task.tailTaken = false →
    w.stderrTail run.id = (said.map Prod.snd).rtake stderrTailMax
  tail : disturbed = false → ∀ tail, run.task.tail = some tail → TailOf taken tail

/-- What is known of a history. -/
structure History.Sound (h : History) : Prop where
  world : Proc.Sound h.world
  evidence : ∀ r run, h.world.runs r = some run →
    Evidence h.world run (h.said r) (h.taken r) (h.disturbed r)
  fresh : ∀ r, h.world.runs r = none → h.said r = [] ∧ h.taken r = none

section Evidence

variable {h h' : History} {w w' : World} {r : RunId} {run run' : Run} {a : Action}

/-- **The buffer takes what the run says**, as long as no other reader pushes. -/
theorem buffer_next (hs : Sound w) (hvoices : ∀ r run, w.runs r = some run → ∃ said, Voices run said)
    (hr : w.runs r = some run) (huntaken : run.task.tailTaken = false)
    (hnot : w.disturbs r a = false) (h : w.next a = some w') :
    w'.stderrTail run.id = pushedTo (w.stderrTail run.id) (w.utters r a) := by
  have hunended : run.task.ended = false := by
    by_contra hended
    rw [Task.tailTaken_of_ended (by simpa using hended)] at huntaken
    cases huntaken
  have hcur := hs.unended r run hr hunended
  obtain ⟨e, he, -, -⟩ := World.current_eq_some.mp hcur
  cases a with
  | call c =>
      simp only [World.next, Option.ite_none_right_eq_some, Option.some.injEq] at h
      obtain ⟨-, rfl⟩ := h
      rfl
  | caller k =>
      obtain ⟨c, hc, h⟩ := Option.bind_eq_some_iff.mp h
      obtain ⟨⟨w₁, c'⟩, hstep, h⟩ := Option.bind_eq_some_iff.mp h
      cases h
      exact stepCall_stderrTail hcur hstep
  | task r₂ answer =>
      obtain ⟨run₂, hr₂, h⟩ := Option.bind_eq_some_iff.mp h
      by_cases heq : r₂ = r
      · subst heq
        rw [hr, Option.some.injEq] at hr₂
        subst hr₂
        rw [utters_task hr]
        rcases stepTask_stderrTail h with ⟨hnone, hsame⟩ | ⟨line, hline, hpush⟩
        · rw [hnone, hsame, pushedTo_nil]
        · rw [hline, hpush, World.stderrTail_stderr he]
          rfl
      · have hsilent : w.utters r (.task r₂ answer) = [] := if_neg heq
        rw [hsilent, pushedTo_nil]
        rcases stepTask_stderrTail h with ⟨-, hsame⟩ | ⟨line, hline, hpush⟩
        · exact hsame run.id
        · rw [hpush]
          refine World.stderrTail_other _ _ fun hid => ?_
          -- a task that speaks has not ended, and there is one such run of a service
          obtain ⟨said, hv⟩ := hvoices r₂ run₂ hr₂
          cases hv with
          | child hmute | failed _ hmute =>
              rw [Task.speaks_of_mute hmute] at hline
              cases hline
          | failing error htask =>
              exact heq (hs.unique hr₂ hr hid.symm (by simp [htask]) hunended)
  | read r₂ source line =>
      obtain ⟨run₂, hr₂, h⟩ := Option.bind_eq_some_iff.mp h
      simp only [Option.ite_none_right_eq_some, Option.some.injEq] at h
      obtain ⟨-, rfl⟩ := h
      have hrow : ((w.pushLog run₂.id source line).setRun r₂
          (World.setReader run₂ source (.emit (w.logLine line)))).stderrTail run.id =
            (w.pushLog run₂.id source line).stderrTail run.id := rfl
      rw [hrow]
      cases source with
      | stdout => exact World.stderrTail_stdout line run.id
      | stderr =>
          by_cases heq : r₂ = r
          · subst heq
            rw [hr, Option.some.injEq] at hr₂
            subst hr₂
            rw [World.stderrTail_stderr he, World.utters, if_pos rfl]
            rfl
          · have hsilent : w.utters r (.read r₂ .stderr line) = [] := if_neg heq
            rw [hsilent, pushedTo_nil]
            refine World.stderrTail_other _ _ fun hid => ?_
            simp [World.disturbs, hr, hr₂, heq, huntaken, hid] at hnot
  | exit r₂ _ | eof r₂ _ =>
      obtain ⟨run₂, hr₂, h⟩ := Option.bind_eq_some_iff.mp h
      simp only [Option.ite_none_right_eq_some, Option.some.injEq] at h
      obtain ⟨-, rfl⟩ := h
      rfl
  | readerEmit r₂ source =>
      obtain ⟨run₂, hr₂, h⟩ := Option.bind_eq_some_iff.mp h
      split at h
      · cases h
        rfl
      · cases h
  | tick =>
      cases h
      rfl

theorem takesTail_eq_true (hr : w.runs r = some run) :
    w.takesTail r a = true ↔ a = .task r .go ∧ ∃ f, run.task = .stderrTailSnapshot f := by
  constructor
  · intro ht
    unfold World.takesTail at ht
    split at ht
    · rw [hr, Option.any_some, Bool.and_eq_true, beq_iff_eq] at ht
      obtain ⟨rfl, ht⟩ := ht
      split at ht
      · next f hf => exact ⟨rfl, f, hf⟩
      · cases ht
    · cases ht
  · rintro ⟨rfl, f, hf⟩
    simp [World.takesTail, hr, hf]

theorem evidence_next {said : Said} {taken : Option Said} {disturbed : Bool} (hs : Sound w)
    (hvoices : ∀ r run, w.runs r = some run → ∃ said, Voices run said)
    (hev : Evidence w run said taken disturbed) (hr : w.runs r = some run)
    (h : w.next a = some w') (hr' : w'.runs r = some run') :
    Evidence w' run' (said ++ w.utters r a) (if w.takesTail r a then some said else taken)
      (disturbed || w.disturbs r a) := by
  have htails := tails_next hs hr h hr'
  constructor
  · exact voices_next hs hev.voices hr h hr'
  · intro own hown
    have hwords : own <+: said ∧ OwnWords run own := by
      split at hown
      · cases hown
        exact ⟨List.prefix_refl said, hev.voices.ownWords⟩
      · exact hev.own own hown
    refine ⟨hwords.1.trans (List.prefix_append said _), ?_⟩
    simpa [OwnWords, htails.spec] using hwords.2
  · exact htails.extra hev.extra
  · intro hcalm huntaken'
    obtain ⟨hcalm, hnot⟩ := Bool.or_eq_false_iff.mp hcalm
    have huntaken : run.task.tailTaken = false := by
      by_contra htaken
      rw [htails.taken (by simpa using htaken)] at huntaken'
      cases huntaken'
    rw [htails.id, buffer_next hs hvoices hr huntaken hnot h, hev.buffer hcalm huntaken,
      pushedTo_rtake, List.map_append]
  · intro hcalm tail htail
    obtain ⟨hcalm, -⟩ := Bool.or_eq_false_iff.mp hcalm
    rcases htails.tail tail htail with hbefore | ⟨f, hf, ha, rfl⟩
    · -- the tail was taken before
      have hnot : ¬ w.takesTail r a = true := fun ht => by
        obtain ⟨-, f, hf⟩ := (takesTail_eq_true hr).mp ht
        simp [hf] at hbefore
      rw [if_neg hnot]
      exact hev.tail hcalm tail hbefore
    · rw [if_pos ((takesTail_eq_true hr).mpr ⟨ha, f, hf⟩)]
      refine ⟨said, f.extraTail, rfl, ?_, ?_⟩
      · rw [hev.buffer hcalm (by simp [hf])]
      · simpa [hf] using hev.extra

/-- A run that is not there says nothing, and one that is made has not spoken yet. -/
theorem silent_of_none (hnone : w.runs r = none) (h : w.next a = some w') :
    w.utters r a = [] ∧ w.takesTail r a = false := by
  constructor
  · rcases utters_cases w r a with ⟨answer, rfl⟩ | hsilent | ⟨line, rfl, -⟩
    · simp [World.next, hnone] at h
    · exact hsilent
    · simp [World.next, hnone] at h
  · unfold World.takesTail
    split <;> simp [hnone]

theorem evidence_made {disturbed : Bool} (hs' : Sound w') (hs : Sound w) (hmade : Made w r run)
    (h : w.next a = some w') (hr : w'.runs r = some run) : Evidence w' run [] none disturbed := by
  constructor
  · exact .child (by simp [hmade.task]) (by simp) fun _ => ⟨rfl, hmade.absent⟩
  · intro own hown
    cases hown
  · simp [hmade.task, probeLines_nil]
  · intro _ _
    have hcur : w'.current run.id = some r := hs'.unended r run hr (by simp [hmade.task])
    rcases current_next hs h hcur with hbefore | ⟨-, hempty⟩
    · rw [hmade.idle] at hbefore
      cases hbefore
    · rw [hempty]
      rfl
  · intro _ tail htail
    simp [hmade.task] at htail

theorem historySound_next (hs : h.Sound) (hn : h.next a = some h') : h'.Sound := by
  have hw := History.next_world hn
  obtain ⟨w', -, rfl⟩ := Option.map_eq_some_iff.mp hn
  have hs' : Proc.Sound w' := sound_next hs.world hw
  have haged := aged_next hs.world hw
  refine ⟨hs', fun r run' hr' => ?_, fun r hnone => ?_⟩
  · cases hr : h.world.runs r with
    | none =>
        obtain ⟨hsaid, htaken⟩ := hs.fresh r hr
        obtain ⟨hsilent, hnot⟩ := silent_of_none hr hw
        simp only [hsaid, htaken, hsilent, hnot]
        exact evidence_made hs' hs.world (haged.made r run' hr hr') hw hr'
    | some run =>
        exact evidence_next hs.world (fun r run hr => ⟨_, (hs.evidence r run hr).voices⟩)
          (hs.evidence r run hr) hr hw hr'
  · have hnone' : h.world.runs r = none := by
      cases hr : h.world.runs r with
      | none => rfl
      | some run =>
          obtain ⟨run', hr', -⟩ := haged.kept r run hr
          exact absurd (hr'.symm.trans hnone) (by simp)
    obtain ⟨hsaid, htaken⟩ := hs.fresh r hnone'
    obtain ⟨hsilent, hnot⟩ := silent_of_none hnone' hw
    simp only [hsaid, htaken, hsilent, hnot]
    exact ⟨rfl, rfl⟩

theorem historySound_of_reachable : recorded.Reachable h → h.Sound := by
  apply Lts.System.Reaches.invariant
  · rintro h ⟨⟨hentries, hruns, hcalls, hevents⟩, hsaid, htaken, -⟩
    refine ⟨sound_of_reachable (.init ⟨hentries, hruns, hcalls, hevents⟩), fun r run hr => ?_,
      fun r _ => ⟨hsaid r, htaken r⟩⟩
    rw [hruns r] at hr
    cases hr
  · exact fun h a h' hs _ hn => historySound_next hs hn

end Evidence

/-! ### The failed row -/

/-- The row's tail is the evidence of the last run of the service. -/
def Failed (h : History) (id : ServiceId) (tail : List String) : Prop :=
  ∃ r run, h.world.runs r = some run ∧ run.id = id ∧ run.task.ended = true ∧
    (∀ r' run', h.world.runs r' = some run' → run'.id = id → r' ≤ r) ∧
    (h.disturbed r = false → TailOf (h.taken r) tail)

section Failed

variable {h h' : History} {w w' : World} {r : RunId} {run : Run} {id : ServiceId} {a : Action}
  {state : ServiceState}

/-- No call makes a row failed. -/
theorem stepCall_rows {c : Call} {p : World × Call} (hdead : state.tail ≠ none)
    (h : w.stepCall c = some p) (hrow : p.1.rows id = some state) : w.rows id = some state := by
  have hother : ∀ (i : ServiceId) (row : Option ServiceState), row ≠ some state →
      Function.update w.rows i row id = some state → w.rows id = some state := by
    intro i row hrow h
    by_cases hi : id = i
    · subst hi
      rw [Function.update_self] at h
      exact absurd h hrow
    · rwa [Function.update_of_ne hi] at h
  cases c with
  | returned result => cases h
  | emit event next =>
      cases h
      exact hrow
  | log i line next =>
      cases h
      rwa [World.rows_of_key (World.quiet_pushLog _ _).key] at hrow
  | register spec =>
      cases h
      unfold World.register at hrow
      split at hrow
      · exact hrow
      · rw [rows_insert] at hrow
        refine hother spec.id _ ?_ hrow
        rintro ⟨⟩
        exact hdead rfl
  | unregister i =>
      cases h
      unfold World.unregister at hrow
      split at hrow
      · exact hrow
      · split at hrow
        · exact hrow
        · rw [rows_remove] at hrow
          exact hother i _ (by simp) hrow
  | start i =>
      cases h
      unfold World.start at hrow
      split at hrow
      · exact hrow
      · split at hrow
        · exact hrow
        · have hinsert : ∀ (w₁ : World) (e : Entry), w₁.rows = w.rows → e.state = .starting →
              (w₁.insert i e).rows id = some state → w.rows id = some state := by
            intro w₁ e hsame hstate h
            rw [rows_insert, hsame] at h
            refine hother i _ ?_ h
            rw [hstate]
            rintro ⟨⟩
            exact hdead rfl
          exact hinsert _ _ rfl rfl hrow
  | stop i =>
      cases h
      unfold World.stop at hrow
      split at hrow
      · exact hrow
      · split at hrow <;> exact hrow
  | spawn r₂ =>
      cases h
      unfold World.spawnTask at hrow
      split at hrow
      · exact hrow
      · split at hrow <;> exact hrow
  | trySend control =>
      cases control with
      | none =>
          cases h
          exact hrow
      | some r₂ =>
          cases h
          unfold World.trySend at hrow
          split at hrow
          · exact hrow
          · split at hrow <;> exact hrow

/-- **A row that is failed** was failed before, or a run of the service has just written it. -/
theorem rows_next (hdead : state.tail ≠ none) (h : w.next a = some w')
    (hrow : w'.rows id = some state) :
    w.rows id = some state ∨ ∃ r run detail, w.runs r = some run ∧ run.id = id ∧
      WritesNext run.task state detail .done ∧
      ∃ run', w'.runs r = some run' ∧ run'.task.ended = true := by
  cases next_cases h with
  | call | tick | readerEmit => exact .inl hrow
  | own _ hw _ _ => exact .inl ((congrFun (World.rows_of_key hw.key) id).symm.trans hrow)
  | caller _ hstep => exact .inl (stepCall_rows hdead hstep hrow)
  | @task r₂ run₂ answer _ hr₂ hstep =>
      cases stepTask_cases hstep with
      | quiet hw _ _ => exact .inl ((congrFun (World.rows_of_key hw.key) id).symm.trans hrow)
      | emit _ => exact .inl hrow
      | @write written detail next ht =>
          have hset : (w.setState run₂.id written).rows =
              (Event.stateChanged run₂.id written detail).apply w.rows := rows_setState
          have hrow' : (w.setState run₂.id written).rows id = some state := hrow
          rw [hset] at hrow'
          by_cases hid : id = run₂.id
          · subst hid
            rw [Event.apply, Function.update_self, Option.map_eq_some_iff] at hrow'
            obtain ⟨-, -, rfl⟩ := hrow'
            generalize htask : run₂.task = t at ht
            cases ht with
            | running => exact absurd rfl hdead
            | terminal terminal detail =>
                exact .inr ⟨r₂, run₂, detail, hr₂, rfl, htask ▸ .terminal terminal detail, _,
                  Function.update_self r₂ _ _, rfl⟩
          · rw [Event.apply, Function.update_of_ne hid] at hrow'
            exact .inl hrow'

theorem tail_of_writesNext {t : Task} {detail : Option String} {next : Task} {tail : List String}
    (h : WritesNext t state detail next) (htail : state.tail = some tail) : t.tail = some tail := by
  cases h with
  | running => cases htail
  | terminal terminal detail => exact htail

/-- The runs of a service whose row is not live have ended. -/
theorem ended_of_row (hs : Sound w) (hrow : w.rows run.id = some state) (hdead : state.live = false)
    (hr : w.runs r = some run) : run.task.ended = true := by
  by_contra hunended
  obtain ⟨e, he, hlive, -⟩ :=
    World.current_eq_some.mp (hs.unended r run hr (by simpa using hunended))
  rw [World.rows, he, Option.map_some, Option.some.injEq] at hrow
  rw [hrow, hdead] at hlive
  cases hlive

theorem live_of_tail {tail : List String} (h : state.tail = some tail) : state.live = false := by
  cases state with
  | failed _ _ => rfl
  | _ => cases h

/-- What a history keeps of a run that does not take its tail. -/
theorem tailOf_kept {tail : List String} (hn : h.next a = some h')
    (hnot : h.world.takesTail r a = false) (htail : h.disturbed r = false → TailOf (h.taken r) tail)
    (hcalm : h'.disturbed r = false) : TailOf (h'.taken r) tail := by
  obtain ⟨w', -, rfl⟩ := Option.map_eq_some_iff.mp hn
  obtain ⟨hcalm, -⟩ := Bool.or_eq_false_iff.mp hcalm
  simpa [hnot] using htail hcalm

theorem takesTail_eq_false (hr : w.runs r = some run) (h : run.task.tailTaken = true) :
    w.takesTail r a = false := by
  rw [Bool.eq_false_iff]
  intro ht
  obtain ⟨-, f, hf⟩ := (takesTail_eq_true hr).mp ht
  simp [hf] at h

/-- The run behind a failed row stays the last one, and its record stays as it is. -/
theorem failed_kept {tail : List String} (hs : h.Sound) (hn : h.next a = some h')
    (hrow : h'.world.rows id = some state) (hdead : state.live = false) (hf : Failed h id tail) :
    Failed h' id tail := by
  obtain ⟨r, run, hr, hid, hended, hlast, htail⟩ := hf
  have hw := History.next_world hn
  have hs' : Proc.Sound h'.world := sound_next hs.world hw
  have haged := aged_next hs.world hw
  obtain ⟨run', hr', hold⟩ := haged.kept r run hr
  refine ⟨r, run', hr', hold.id.trans hid, hold.ended hended, fun r₂ run₂ hr₂ hid₂ => ?_, ?_⟩
  · rcases haged.cases hr₂ with ⟨run₃, hr₃, hold₃⟩ | hmade
    · exact hlast r₂ run₃ hr₃ (hold₃.id.symm.trans hid₂)
    · -- a run that is made makes its row live
      have hended₂ := ended_of_row hs' (hid₂ ▸ hrow) hdead hr₂
      simp [hmade.task] at hended₂
  · exact tailOf_kept hn (takesTail_eq_false hr (Task.tailTaken_of_ended hended)) htail

/-- A tail that has just been written is the evidence of the run that wrote it. -/
theorem failed_written {tail : List String} {detail : Option String} (hs : h.Sound)
    (hsucc : Succession h.world) (hn : h.next a = some h') (hr : h.world.runs r = some run)
    (hwrites : WritesNext run.task state detail .done) (htail : state.tail = some tail)
    (hended : ∃ run', h'.world.runs r = some run' ∧ run'.task.ended = true) :
    Failed h' run.id tail := by
  have hw := History.next_world hn
  have haged := aged_next hs.world hw
  obtain ⟨run', hr', hended'⟩ := hended
  obtain ⟨run₁, hr₁, hold⟩ := haged.kept r run hr
  obtain rfl : run' = run₁ := Option.some.inj (hr'.symm.trans hr₁)
  have hunended : run.task.ended = false :=
    Task.unended_of_decided (decided_of_writesNext hwrites)
  have htaken : run.task.tailTaken = true := by
    generalize run.task = t at hwrites
    cases hwrites with
    | terminal _ _ => rfl
  refine ⟨r, run', hr', hold.id, hended', fun r₂ run₂ hr₂ hid₂ => ?_, ?_⟩
  · by_contra hlt
    rcases haged.cases hr₂ with ⟨run₃, hr₃, hold₃⟩ | hmade
    · -- the run that writes would have ended before
      have hended := hsucc r r₂ run run₃ (not_le.mp hlt) hr hr₃ (hold₃.id ▸ hid₂.symm)
      rw [hunended] at hended
      cases hended
    · have hcur := hs.world.unended r run hr hunended
      rw [← hid₂, hmade.idle] at hcur
      cases hcur
  · refine tailOf_kept hn (takesTail_eq_false hr htaken) fun hcalm => ?_
    exact (hs.evidence r run hr).tail hcalm tail (tail_of_writesNext hwrites htail)

theorem failed_next (hs : h.Sound) (hsucc : Succession h.world)
    (hf : ∀ id state tail, h.world.rows id = some state → state.tail = some tail → Failed h id tail)
    (hn : h.next a = some h') :
    ∀ id state tail, h'.world.rows id = some state → state.tail = some tail →
      Failed h' id tail := by
  intro id state tail hrow htail
  have hdead : state.tail ≠ none := by simp [htail]
  rcases rows_next hdead (History.next_world hn) hrow with hbefore |
    ⟨r, run, detail, hr, rfl, hwrites, hended⟩
  · exact failed_kept hs hn hrow (live_of_tail htail) (hf id state tail hbefore htail)
  · exact failed_written hs hsucc hn hr hwrites htail hended

/-- **Crash evidence belongs to the run that crashed**: the tail of a `Failed` state is
the end of what the last run of the service had said when it took its tail, in order,
with the probe's lines after it. What it had said is lines that were read from its
child, or, where there was no child, why it could not be spawned. -/
theorem evidence_is_own {e : Entry} {exit : Option Int} {tail : List String}
    (hr : recorded.Reachable h) (he : h.world.entries id = some e)
    (hfailed : e.state = .failed exit tail) :
    ∃ r run, h.world.runs r = some run ∧ run.id = id ∧
      (∀ r' run', h.world.runs r' = some run' → run'.id = id → r' ≤ r) ∧
      (h.disturbed r = false → ∃ own extra, h.taken r = some own ∧ own <+: h.said r ∧
        tail = (own.map Prod.snd).rtake stderrTailMax ++ extra ∧ OwnWords run own ∧
        ProbeLines extra) := by
  have hs : h.Sound := historySound_of_reachable hr
  have hall : ∀ id state tail, h.world.rows id = some state → state.tail = some tail →
      Failed h id tail := by
    have hbeside : ∀ h, recorded.Reaches Lts.System.Any h → h.Sound ∧ Succession h.world :=
      fun _ hr => ⟨historySound_of_reachable hr, succession_of_reachable (reachable_of_recorded hr)⟩
    refine Lts.System.Reaches.invariant_beside (I := fun h => ∀ id state tail,
      h.world.rows id = some state → state.tail = some tail → Failed h id tail) hbeside ?_ ?_ hr
    · rintro h ⟨⟨hentries, -⟩, -⟩ id state tail hrow
      simp [World.rows, hentries id] at hrow
    · rintro h a h' ⟨hs, hsucc⟩ hf _ hn
      exact failed_next hs hsucc hf hn
  have hrow : h.world.rows id = some e.state := by
    rw [World.rows, he, Option.map_some]
  obtain ⟨r, run, hrun, hid, -, hlast, htail⟩ := hall id e.state tail hrow (by rw [hfailed]; rfl)
  refine ⟨r, run, hrun, hid, hlast, fun hcalm => ?_⟩
  obtain ⟨own, extra, hown, heq, hextra⟩ := htail hcalm
  obtain ⟨hpast, hwords⟩ := (hs.evidence r run hrun).own own hown
  exact ⟨own, extra, hown, hpast, heq, hwords, hextra⟩

/-- A supervisor that has recorded nothing. -/
def History.new : History :=
  { world := World.new
    said := fun _ => []
    taken := fun _ => none
    disturbed := fun _ => false }

theorem reachable_new : recorded.Reachable History.new :=
  .init ⟨initial_new, fun _ => rfl, fun _ => rfl, fun _ => rfl⟩

/-- A task's way from its first log line to its terminal write, past its drain budget. -/
def upToFailed (r : RunId) (code : Int) : List Action :=
  [.exit r (some ⟨some code, "exit status"⟩), .task r .exited, .task r .elapsed, .task r .go,
    .task r .go, .task r .go, .task r .go, .task r (.removed true), .task r .go]

/-- A child says why it leaves, before it is taken to be ready. -/
theorem evidence_is_own_boom :
    ∃ (h : History) (own extra : _), h.taken 0 = some own ∧
      ["boom"] = (own.map Prod.snd).rtake stderrTailMax ++ extra ∧ ProbeLines extra := by
  obtain ⟨h, hr, hp⟩ := Lts.System.exists_of_exec (S := recorded)
    (upToReadiness ++ [.read 0 .stderr "boom"] ++ upToFailed 0 1)
    (fun h => decide (h.world.rows "web" = some (.failed (some 1) ["boom"])) &&
      decide (h.world.nextRun = 1) && !h.disturbed 0)
    reachable_new (by decide +kernel)
  simp only [Bool.and_eq_true, decide_eq_true_eq, Bool.not_eq_true'] at hp
  obtain ⟨⟨hrow, hnext⟩, hcalm⟩ := hp
  obtain ⟨e, he, hfailed⟩ := Option.map_eq_some_iff.mp hrow
  obtain ⟨r, run, hrun, -, -, htail⟩ := evidence_is_own hr he hfailed
  have hzero : r = 0 := by
    by_contra hne
    have hlast : h.world.nextRun ≤ r := hnext ▸ Nat.one_le_iff_ne_zero.mpr hne
    rw [(historySound_of_reachable hr).world.fresh r hlast] at hrun
    cases hrun
  subst hzero
  obtain ⟨own, extra, hown, -, heq, -, hextra⟩ := htail hcalm
  exact ⟨h, own, extra, hown, heq, hextra⟩

/-- A failed service with a tail that no child of it has written, and one with a line
that the reader of its earlier run pushed. -/
theorem foreign_lines :
    (∃ h : History, recorded.Reachable h ∧ h.world.nextRun = 1 ∧
      h.world.rows "web" = some (.failed none ["ERROR spawn failed: not found — /bin/service"]) ∧
      h.said 0 = [(.supervisor, "ERROR spawn failed: not found — /bin/service")]) ∧
    ∃ h : History, recorded.Reachable h ∧
      h.world.rows "web" = some (.failed (some 2) ["late"]) ∧ h.said 0 = [(.child, "late")] ∧
      h.said 1 = [] := by
  constructor
  · obtain ⟨h, hr, hp⟩ := Lts.System.exists_of_exec (S := recorded)
      (callThrough 0 (.register (sampleSpec "web")) 2 ++ callThrough 1 (.start "web") 5 ++
        .task 0 (.spawnError "not found") :: List.replicate 7 (.task 0 .go) ++
        [.task 0 (.removed true), .task 0 .go])
      (fun h => decide (h.world.nextRun = 1) && decide (h.world.rows "web" =
          some (.failed none ["ERROR spawn failed: not found — /bin/service"])) &&
        decide (h.said 0 = [(.supervisor, "ERROR spawn failed: not found — /bin/service")]))
      reachable_new (by decide +kernel)
    simp only [Bool.and_eq_true, decide_eq_true_eq] at hp
    exact ⟨h, hr, hp.1.1, hp.1.2, hp.2⟩
  · obtain ⟨h, hr, hp⟩ := Lts.System.exists_of_exec (S := recorded)
      (upToReadiness ++ upToFailed 0 1 ++ callThrough 2 (.start "web") 5 ++
        [.read 0 .stderr "late", .task 1 (.spawned (some 8)), .task 1 .go,
          .task 1 (.recorded none false)] ++ List.replicate 3 (.task 1 .go) ++ upToFailed 1 2)
      (fun h => decide (h.world.rows "web" = some (.failed (some 2) ["late"])) &&
        decide (h.said 0 = [(.child, "late")]) && decide (h.said 1 = []))
      reachable_new (by decide +kernel)
    simp only [Bool.and_eq_true, decide_eq_true_eq] at hp
    exact ⟨h, hr, hp.1.1, hp.1.2, hp.2⟩

end Failed

end OpenVHost.Proc
