/-
# Staging directories and their sweep

Installs stage a package in a directory of their own, with a lock on the `.lock` file in it, and
every install first sweeps the staging root of what earlier ones left: a directory that has not
changed for a day, and whose lock is free or is not there. The installs of one process come one
after the other, those of several processes in any order; a process may be killed at any step.
The directories have random names, taken to be new; what a sweep lists, and when a directory was
last changed, may be anything the file system could answer.

* `live_kept` — nobody but its owner removes the directory of a live install.
* `swept_unlocked` — why the pause between `mkdir` and `flock` is bounded there.
-/

import OpenVHost.Lts.Locks
import OpenVHost.Lts.System

namespace OpenVHost.Pkg.Staging

open Lts

/-! ### The system -/

/-- `STALE_AFTER`, in seconds. -/
def staleAfter : Nat := 24 * 60 * 60

/-- A name under the staging root. -/
inductive Entry where
  | never
  /-- A directory, with when it was last changed and whether its `.lock` is there. -/
  | there (modified : Nat) (lockFile : Bool)
  | gone
  deriving DecidableEq, Repr

variable {ν π : Type} [DecidableEq ν] [DecidableEq π]

/-- How far an install is. -/
inductive Phase (ν : Type) where
  | idle
  /-- In `sweep_stale`, with the time at its start and the names still to be looked at. -/
  | sweeping (now : Nat) (todo : List ν)
  /-- The directory is stale; its `.lock` is opened next. -/
  | stale (now : Nat) (name : ν) (todo : List ν)
  /-- The `.lock` is open. -/
  | opened (now : Nat) (name : ν) (todo : List ν)
  /-- In `remove_dir_all`. -/
  | removing (now : Nat) (name : ν) (todo : List ν)
  /-- In `Staging::create`, after the directory was made. -/
  | made (name : ν)
  /-- In `Staging::create`, with the `.lock` open. -/
  | locking (name : ν)
  /-- The `Staging` value is alive. -/
  | live (name : ν)
  /-- The `TempDir` of the value is being dropped, which removes it; then the lock goes. -/
  | dropping (name : ν)
  | ended
  deriving DecidableEq

structure World (ν π : Type) where
  clock : Nat
  dirs : ν → Entry
  locks : Locks ν π
  phases : π → Phase ν

namespace World

def setDir (w : World ν π) (name : ν) (entry : Entry) : World ν π :=
  { w with dirs := fun n => if n = name then entry else w.dirs n }

def setLocks (w : World ν π) (locks : Locks ν π) : World ν π := { w with locks }

def setPhase (w : World ν π) (p : π) (phase : Phase ν) : World ν π :=
  { w with phases := fun q => if q = p then phase else w.phases q }

end World

/-- A step of an install; `ok` is whether the system call succeeds. -/
inductive Step (ν : Type) where
  | readDir (names : List ν)
  | isStale (ok : Bool)
  | openLock (ok : Bool)
  | tryLockExclusive
  | unlinkLock
  | removeDir
  | giveUp
  | endSweep
  | makeDir (name : ν)
  | createLock (ok : Bool)
  | change
  | drop

namespace World

/-- What an install does next, and how far it is then. -/
def stepNext (w : World ν π) (p : π) : Phase ν → Step ν → Option (World ν π × Phase ν)
  | .idle, .readDir names => some (w, .sweeping w.clock names)
  | .sweeping now (name :: todo), .isStale ok =>
      match w.dirs name with
      | .there modified _ =>
          if ok = true ∧ staleAfter < now - modified then some (w, .stale now name todo)
          else some (w, .sweeping now todo)
      | .never | .gone => some (w, .sweeping now todo)
  | .stale now name todo, .openLock ok =>
      match w.dirs name with
      | .there _ true => some (w, if ok then .opened now name todo else .sweeping now todo)
      | .there _ false | .never | .gone =>
          -- Not found, unless the call fails in another way.
          some (w, if ok then .removing now name todo else .sweeping now todo)
  | .opened now name todo, .tryLockExclusive =>
      match w.locks.take name p with
      | some locks => some (w.setLocks locks, .removing now name todo)
      | none => some (w, .sweeping now todo)
  | .removing now name todo, .unlinkLock =>
      match w.dirs name with
      | .there modified _ => some (w.setDir name (.there modified false), .removing now name todo)
      | .never | .gone => none
  | .removing now name todo, .removeDir =>
      some ((w.setDir name .gone).setLocks (w.locks.give name p), .sweeping now todo)
  | .removing now name todo, .giveUp =>
      some (w.setLocks (w.locks.give name p), .sweeping now todo)
  | .sweeping _ _, .endSweep => some (w, .idle)
  | .idle, .makeDir name =>
      if w.dirs name = .never then some (w.setDir name (.there w.clock false), .made name) else none
  | .made name, .createLock ok =>
      match w.dirs name with
      | .there _ _ =>
          if ok then some (w.setDir name (.there w.clock true), .locking name)
          else some (w, .dropping name)
      | .never | .gone => some (w, .dropping name)
  | .locking name, .tryLockExclusive =>
      match w.locks.take name p with
      | some locks => some (w.setLocks locks, .live name)
      | none => some (w, .dropping name)
  | .live name, .change =>
      match w.dirs name with
      | .there _ lockFile => some (w.setDir name (.there w.clock lockFile), .live name)
      | .never | .gone => none
  | .live name, .drop => some (w, .dropping name)
  | .dropping name, .unlinkLock =>
      match w.dirs name with
      | .there modified _ => some (w.setDir name (.there modified false), .dropping name)
      | .never | .gone => none
  | .dropping name, .removeDir =>
      some ((w.setDir name .gone).setLocks (w.locks.give name p), .idle)
  | .dropping name, .giveUp => some (w.setLocks (w.locks.give name p), .idle)
  | _, _ => none

end World

inductive Action (ν π : Type) where
  | step (p : π) (s : Step ν)
  /-- The end of a process, at any point. -/
  | kill (p : π)
  /-- Time passes, also while the machine sleeps. -/
  | tick (seconds : Nat)

namespace World

def next (w : World ν π) : Action ν π → Option (World ν π)
  | .step p s => (w.stepNext p (w.phases p) s).map fun r => r.1.setPhase p r.2
  | .kill p => some ((w.setLocks (w.locks.giveAll p)).setPhase p .ended)
  | .tick seconds => some { w with clock := w.clock + seconds }

/-- No install has begun; of earlier ones anything may be left. -/
def Initial (w : World ν π) : Prop := (∀ p, w.phases p = .idle) ∧ w.locks = Locks.free

/-- Whether an install will not have been in `Staging::create` for more than a day when some time
has passed. -/
def brief (w : World ν π) (seconds : Nat) (p : π) : Bool :=
  match w.phases p with
  | .made name | .locking name =>
      match w.dirs name with
      | .there modified _ => w.clock + seconds ≤ modified + staleAfter
      | .never | .gone => true
  | _ => true

/-- **The condition**: no install stands for more than a day between `mkdir` and `flock`.
A sweep takes a directory without a lock for one that a dead process has left once it is
that old, and has nothing else to tell the two apart. -/
def Brief (w : World ν π) : Action ν π → Prop
  | .tick seconds => ∀ p, w.brief seconds p = true
  | .step _ _ | .kill _ => True

end World

def system (ν π : Type) [DecidableEq ν] [DecidableEq π] : System (World ν π) (Action ν π) :=
  ⟨World.Initial, World.next⟩

section Fields

omit [DecidableEq π]

variable (w : World ν π) (name n : ν) (entry : Entry) (locks : Locks ν π)

@[simp, grind =] theorem World.setDir_dirs :
    (w.setDir name entry).dirs n = if n = name then entry else w.dirs n := rfl
@[simp, grind =] theorem World.setDir_clock : (w.setDir name entry).clock = w.clock := rfl
@[simp, grind =] theorem World.setDir_locks : (w.setDir name entry).locks = w.locks := rfl
@[simp, grind =] theorem World.setDir_phases : (w.setDir name entry).phases = w.phases := rfl

omit [DecidableEq ν]

@[simp, grind =] theorem World.setLocks_dirs : (w.setLocks locks).dirs n = w.dirs n := rfl
@[simp, grind =] theorem World.setLocks_clock : (w.setLocks locks).clock = w.clock := rfl
@[simp, grind =] theorem World.setLocks_locks : (w.setLocks locks).locks n = locks n := rfl
@[simp, grind =] theorem World.setLocks_phases : (w.setLocks locks).phases = w.phases := rfl

end Fields

/-! ### What one step does -/

namespace Phase

/-- The directory of an install. -/
def owns : Phase ν → Option ν
  | made name | locking name | live name | dropping name => some name
  | _ => none

/-- The directory that an install is in the course of making. -/
def creates : Phase ν → Option ν
  | made name | locking name => some name
  | _ => none

/-- The directory that a sweep found stale. -/
def judges : Phase ν → Option ν
  | stale _ name _ | opened _ name _ | removing _ name _ => some name
  | _ => none

/-- The time at the start of a sweep. -/
def began : Phase ν → Nat
  | sweeping now _ | stale now _ _ | opened now _ _ | removing now _ _ => now
  | _ => 0

end Phase

section Steps

variable {w u w' : World ν π} {p q : π} {x x' : Phase ν} {s : Step ν} {n : ν}

attribute [local simp] World.stepNext

theorem owns_stepNext (h : w.stepNext p x s = some (u, x')) (hn : x'.owns = some n) :
    x.owns = some n ∨ w.dirs n = .never := by
  unfold World.stepNext at h
  split at h <;> grind [Phase.owns]

theorem creates_stepNext (h : w.stepNext p x s = some (u, x')) (hn : x'.creates = some n) :
    x.creates = some n ∨ w.dirs n = .never := by
  unfold World.stepNext at h
  split at h <;> grind [Phase.creates]

/-- What is being made is young. -/
theorem young_stepNext (h : w.stepNext p x s = some (u, x')) (hn : x'.creates = some n)
    (hyoung : ∀ {n}, x.creates = some n →
      ∃ m l, w.dirs n = .there m l ∧ w.clock ≤ m + staleAfter) :
    ∃ m l, u.dirs n = .there m l ∧ u.clock ≤ m + staleAfter := by
  unfold World.stepNext at h
  split at h <;> grind [Phase.creates]

/-- What is found stale is not young. -/
theorem judges_stepNext (h : w.stepNext p x s = some (u, x')) (hn : x'.judges = some n)
    (hbegan : x.began ≤ w.clock) :
    x.judges = some n ∨ ∃ m l, w.dirs n = .there m l ∧ m + staleAfter < w.clock := by
  unfold World.stepNext at h
  split at h <;> grind [Phase.judges, Phase.began]

theorem began_stepNext (h : w.stepNext p x s = some (u, x')) (hbegan : x.began ≤ w.clock) :
    x'.began ≤ u.clock := by
  unfold World.stepNext at h
  split at h <;> grind [Phase.began]

/-- A removal begins where there is no lock, or nobody has it. -/
theorem removing_stepNext {now : Nat} {todo : List ν} (h : w.stepNext p x s = some (u, x'))
    (hx : x' = .removing now n todo) :
    x.judges = some n ∧ (x = .removing now n todo ∨ (∀ m, w.dirs n ≠ .there m true) ∨
      w.locks n = none) := by
  unfold World.stepNext at h
  split at h <;> grind [Phase.judges, Locks.take]

/-- A `Staging` value has its directory, the `.lock` in it and the lock on it. -/
theorem live_stepNext (h : w.stepNext p x s = some (u, x')) (hx : x' = .live n)
    (hlocking : x = .locking n → ∃ m, w.dirs n = .there m true)
    (hlive : x = .live n → (∃ m, w.dirs n = .there m true) ∧ w.locks n = some p) :
    (∃ m, u.dirs n = .there m true) ∧ u.locks n = some p := by
  unfold World.stepNext at h
  split at h <;> grind [Locks.held_of_take]

/-- An install comes to live from its own lock. -/
theorem origin_stepNext (h : w.stepNext p x s = some (u, x')) (hx : x' = .live n) :
    x = .live n ∨ x = .locking n := by
  unfold World.stepNext at h
  split at h <;> grind

theorem locking_stepNext (h : w.stepNext p x s = some (u, x')) (hx : x' = .locking n) :
    ∃ m, u.dirs n = .there m true := by
  unfold World.stepNext at h
  split at h <;> grind

/-- What a step does to a directory. -/
theorem dirs_stepNext (h : w.stepNext p x s = some (u, x')) (n : ν) :
    u.dirs n = w.dirs n ∨ x.owns = some n ∨ (∃ now todo, x = .removing now n todo) ∨
      w.dirs n = .never := by
  unfold World.stepNext at h
  split at h <;> grind [Phase.owns]

theorem never_stepNext (h : w.stepNext p x s = some (u, x')) (hn : w.dirs n ≠ .never) :
    u.dirs n ≠ .never := by
  unfold World.stepNext at h
  split at h <;> grind

theorem made_stepNext (h : w.stepNext p x s = some (u, x')) (hn : x'.owns = some n)
    (hx : x.owns ≠ some n) : u.dirs n ≠ .never := by
  unfold World.stepNext at h
  split at h <;> grind [Phase.owns]

/-- The locks of others stay with them. -/
theorem locks_stepNext (h : w.stepNext p x s = some (u, x')) (hq : q ≠ p) :
    u.locks n = some q ↔ w.locks n = some q := by
  have hgive : ∀ k, w.locks.give k p n = some q ↔ w.locks n = some q :=
    fun _ => Locks.others_give hq
  have htake : ∀ k l, w.locks.take k p = some l → (l n = some q ↔ w.locks n = some q) :=
    fun _ _ hl => Locks.others_take hl hq
  unfold World.stepNext at h
  split at h <;> grind

theorem same_stepNext (h : w.stepNext p x s = some (u, x')) :
    u.phases = w.phases ∧ u.clock = w.clock := by
  unfold World.stepNext at h
  split at h <;> grind

/-- What a step of a process, or its end, changes. -/
structure Change (w u : World ν π) (p : π) (x x' : Phase ν) : Prop where
  phases : u.phases = w.phases
  clock : u.clock = w.clock
  dirs : ∀ n, u.dirs n = w.dirs n ∨ x.owns = some n ∨ (∃ now todo, x = .removing now n todo) ∨
    w.dirs n = .never
  never : ∀ {n}, w.dirs n ≠ .never → u.dirs n ≠ .never
  locks : ∀ {q n}, q ≠ p → (u.locks n = some q ↔ w.locks n = some q)
  owns : ∀ {n}, x'.owns = some n → x.owns = some n ∨ w.dirs n = .never
  made : ∀ {n}, x'.owns = some n → x.owns ≠ some n → u.dirs n ≠ .never
  creates : ∀ {n}, x'.creates = some n → x.creates = some n ∨ w.dirs n = .never
  young : ∀ {n}, x'.creates = some n → (∀ {n}, x.creates = some n →
    ∃ m l, w.dirs n = .there m l ∧ w.clock ≤ m + staleAfter) →
      ∃ m l, u.dirs n = .there m l ∧ u.clock ≤ m + staleAfter
  began : x.began ≤ w.clock → x'.began ≤ u.clock
  judges : ∀ {n}, x'.judges = some n → x.began ≤ w.clock →
    x.judges = some n ∨ ∃ m l, w.dirs n = .there m l ∧ m + staleAfter < w.clock
  removing : ∀ {now n todo}, x' = .removing now n todo → x.judges = some n ∧
    (x = .removing now n todo ∨ (∀ m, w.dirs n ≠ .there m true) ∨ w.locks n = none)
  origin : ∀ {n}, x' = .live n → x = .live n ∨ x = .locking n
  locking : ∀ {n}, x' = .locking n → ∃ m, u.dirs n = .there m true
  live : ∀ {n}, x' = .live n → (x = .locking n → ∃ m, w.dirs n = .there m true) →
    (x = .live n → (∃ m, w.dirs n = .there m true) ∧ w.locks n = some p) →
      (∃ m, u.dirs n = .there m true) ∧ u.locks n = some p

theorem change_stepNext (h : w.stepNext p x s = some (u, x')) : Change w u p x x' where
  phases := (same_stepNext h).1
  clock := (same_stepNext h).2
  dirs := dirs_stepNext h
  never := never_stepNext h
  locks := locks_stepNext h
  owns := owns_stepNext h
  made := made_stepNext h
  creates := creates_stepNext h
  young := young_stepNext h
  began := began_stepNext h
  judges := judges_stepNext h
  removing := removing_stepNext h
  origin := origin_stepNext h
  locking := locking_stepNext h
  live := live_stepNext h

omit [DecidableEq ν] in
theorem change_kill : Change w (w.setLocks (w.locks.giveAll p)) p x .ended where
  phases := rfl
  clock := rfl
  dirs _ := .inl rfl
  never h := h
  locks hq := Locks.others_giveAll hq
  owns := nofun
  made := nofun
  creates := nofun
  young h _ := nomatch h
  began _ := Nat.zero_le _
  judges := nofun
  removing := nofun
  origin := nofun
  locking := nofun
  live := nofun

end Steps

/-! ### Every run -/

/-- What holds of every state that a run of brief steps reaches. -/
structure Sound (w : World ν π) : Prop where
  owner : ∀ {p q n}, (w.phases p).owns = some n → (w.phases q).owns = some n → p = q
  known : ∀ {p n}, (w.phases p).owns = some n ∨ (w.phases p).judges = some n → w.dirs n ≠ .never
  began : ∀ p, (w.phases p).began ≤ w.clock
  young : ∀ {p n}, (w.phases p).creates = some n →
    ∃ m l, w.dirs n = .there m l ∧ w.clock ≤ m + staleAfter
  judged : ∀ {p q n}, (w.phases p).judges = some n → (w.phases q).creates ≠ some n
  removed : ∀ {p q now n todo}, w.phases p = .removing now n todo → w.phases q ≠ .live n
  locking : ∀ {p n}, w.phases p = .locking n → ∃ m, w.dirs n = .there m true
  live : ∀ {p n}, w.phases p = .live n → (∃ m, w.dirs n = .there m true) ∧ w.locks n = some p

section Runs

variable {w u w' : World ν π} {p q : π} {x' : Phase ν} {s : Step ν} {n : ν}

omit [DecidableEq ν] in
theorem World.setPhase_self {x : Phase ν} : (w.setPhase p x).phases p = x := if_pos rfl

omit [DecidableEq ν] in
theorem World.setPhase_of_ne {x : Phase ν} (h : q ≠ p) :
    (w.setPhase p x).phases q = w.phases q := if_neg h

omit [DecidableEq ν] in
theorem Phase.owns_of_creates {x : Phase ν} (h : x.creates = some n) : x.owns = some n := by
  cases x <;> first | exact h | cases h

omit [DecidableEq ν] [DecidableEq π] in
/-- A directory that somebody else is making, or has made and not begun to drop, stays as it is. -/
theorem Sound.frame (hs : Sound w) (h : Change w u p (w.phases p) x') (hq : q ≠ p)
    (hn : (w.phases q).creates = some n ∨ w.phases q = .live n) : u.dirs n = w.dirs n := by
  have howns : (w.phases q).owns = some n := by
    rcases hn with hn | hn
    · exact Phase.owns_of_creates hn
    · rw [hn]
      rfl
  rcases h.dirs n with hsame | hown | ⟨now, todo, hremoving⟩ | hnever
  · exact hsame
  · exact absurd (hs.owner howns hown) hq
  · rcases hn with hn | hn
    · have hjudged : (w.phases p).judges = some n := by
        rw [hremoving]
        rfl
      exact absurd hn (hs.judged hjudged)
    · exact absurd hn (hs.removed hremoving)
  · exact absurd hnever (hs.known (.inl howns))

theorem Sound.change (hs : Sound w) (h : Change w u p (w.phases p) x') :
    Sound (u.setPhase p x') := by
  -- A process is the one that moved, or is where it was.
  have hcases : ∀ q, (u.setPhase p x').phases q = x' ∧ q = p ∨
      (u.setPhase p x').phases q = w.phases q ∧ q ≠ p := by
    intro q
    by_cases hq : q = p
    · subst hq
      exact .inl ⟨World.setPhase_self, rfl⟩
    · exact .inr ⟨(World.setPhase_of_ne hq).trans (congrFun h.phases q), hq⟩
  constructor
  case owner =>
    intro q r n hq hr
    rcases hcases q with ⟨hqx, rfl⟩ | ⟨hqx, hqp⟩
    · rcases hcases r with ⟨-, hrp⟩ | ⟨hrx, hrp⟩
      · exact hrp.symm
      · rw [hqx] at hq
        rw [hrx] at hr
        rcases h.owns hq with hown | hnever
        · exact hs.owner hown hr
        · exact absurd hnever (hs.known (.inl hr))
    · rcases hcases r with ⟨hrx, rfl⟩ | ⟨hrx, hrp⟩
      · rw [hqx] at hq
        rw [hrx] at hr
        rcases h.owns hr with hown | hnever
        · exact hs.owner hq hown
        · exact absurd hnever (hs.known (.inl hq))
      · rw [hqx] at hq
        rw [hrx] at hr
        exact hs.owner hq hr
  case known =>
    intro q n hq
    show u.dirs n ≠ .never
    rcases hcases q with ⟨hqx, rfl⟩ | ⟨hqx, hqp⟩
    · rw [hqx] at hq
      rcases hq with hown | hjudge
      · by_cases hbefore : (w.phases q).owns = some n
        · exact h.never (hs.known (.inl hbefore))
        · exact h.made hown hbefore
      · rcases h.judges hjudge (hs.began q) with hbefore | ⟨m, l, hdir, -⟩
        · exact h.never (hs.known (.inr hbefore))
        · exact h.never (by rw [hdir]; nofun)
    · rw [hqx] at hq
      exact h.never (hs.known hq)
  case began =>
    intro q
    show _ ≤ u.clock
    rcases hcases q with ⟨hqx, rfl⟩ | ⟨hqx, -⟩
    · rw [hqx]
      exact h.began (hs.began q)
    · rw [hqx, h.clock]
      exact hs.began q
  case young =>
    intro q n hq
    show ∃ m l, u.dirs n = .there m l ∧ u.clock ≤ m + staleAfter
    rcases hcases q with ⟨hqx, rfl⟩ | ⟨hqx, hqp⟩
    · rw [hqx] at hq
      exact h.young hq hs.young
    · rw [hqx] at hq
      rw [hs.frame h hqp (.inl hq), h.clock]
      exact hs.young hq
  case judged =>
    intro q r n hq hr
    rcases hcases q with ⟨hqx, rfl⟩ | ⟨hqx, hqp⟩
    · rw [hqx] at hq
      rcases hcases r with ⟨hrx, rfl⟩ | ⟨hrx, hrp⟩
      · rw [hrx] at hr
        cases x' <;> cases hq <;> cases hr
      · rw [hrx] at hr
        rcases h.judges hq (hs.began q) with hbefore | ⟨m, l, hdir, hold⟩
        · exact hs.judged hbefore hr
        · obtain ⟨m', l', hdir', hyoung⟩ := hs.young hr
          cases hdir.symm.trans hdir'
          omega
    · rw [hqx] at hq
      rcases hcases r with ⟨hrx, rfl⟩ | ⟨hrx, hrp⟩
      · rw [hrx] at hr
        rcases h.creates hr with hbefore | hnever
        · exact hs.judged hq hbefore
        · exact hs.known (.inr hq) hnever
      · rw [hrx] at hr
        exact hs.judged hq hr
  case removed =>
    intro q r now n todo hq hr
    rcases hcases q with ⟨hqx, rfl⟩ | ⟨hqx, hqp⟩
    · rw [hqx] at hq
      rcases hcases r with ⟨hrx, rfl⟩ | ⟨hrx, hrp⟩
      · rw [hrx] at hr
        cases hq.symm.trans hr
      · rw [hrx] at hr
        obtain ⟨-, hbefore | hmissing | hfree⟩ := h.removing hq
        · exact hs.removed hbefore hr
        · obtain ⟨⟨m, hdir⟩, -⟩ := hs.live hr
          exact hmissing m hdir
        · -- The lock of a live install is not free.
          cases hfree.symm.trans (hs.live hr).2
    · rw [hqx] at hq
      rcases hcases r with ⟨hrx, rfl⟩ | ⟨hrx, hrp⟩
      · rw [hrx] at hr
        rcases h.origin hr with hlive | hlocking
        · exact hs.removed hq hlive
        · exact hs.judged (by rw [hq]; rfl) (by rw [hlocking]; rfl)
      · rw [hrx] at hr
        exact hs.removed hq hr
  case locking =>
    intro q n hq
    show ∃ m, u.dirs n = .there m true
    rcases hcases q with ⟨hqx, rfl⟩ | ⟨hqx, hqp⟩
    · rw [hqx] at hq
      exact h.locking hq
    · rw [hqx] at hq
      rw [hs.frame h hqp (.inl (by rw [hq]; rfl))]
      exact hs.locking hq
  case live =>
    intro q n hq
    show (∃ m, u.dirs n = .there m true) ∧ u.locks n = some q
    rcases hcases q with ⟨hqx, rfl⟩ | ⟨hqx, hqp⟩
    · rw [hqx] at hq
      exact h.live hq hs.locking hs.live
    · rw [hqx] at hq
      rw [hs.frame h hqp (.inr hq), h.locks hqp]
      exact hs.live hq

omit [DecidableEq ν] [DecidableEq π] in
theorem Sound.tick (hs : Sound w) {seconds : Nat} (hbrief : w.Brief (.tick seconds)) :
    Sound { w with clock := w.clock + seconds } where
  owner := hs.owner
  known := hs.known
  began q := Nat.le_trans (hs.began q) (Nat.le_add_right _ _)
  young {q n} hq := by
    obtain ⟨m, l, hdir, -⟩ := hs.young hq
    have hq' : w.brief seconds q = true := hbrief q
    refine ⟨m, l, hdir, ?_⟩
    unfold World.brief at hq'
    have hphase : w.phases q = .made n ∨ w.phases q = .locking n := by
      revert hq
      cases w.phases q <;> simp [Phase.creates]
    rcases hphase with hphase | hphase
    · simpa [hphase, hdir] using hq'
    · simpa [hphase, hdir] using hq'
  judged := hs.judged
  removed := hs.removed
  locking := hs.locking
  live := hs.live

theorem sound (h : (system ν π).Reaches World.Brief w) : Sound w := by
  refine h.invariant (fun w hw => ?_) fun w action w' hs hbrief hnext => ?_
  · obtain ⟨hidle, -⟩ := hw
    constructor
    case began =>
      intro q
      rw [hidle q]
      exact Nat.zero_le _
    all_goals
      intros
      simp_all [Phase.owns, Phase.judges, Phase.creates]
  · change w.next action = some w' at hnext
    cases action with
    | step p s =>
        obtain ⟨⟨u, x'⟩, hstep, rfl⟩ := Option.map_eq_some_iff.mp hnext
        exact hs.change (change_stepNext hstep)
    | kill p =>
        cases hnext
        exact hs.change change_kill
    | tick seconds =>
        cases hnext
        exact hs.tick hbrief

/-- **The directory of a live install stays**, with its lock: however many installs sweep, in
however many processes, whichever of them are killed, and however long it lives, as long as no
install spends a day between making its directory and locking it. -/
theorem live_kept (h : (system ν π).Reaches World.Brief w) (hp : w.phases p = .live n) :
    (∃ modified, w.dirs n = .there modified true) ∧ w.locks n = some p :=
  (sound h).live hp

end Runs

/-! ### Two processes -/

/-- An install of a process, until its `Staging` value is there. -/
def staged (p : Bool) (name : Nat) : List (Action Nat Bool) :=
  [.step p (.makeDir name), .step p (.createLock true), .step p .tryLockExclusive]

/-- A sweep that finds a directory, until it has tried its lock. -/
def sweptTo (p : Bool) (name : Nat) : List (Action Nat Bool) :=
  [.step p (.readDir [name]), .step p (.isStale true), .step p (.openLock true)]

def emptyWorld : World Nat Bool := ⟨0, fun _ => .never, Locks.free, fun _ => .idle⟩

/-- The check of a run of two processes. -/
def briefly (w : World Nat Bool) : Action Nat Bool → Bool
  | .tick seconds => w.brief seconds true && w.brief seconds false
  | .step _ _ | .kill _ => true

/-- A machine that sleeps for two days during an install; another process sweeps then. -/
def slept : List (Action Nat Bool) :=
  staged false 7 ++ [.tick 172800] ++ sweptTo true 7 ++ [.step true .tryLockExclusive]

theorem live_kept_slept : ∃ (w : World Nat Bool) (modified : Nat),
    w.dirs 7 = .there modified true ∧ w.clock = 172800 := by
  have hend : ((system Nat Bool).execWhile briefly emptyWorld slept).any
      (fun w => decide (w.phases false = .live 7) && decide (w.clock = 172800)) = true := rfl
  have hbrief : ∀ (w : World Nat Bool) (a : Action Nat Bool), True → briefly w a = true →
      w.Brief a := by
    intro w a _ h
    cases a with
    | tick seconds =>
        obtain ⟨htrue, hfalse⟩ := Bool.and_eq_true_iff.mp h
        intro p
        cases p
        · exact hfalse
        · exact htrue
    | step p s => trivial
    | kill p => trivial
  have hinit : (system Nat Bool).Reaches World.Brief emptyWorld := .init ⟨fun _ => rfl, rfl⟩
  obtain ⟨w, hw, -, hp⟩ := System.exists_of_execWhile (I := fun _ => True) briefly slept _
    (fun _ _ _ _ _ => trivial) hbrief hinit trivial hend
  obtain ⟨hlive, hclock⟩ := Bool.and_eq_true_iff.mp hp
  obtain ⟨⟨modified, hdir⟩, -⟩ := live_kept hw (of_decide_eq_true hlive)
  exact ⟨w, modified, hdir, of_decide_eq_true hclock⟩

/-- A machine that sleeps for a day between `mkdir` and `flock`. -/
def sleptEarly : List (Action Nat Bool) :=
  [.step false (.makeDir 7), .tick 86401] ++ sweptTo true 7 ++
    [.step false (.createLock true), .step false .tryLockExclusive, .step true .unlinkLock,
      .step true .removeDir]

/-- **The bound on that pause is needed**: after a longer one, a sweep that took the new directory
for one without a lock removes it from a live install. -/
theorem swept_unlocked : ∃ w : World Nat Bool, (system Nat Bool).Reachable w ∧
    w.phases false = .live 7 ∧ w.dirs 7 = .gone := by
  have hend : ((system Nat Bool).exec emptyWorld sleptEarly).any
      (fun w => decide (w.phases false = .live 7) && decide (w.dirs 7 = .gone)) = true := rfl
  have hinit : (system Nat Bool).Reachable emptyWorld := .init ⟨fun _ => rfl, rfl⟩
  obtain ⟨w, hw, hp⟩ := System.exists_of_exec sleptEarly _ hinit hend
  obtain ⟨hlive, hgone⟩ := Bool.and_eq_true_iff.mp hp
  exact ⟨w, hw, of_decide_eq_true hlive, of_decide_eq_true hgone⟩

end OpenVHost.Pkg.Staging
