/-
# An initialization is all or nothing

* `Staged` — a tree that differs from an earlier one at and beneath a staging directory only.
* `Ends` — what holds when an attempt ends: it has moved its staging directory into place
  after the server had exited, or has left the final datadir as it was.
* `Place.wp_runMysqlInit`, `Place.wp_initializeMariadb` — an attempt of either engine, one rule
  for each of its steps.
* `initialization_all_or_nothing` — every attempt ends so, whatever its children answer and
  wherever it is dropped.
-/

import OpenVHost.Datadir.Driver

namespace OpenVHost.Datadir

open FileTree
open Async
open OpenVHost.Runtime (majorMinorShape not_special_of_shape)
open OpenVHost.Runtime.Mysql (MysqlMajor)

/-! ### Trees with a staging directory -/

/-- Where an attempt stages: a fresh name beside the final datadir. -/
structure Place where
  parent : Path
  name : Name
  final : Name
  plain : Plain parent
  shaped : isStaleStagingName name = true
  finalPlain : special final = false
  ne : name ≠ final

namespace Place

variable (pl : Place)

def staging : Path := pl.parent ++ [pl.name]
def finalDir : Path := pl.parent ++ [pl.final]

/-- No entry has the name yet. -/
def Fresh (t : Tree) : Prop := ∀ q, pl.name ∈ q → t.node q = none

theorem not_special : special pl.name = false := not_special_of_staging pl.shaped

/-- The final datadir is as it was in `t`, up to clutter: it is where it was, unless the way there
led through its own `.DS_Store`, a link that is gone; what it holds is what it held; and of its
`.DS_Store` no more can have happened than that it was removed. -/
structure FinalKept (t t' : Tree) : Prop where
  located : ∀ f, t.locate pl.finalDir = .ok f → t'.locate pl.finalDir = .ok f ∨
    ∃ target, t.node (f ++ [dsStore]) = some (.symlink target) ∧ t'.node (f ++ [dsStore]) = none
  content : ∀ f, t.locate pl.finalDir = .ok f ∨ t'.locate pl.finalDir = .ok f →
    ∀ x, x ≠ [dsStore] → t'.node (f ++ x) = t.node (f ++ x)
  clutter : ∀ f, t.locate pl.finalDir = .ok f ∨ t'.locate pl.finalDir = .ok f →
    t'.node (f ++ [dsStore]) = t.node (f ++ [dsStore]) ∨
      (t'.node (f ++ [dsStore]) = none ∧ t.isDir (f ++ [dsStore]) = false)

theorem locate_eq {t : Tree} {n : Name} {q : Path} (hn : special n = false)
    (h : t.locate (pl.parent ++ [n]) = .ok q) :
    ∃ r, t.resolve pl.parent = .ok r ∧ t.isDir r = true ∧ q = r ++ [n] := by
  rw [Tree.locate_concat hn] at h
  cases hr : t.resolve pl.parent with
  | error e => simp [hr] at h
  | ok r =>
      cases hd : t.isDir r with
      | false => simp [hr, hd] at h
      | true =>
          simp only [hr, hd, if_true, Except.ok.injEq] at h
          exact ⟨r, rfl, hd, h.symm⟩

/-- Where the tree has grown, the final datadir is where it was. -/
theorem finalKept_of_grown {t t' : Tree} (h : Tree.Grows t t')
    (hsame : ∀ f, t'.locate pl.finalDir = .ok f → ∀ x, t'.node (f ++ x) = t.node (f ++ x)) :
    pl.FinalKept t t' := by
  have hboth : ∀ f, t.locate pl.finalDir = .ok f ∨ t'.locate pl.finalDir = .ok f →
      t'.locate pl.finalDir = .ok f := fun f hf => hf.elim h.locate id
  exact ⟨fun f hf => .inl (h.locate hf), fun f hf x _ => hsame f (hboth f hf) x,
    fun f hf => .inl (hsame f (hboth f hf) _)⟩

theorem finalKept_of_paved {t t' : Tree} (h : Paved pl.parent t t') : pl.FinalKept t t' := by
  refine pl.finalKept_of_grown h.grows fun f hf x => ?_
  obtain ⟨r, hr, -, rfl⟩ := pl.locate_eq pl.finalPlain hf
  rw [List.append_assoc]
  exact h.beneath pl.plain hr (by simp)

/-- `t` is `t₁` but for what is at and beneath the staging directory, which `t₁` lacks. -/
structure Staged (r : Path) (t₁ t : Tree) : Prop where
  resolved : t₁.resolve pl.parent = .ok r
  isDir : t₁.isDir r = true
  absent : t₁.node (r ++ [pl.name]) = none
  same : ∀ q, ¬ r ++ [pl.name] <+: q → t.node q = t₁.node q

namespace Staged

variable {pl} {r : Path} {t₀ t₁ t t' : Tree}

theorem none_beneath (h : pl.Staged r t₁ t) (x : Path) : t₁.node (r ++ [pl.name] ++ x) = none := by
  by_cases hx : x = []
  · subst hx
    rw [List.append_nil]
    exact h.absent
  · exact Tree.node_below hx (by simp [Tree.isDir, h.absent])

theorem grows (h : pl.Staged r t₁ t) : Tree.Grows t₁ t := by
  intro q x hx
  by_cases hq : r ++ [pl.name] <+: q
  · obtain ⟨s, rfl⟩ := hq
    rw [h.none_beneath s] at hx
    cases hx
  · exact ⟨x, (h.same q hq).trans hx, rfl⟩

theorem resolve (h : pl.Staged r t₁ t) : t.resolve pl.parent = .ok r :=
  h.grows.resolveFrom h.resolved

theorem locate (h : pl.Staged r t₁ t) {n : Name} (hn : special n = false) :
    t.locate (pl.parent ++ [n]) = .ok (r ++ [n]) := by
  rw [Tree.locate_concat hn, h.resolve]
  simp [h.grows.isDir h.isDir]

theorem locate_staging (h : pl.Staged r t₁ t) : t.locate pl.staging = .ok (r ++ [pl.name]) :=
  h.locate pl.not_special

/-- Changes at and beneath the staging directory keep it so. -/
theorem step (h : pl.Staged r t₁ t) (hs : ∀ q, ¬ r ++ [pl.name] <+: q → t'.node q = t.node q) :
    pl.Staged r t₁ t' :=
  ⟨h.resolved, h.isDir, h.absent, fun q hq => (hs q hq).trans (h.same q hq)⟩

theorem locate_final (h : pl.Staged r t₁ t) : t.locate pl.finalDir = .ok (r ++ [pl.final]) :=
  h.locate pl.finalPlain

/-- What the final datadir holds is what it held before anything was made. -/
theorem same_final (h : pl.Staged r t₁ t) (hp : Paved pl.parent t₀ t₁) (x : Path) :
    t.node (r ++ [pl.final] ++ x) = t₀.node (r ++ [pl.final] ++ x) := by
  rw [h.same _ (not_prefix_append (siblings_apart pl.ne.symm) (siblings_apart pl.ne) x),
    List.append_assoc]
  exact hp.beneath pl.plain h.resolved (by simp)

theorem finalKept (h : pl.Staged r t₁ t) (hp : Paved pl.parent t₀ t₁) : pl.FinalKept t₀ t := by
  refine pl.finalKept_of_grown (hp.grows.trans h.grows) fun f hf x => ?_
  rw [h.locate_final] at hf
  cases hf
  exact h.same_final hp x

theorem clutter_eq (h : pl.Staged r t₁ t) {q : Path} (hq : Clutter t pl.finalDir q) :
    q = r ++ [pl.final] ++ [dsStore] ∧ t.isDir q = false := by
  obtain ⟨f, x, hf, -, -, rfl, hx, hdir⟩ := hq
  rw [h.locate_final] at hf
  cases hf
  refine ⟨rfl, ?_⟩
  rw [Tree.isDir, hx]
  exact hdir

section Trimmed

variable {t'' : Tree} (h : pl.Staged r t₁ t) (ht : Trimmed (Clutter t pl.finalDir) t t')
  (ht' : Trimmed (fun q => ∃ s, t'.locate pl.staging = .ok s ∧ s <+: q) t' t'')

include h ht

theorem prefix_of_staging {q : Path} (hq : ∃ s, t'.locate pl.staging = .ok s ∧ s <+: q) :
    r ++ [pl.name] <+: q := by
  obtain ⟨s, hl, hpre⟩ := hq
  obtain ⟨r₂, hr₂, -, rfl⟩ := pl.locate_eq pl.not_special hl
  obtain rfl : r₂ = r := Except.ok.inj ((ht.resolve hr₂).symm.trans h.resolve)
  exact hpre

include ht'

/-- What is beneath the final datadir is not cleared with the staging directory. -/
theorem same_beneath_final (x : Path) :
    t''.node (r ++ [pl.final] ++ x) = t'.node (r ++ [pl.final] ++ x) :=
  ht'.outside fun hs => not_prefix_append (siblings_apart pl.ne.symm) (siblings_apart pl.ne) x
    (h.prefix_of_staging ht hs)

/-- Nothing of the earlier tree is in the staging directory: what goes is the clutter. -/
theorem kept_or_clutter (hp : Paved pl.parent t₀ t₁) {q : Path} {x : Node} (hx : t₀.node q = some x) :
    (∃ y, t''.node q = some y ∧ y.kind = x.kind) ∨
      (q = r ++ [pl.final] ++ [dsStore] ∧ t''.node q = none ∧ t.isDir q = false) := by
  obtain ⟨y, hy, hk⟩ := (hp.grows.trans h.grows) q x hx
  have hnot : ¬ r ++ [pl.name] <+: q := by
    rintro ⟨s, rfl⟩
    obtain ⟨z, hz, -⟩ := hp.grows _ x hx
    rw [h.none_beneath s] at hz
    cases hz
  have hsame : t''.node q = t'.node q := ht'.outside fun hs => hnot (h.prefix_of_staging ht hs)
  rcases ht q with heq | ⟨hnone, hq⟩
  · exact .inl ⟨y, by rw [hsame, heq, hy], hk⟩
  · exact .inr ⟨(h.clutter_eq hq).1, by rw [hsame, hnone], (h.clutter_eq hq).2⟩

/-- Before and after, the final datadir is in one place. -/
theorem located_final (hp : Paved pl.parent t₀ t₁) {f : Path}
    (hf : t₀.locate pl.finalDir = .ok f ∨ t''.locate pl.finalDir = .ok f) :
    f = r ++ [pl.final] := by
  rcases hf with hf | hf
  · exact Except.ok.inj (((hp.grows.trans h.grows).locate hf).symm.trans h.locate_final)
  · obtain ⟨r₁, hr₁, -, rfl⟩ := pl.locate_eq pl.finalPlain hf
    obtain rfl : r₁ = r :=
      Except.ok.inj ((ht.resolve (ht'.resolve hr₁)).symm.trans h.resolve)
    rfl

/-- The way to the final datadir stays open, unless the clutter is a link. -/
theorem locate_final_trimmed (hp : Paved pl.parent t₀ t₁) (hf : t₀.locate pl.finalDir = .ok (r ++ [pl.final]))
    (hlink : ¬ ∃ target, t₀.node (r ++ [pl.final] ++ [dsStore]) = some (.symlink target) ∧
      t''.node (r ++ [pl.final] ++ [dsStore]) = none) :
    t''.locate pl.finalDir = .ok (r ++ [pl.final]) := by
  obtain ⟨r₀, hr₀, hd₀, heq⟩ := pl.locate_eq pl.finalPlain hf
  obtain rfl : r = r₀ := by simpa using heq
  have hkeeps : Tree.Keeps (· = r ++ [pl.final] ++ [dsStore]) t₀ t'' := by
    intro q x hx
    rcases h.kept_or_clutter ht ht' hp hx with hy | ⟨rfl, hnone, hdir⟩
    · exact .inl hy
    · refine .inr ⟨rfl, ?_⟩
      cases x with
      | file content m => rfl
      | symlink target => exact absurd ⟨target, hx, hnone⟩ hlink
      | dir m =>
          rw [(hp.grows.trans h.grows).isDir (Tree.isDir_iff.mpr ⟨m, hx⟩)] at hdir
          cases hdir
  obtain ⟨m, hm⟩ := Tree.isDir_iff.mp hd₀
  obtain ⟨y, hy, hk⟩ := (h.kept_or_clutter ht ht' hp hm).resolve_right fun hq => by simp at hq
  have hd : t''.isDir r = true := by
    cases y with
    | dir m' => exact Tree.isDir_iff.mpr ⟨m', hy⟩
    | file content m' => cases hk
    | symlink target => cases hk
  rw [Place.finalDir, Tree.locate_concat pl.finalPlain,
    show t''.resolve pl.parent = .ok r from hkeeps.resolveFrom (by simp) hr₀]
  simp [hd]

/-- **Clearing the clutter keeps the final datadir**: nothing else of the earlier tree goes, so
the way to it stays open unless the clutter is a link. -/
theorem finalKept_trimmed (hp : Paved pl.parent t₀ t₁) : pl.FinalKept t₀ t'' := by
  refine ⟨fun f hf => ?_, fun f hf x hx => ?_, fun f hf => ?_⟩
  · obtain rfl := h.located_final ht ht' hp (.inl hf)
    by_cases hlink : ∃ target, t₀.node (r ++ [pl.final] ++ [dsStore]) = some (.symlink target) ∧
        t''.node (r ++ [pl.final] ++ [dsStore]) = none
    · exact .inr hlink
    · exact .inl (h.locate_final_trimmed ht ht' hp hf hlink)
  · obtain rfl := h.located_final ht ht' hp hf
    rw [h.same_beneath_final ht ht', ← h.same_final hp]
    exact ht.outside fun hq => hx (List.append_cancel_left (h.clutter_eq hq).1)
  · obtain rfl := h.located_final ht ht' hp hf
    rw [h.same_beneath_final ht ht', ← h.same_final hp]
    rcases ht (r ++ [pl.final] ++ [dsStore]) with heq | ⟨hnone, hq⟩
    · exact .inl heq
    · refine .inr ⟨hnone, ?_⟩
      rw [Tree.isDir, ← h.same_final hp [dsStore]]
      exact (h.clutter_eq hq).2

end Trimmed

end Staged

/-- **The staging directory, once it is created**, is a new one. -/
theorem staged_of_created {t₀ t₁ t : Tree} (hfresh : pl.Fresh t₀) (hp : Paved pl.parent t₀ t₁)
    (h : t₁.mkdir pl.staging = .ok t ∨
      (t = t₁ ∧ ∃ x, t₁.stat pl.staging = .ok x ∧ x.isDir = true)) :
    ∃ r, pl.Staged r t₁ t ∧ t.isDir (r ++ [pl.name]) = true := by
  have habsent : ∀ {r}, t₁.resolve pl.parent = .ok r → t₁.node (r ++ [pl.name]) = none := by
    intro r hr
    rw [hp.beneath pl.plain hr (List.cons_ne_nil _ _)]
    exact hfresh _ (by simp)
  rcases h with hmk | ⟨-, x, hx, -⟩
  · obtain ⟨q, hl, hnone, rfl⟩ := Tree.addNew_any hmk
    obtain ⟨r, hr, hd, rfl⟩ := pl.locate_eq pl.not_special hl
    have hcan : t₁.CanPut (r ++ [pl.name]) (.dir none) := by
      have hnd : t₁.isDir (r ++ [pl.name]) = false := by simp [Tree.isDir, hnone]
      simpa [Tree.CanPut, hnd] using hd
    refine ⟨r, ⟨hr, hd, hnone, fun q hq => ?_⟩, ?_⟩
    · rw [Tree.node_put hcan, if_neg]
      rintro rfl
      exact hq (List.prefix_refl _)
    · rw [Tree.isDir, Tree.node_put hcan, if_pos rfl]
      rfl
  · exfalso
    unfold Tree.stat at hx
    split at hx
    next => cases hx
    next q hq =>
      obtain ⟨r, hr, hcase⟩ := Tree.resolve_concat pl.not_special hq
      have hnone := habsent hr
      rcases hcase with ⟨target, htarget⟩ | ⟨rfl, hhas⟩
      · rw [hnone] at htarget
        cases htarget
      · simp [Tree.has, hnone] at hhas

end Place

/-! ### How an attempt ends -/

inductive Verdict where
  | initialized
  | failed
  | reported
  deriving DecidableEq, Repr

/-- The server that was spawned is gone: killed, or shut down, and waited for. -/
def ServerGone (log : List Event) : Prop :=
  .spawned ∈ log →
    [.spawned, .killed, .waited].Sublist log ∨ [.spawned, .shutDown, .waited].Sublist log

namespace Place

variable (pl : Place) {ω : Type}

/-- The staging directory that was created has been removed, unless that failed. -/
def StagingRemoved (a : Attempt) : Prop :=
  .created ∈ a.log → ∃ done, .removed done ∈ a.log ∧ (done = true →
    ∀ s, a.disk.tree.locate pl.staging = .ok s → a.disk.tree.node s = none)

/-- The staging directory has become the final datadir, after its server had accepted the
password and had exited. -/
def Moved (password : RootPassword) (a : Attempt) : Prop :=
  [.created, .spawned, .accepted password, .waited, .moved].Sublist a.log ∧
    ∃ t s f, a.atExit = some t ∧ t.locate pl.staging = .ok s ∧ t.locate pl.finalDir = .ok f ∧
      Published t a.disk.tree s f

/-- What holds when an attempt returns. -/
def Returns (t₀ : Tree) (a : Attempt) : Verdict × Option RootPassword → Prop
  | (.initialized, password) => ∃ p, password = some p ∧ pl.Moved p a
  | (.failed, password) => password = none ∧ pl.FinalKept t₀ a.disk.tree ∧
      ServerGone a.log ∧ pl.StagingRemoved a
  | (.reported, password) => password = none ∧ a.log = [] ∧
      ∀ q, a.disk.tree.node q = t₀.node q

/-- **All or nothing.** -/
def Ends (view : ω → Verdict × Option RootPassword) (t₀ : Tree) : Exit ω → Attempt → Prop
  | .dropped, a => pl.FinalKept t₀ a.disk.tree ∧ (.spawned ∈ a.log → .killed ∈ a.log)
  | .returned o, a => pl.Returns t₀ a (view o)

/-! ### Steps -/

/-- An attempt that has not staged anything. -/
structure Bare (t₀ : Tree) (a : Attempt) : Prop where
  paved : Paved pl.parent t₀ a.disk.tree
  log : a.log = []
  unfinished : a.finished = false

/-- An attempt that has staged a directory. -/
structure Holding (t₀ : Tree) (log : List Event) (finished : Bool) (a : Attempt) : Prop where
  staged : ∃ r t₁, Paved pl.parent t₀ t₁ ∧ pl.Staged r t₁ a.disk.tree ∧
    a.disk.tree.isDir (r ++ [pl.name]) = true
  logged : a.log = log
  guard : a.finished = finished

section Steps

variable {pl} {t₀ : Tree} {a : Attempt} {log : List Event} {finished : Bool} {α : Type}
  {E : Exit ω → Attempt → Prop}

theorem wp_onDisk {x : Io Empty α} {Q : α → Attempt → Prop}
    (h : Io.wp x (fun r d => Q r { a with disk := d }) (fun _ _ => False) a.disk) :
    Task.wp (onDisk x) Q E a :=
  settle_of_wp h

theorem Holding.kept (h : pl.Holding t₀ log finished a) : pl.FinalKept t₀ a.disk.tree := by
  obtain ⟨r, t₁, hp, hs, -⟩ := h.staged
  exact hs.finalKept hp

/-- Where nothing is staged there is nothing for a child to write in. -/
theorem effect_absent (out : Outside) {n : Nat} {s : Path} {t : Tree} (hs : t.node s = none)
    (q : Path) : (out.effect n s t).node q = t.node q := by
  by_cases hq : s <+: q ∧ q ≠ s
  · obtain ⟨⟨x, rfl⟩, hne⟩ := hq
    have hx : x ≠ [] := by
      rintro rfl
      exact hne (List.append_nil s)
    have hself := out.beneath n s t s (.inr rfl)
    rw [Tree.node_below hx (by simp [Tree.isDir, hself, hs]),
      Tree.node_below hx (by simp [Tree.isDir, hs])]
  · exact out.beneath n s t q (by tauto)

theorem Bare.write (out : Outside) (n : Nat) (hfresh : pl.Fresh t₀) (h : pl.Bare t₀ a) :
    Paved pl.parent t₀ (out.write n pl.staging a.disk).tree := by
  unfold Outside.write
  split
  next s hl =>
    obtain ⟨r, hr, -, rfl⟩ := pl.locate_eq pl.not_special hl
    have habsent : a.disk.tree.node (r ++ [pl.name]) = none := by
      rw [h.paved.beneath pl.plain hr (List.cons_ne_nil _ _)]
      exact hfresh _ (by simp)
    exact h.paved.trans fun q => .inl (effect_absent out habsent q)
  next => exact h.paved

theorem wp_await_bare {out : Outside} {Q : Unit → Attempt → Prop} (hfresh : pl.Fresh t₀)
    (h : pl.Bare t₀ a) (hok : ∀ a', pl.Bare t₀ a' → Q () a')
    (hdrop : ∀ a', pl.Bare t₀ a' → E .dropped a') : Task.wp (await out pl.staging) Q E a :=
  Task.wp_await (fun _ => hok _ ⟨h.write out _ hfresh, h.log, h.unfinished⟩) fun _ =>
    hdrop _ ⟨h.write out _ hfresh, h.log, h.unfinished⟩

theorem Holding.write (out : Outside) (n : Nat) (h : pl.Holding t₀ log finished a) :
    pl.Holding t₀ log finished { a with
      awaits := a.awaits + 1, disk := out.write n pl.staging a.disk } := by
  obtain ⟨⟨r, t₁, hp, hs, hd⟩, hlog, hguard⟩ := h
  refine ⟨⟨r, t₁, hp, ?_⟩, hlog, hguard⟩
  unfold Outside.write
  rw [hs.locate_staging]
  refine ⟨hs.step fun q hq => out.beneath n _ _ q (.inl hq), ?_⟩
  rw [Tree.isDir, out.beneath n _ _ _ (.inr rfl)]
  exact hd

theorem wp_await_holding {out : Outside} {Q : Unit → Attempt → Prop}
    (h : pl.Holding t₀ log finished a) (hok : ∀ a', pl.Holding t₀ log finished a' → Q () a')
    (hdrop : ∀ a', pl.Holding t₀ log finished a' → E .dropped a') :
    Task.wp (await out pl.staging) Q E a :=
  Task.wp_await (fun _ => hok _ (h.write out _)) fun _ => hdrop _ (h.write out _)

theorem wp_note {e : Event} {Q : Unit → Attempt → Prop} (h : pl.Holding t₀ log finished a)
    (hok : ∀ a', pl.Holding t₀ (log ++ [e]) finished a' → Q () a') :
    Task.wp (note e : Task Attempt ω Unit) Q E a := by
  refine hok _ ⟨h.staged, ?_, h.guard⟩
  show a.log ++ [e] = log ++ [e]
  rw [h.logged]

theorem wp_noteExit {Q : Unit → Attempt → Prop} (h : pl.Holding t₀ log finished a)
    (hok : ∀ a', pl.Holding t₀ (log ++ [.waited]) finished a' →
      a'.atExit = some a'.disk.tree → Q () a') :
    Task.wp (noteExit : Task Attempt ω Unit) Q E a := by
  refine hok _ ⟨h.staged, ?_, h.guard⟩ rfl
  show a.log ++ [.waited] = log ++ [.waited]
  rw [h.logged]

/-- What the removal of the staging directory leaves. -/
structure Removed (t₀ : Tree) (log : List Event) (finished : Bool) (a : Attempt) : Prop where
  kept : pl.FinalKept t₀ a.disk.tree
  logged : ∃ done, a.log = log ++ [.removed done] ∧ (done = true →
    ∀ s, a.disk.tree.locate pl.staging = .ok s → a.disk.tree.node s = none)
  guard : a.finished = finished

/-- The removal takes what is at and beneath the staging path, and reports whether it has. -/
theorem wp_removeStaging_any {out : Outside} {Q : Unit → Attempt → Prop}
    (hok : ∀ a' done, a'.log = a.log ++ [.removed done] → a'.finished = a.finished →
      Trimmed (fun q => ∃ s, a.disk.tree.locate pl.staging = .ok s ∧ s <+: q)
        a.disk.tree a'.disk.tree →
      (done = true → ∀ s, a'.disk.tree.locate pl.staging = .ok s → a'.disk.tree.node s = none) →
      Q () a') :
    Task.wp (removeStaging out pl.staging) Q E a := by
  have hshape : pl.staging.getLast?.any isStaleStagingName = true := by
    simp [Place.staging, pl.shaped]
  have hsame : ∀ {d' : Disk} {R : Path → Prop} {s : Path}, Trimmed R a.disk.tree d'.tree →
      d'.tree.locate pl.staging = .ok s → a.disk.tree.locate pl.staging = .ok s := by
    intro d' R s ht hl
    obtain ⟨r, hr, hd, rfl⟩ := pl.locate_eq pl.not_special hl
    obtain ⟨m, hm⟩ := Tree.isDir_iff.mp hd
    rw [Place.staging, Tree.locate_concat pl.not_special, ht.resolve hr]
    simp [Tree.isDir_iff.mpr ⟨m, ht.node hm⟩]
  rw [removeStaging, Task.wp_bind]
  refine wp_onDisk ?_
  rw [Io.wp_attempt]
  unfold removeStagingDir
  simp only [hshape, Bool.not_true, Bool.false_eq_true, if_false, Io.wp_bind, Io.wp_attempt]
  cases hl : a.disk.tree.locate pl.staging with
  | error e =>
      -- there is nothing that the path leads to
      have hfail : ∀ d' : Disk, Trimmed (fun _ => False) a.disk.tree d'.tree →
          (∀ s, d'.tree.locate pl.staging ≠ .ok s) ∧
          Trimmed (fun q => ∃ s, a.disk.tree.locate pl.staging = .ok s ∧ s <+: q)
            a.disk.tree d'.tree := by
        intro d' ht
        refine ⟨fun s hs => ?_, ht.mono fun _ h => h.elim⟩
        rw [hsame ht hs] at hl
        cases hl
      have hcall : Io.wp (Io.removeTree out.os.toInterruption pl.staging) (fun _ _ => False)
          (fun _ d' => Trimmed (fun _ => False) a.disk.tree d'.tree) a.disk := by
        refine Io.wp_call (fun r d' hf _ _ => ?_) (fun e' d' hk _ => Trimmed.of_eq hk.tree)
          fun fault d' _ ht _ => ?_
        · simp [Tree.removeDirAll, hl, Except.map] at hf
        · rw [hl] at ht
          exact Trimmed.of_eq ht
      refine Io.wp_mono hcall (fun _ _ h => h.elim) fun e' d' ht => ?_
      obtain ⟨hnone, htrim⟩ := hfail d' ht
      cases e' <;> exact hok _ _ rfl rfl htrim fun _ s hs => absurd hs (hnone s)
  | ok q =>
      have htrim : ∀ {d' : Disk}, Trimmed (q <+: ·) a.disk.tree d'.tree →
          Trimmed (fun p => ∃ s, a.disk.tree.locate pl.staging = .ok s ∧ s <+: p)
            a.disk.tree d'.tree := fun ht => ht.mono fun p hp => ⟨q, hl, hp⟩
      have hgone : ∀ {d' : Disk}, Trimmed (q <+: ·) a.disk.tree d'.tree →
          d'.tree.node q = none → ∀ s, d'.tree.locate pl.staging = .ok s →
          d'.tree.node s = none := by
        intro d' ht hnone s hs
        rw [hsame ht hs] at hl
        cases hl
        exact hnone
      obtain ⟨r, -, -, hq⟩ := pl.locate_eq pl.not_special hl
      refine Io.wp_removeTree _ hl (fun d' ht hnone => ?_) fun e' d' ht hnone => ?_
      · exact hok _ true rfl rfl (htrim ht) fun _ => hgone ht (hnone (by simp [hq]))
      · cases e' with
        | notFound =>
            refine hok _ true rfl rfl (htrim ht) fun _ => hgone ht ?_
            rcases ht q with heq | ⟨hgone', -⟩
            · rw [heq]
              exact hnone rfl
            · exact hgone'
        | _ => exact hok _ false rfl rfl (htrim ht) fun h => by cases h

theorem wp_removeStaging {out : Outside} {Q : Unit → Attempt → Prop}
    (h : pl.Holding t₀ log finished a) (hok : ∀ a', pl.Removed t₀ log finished a' → Q () a') :
    Task.wp (removeStaging out pl.staging) Q E a := by
  obtain ⟨⟨r, t₁, hp, hs, -⟩, hlog, hguard⟩ := h
  refine wp_removeStaging_any fun a' done hlog' hguard' ht hgone => ?_
  have hs' : pl.Staged r t₁ a'.disk.tree := hs.step fun q hq => ht.outside fun ⟨s, hl, hpre⟩ => by
    rw [hs.locate_staging] at hl
    cases hl
    exact hq hpre
  exact hok _ ⟨hs'.finalKept hp, ⟨done, hlog ▸ hlog', hgone⟩, hguard'.trans hguard⟩

theorem Holding.finish (h : pl.Holding t₀ log finished a) :
    pl.Holding t₀ log true { a with finished := true } :=
  ⟨h.staged, h.logged, rfl⟩

end Steps

/-! ### Failures -/

/-- The failures of an engine are seen as such, and it stages here. -/
structure Reports {σ ι : Type} (att : Attempts σ ω ι) (view : ω → Verdict × Option RootPassword) :
    Prop where
  failed : ∀ step reason, view (att.failed step reason) = (.failed, none)
  staging : att.staging = pl.staging

section Failing

variable {pl} {σ ι α : Type} {att : Attempts σ ω ι} {view : ω → Verdict × Option RootPassword}
  {t₀ : Tree} {a : Attempt} {log : List Event} {finished : Bool} {step : ι}

theorem ends_dropped_bare (h : pl.Bare t₀ a) : pl.Ends view t₀ .dropped a :=
  ⟨pl.finalKept_of_paved h.paved, fun hs => by rw [h.log] at hs; cases hs⟩

theorem ends_dropped_unserved (h : pl.Holding t₀ log finished a) (hlog : .spawned ∉ log) :
    pl.Ends view t₀ .dropped a :=
  ⟨h.kept, fun hs => absurd (h.logged ▸ hs) hlog⟩

/-- The guard kills the server of an attempt that is dropped. -/
theorem ends_dropped_served (h : pl.Holding t₀ log false a) :
    pl.Ends view t₀ .dropped (dropGuard a) := by
  have hguard : dropGuard a = { a with log := a.log ++ [.killed] } := by simp [dropGuard, h.guard]
  rw [hguard]
  exact ⟨h.kept, fun _ => by simp⟩

theorem serverGone_append {more : List Event} (h : ServerGone log) (hmore : .spawned ∉ more) :
    ServerGone (log ++ more) := by
  intro hs
  have hs : .spawned ∈ log := (List.mem_append.mp hs).resolve_right hmore
  exact (h hs).imp (fun h => h.trans (List.sublist_append_left _ _))
    fun h => h.trans (List.sublist_append_left _ _)

/-- A server that was killed and waited for is gone. -/
theorem serverGone_killed : ServerGone (log ++ [.killed] ++ [.waited]) := by
  intro hs
  left
  have hs : .spawned ∈ log := by simpa using hs
  rw [List.append_assoc]
  exact (List.singleton_sublist.mpr hs).append (List.Sublist.refl _)

theorem returns_failed (h : pl.Removed t₀ log finished a) (hgone : ServerGone log) :
    pl.Returns t₀ a (.failed, none) := by
  obtain ⟨hkept, ⟨done, hlog, hdone⟩, -⟩ := h
  refine ⟨rfl, hkept, ?_, fun _ => ⟨done, by simp [hlog], hdone⟩⟩
  rw [hlog]
  exact serverGone_append hgone (by simp)

theorem ends_failed {reason : InitReason σ} (hrep : pl.Reports att view)
    (h : pl.Removed t₀ log finished a) (hgone : ServerGone log) :
    pl.Ends view t₀ (.returned (att.failed step reason)) a := by
  show pl.Returns t₀ a (view (att.failed step reason))
  rw [hrep.failed]
  exact returns_failed h hgone

theorem ends_failed_bare {reason : InitReason σ} (hrep : pl.Reports att view)
    (h : pl.Bare t₀ a) : pl.Ends view t₀ (.returned (att.failed step reason)) a := by
  show pl.Returns t₀ a (view (att.failed step reason))
  rw [hrep.failed]
  refine ⟨rfl, pl.finalKept_of_paved h.paved, fun hs => ?_, fun hs => ?_⟩ <;>
    · rw [h.log] at hs
      cases hs

theorem wp_fail {reason : InitReason σ} {Q : α → Attempt → Prop} (hrep : pl.Reports att view)
    (h : pl.Bare t₀ a) : Task.wp (fail att step reason) Q (pl.Ends view t₀) a :=
  ends_failed_bare hrep h

theorem wp_check {c : Check σ} {Q : Unit → Attempt → Prop} (hrep : pl.Reports att view)
    (h : pl.Bare t₀ a) (hok : Q () a) : Task.wp (check att step c) Q (pl.Ends view t₀) a := by
  rcases c with reason | ⟨⟩
  · exact wp_fail hrep h
  · exact hok

/-- A failure once something is staged and before there is a server. -/
theorem wp_failCleanup {reason : InitReason σ} {Q : α → Attempt → Prop}
    {E : Exit ω → Attempt → Prop} (hrep : pl.Reports att view) (h : pl.Holding t₀ log finished a)
    (hE : ∀ a', pl.Removed t₀ log finished a' → E (.returned (att.failed step reason)) a') :
    Task.wp (failCleanup att step reason) Q E a := by
  rw [failCleanup, Task.wp_bind, hrep.staging]
  exact wp_removeStaging h fun a' h' => hE a' h'

theorem serverGone_unserved (hlog : .spawned ∉ log) : ServerGone log := fun hs => absurd hs hlog

theorem wp_checkStaged {c : Check σ} {Q : Unit → Attempt → Prop} (hrep : pl.Reports att view)
    (h : pl.Holding t₀ log finished a) (hlog : .spawned ∉ log) (hok : Q () a) :
    Task.wp (checkStaged att step c) Q (pl.Ends view t₀) a := by
  rcases c with reason | ⟨⟩
  · exact wp_failCleanup hrep h fun a' h' => ends_failed hrep h' (serverGone_unserved hlog)
  · exact hok

/-- How a task ends that holds the guard. -/
def GuardedEnds (view : ω → Verdict × Option RootPassword) (t₀ : Tree) (e : Exit ω)
    (a : Attempt) : Prop := pl.Ends view t₀ e (dropGuard a)

theorem guardedEnds_of_finished {e : Exit ω} (hf : a.finished = true) (h : pl.Ends view t₀ e a) :
    pl.GuardedEnds view t₀ e a := by
  have hguard : dropGuard a = a := by simp [dropGuard, hf]
  rw [GuardedEnds, hguard]
  exact h

/-- **A failure once there is a server** kills it, waits for it and removes what is staged. -/
theorem wp_failTempServer {reason : InitReason σ} {Q : α → Attempt → Prop}
    (hrep : pl.Reports att view) (h : pl.Holding t₀ log false a) :
    Task.wp (failTempServer att step reason) Q (pl.GuardedEnds view t₀) a := by
  rw [failTempServer, Task.wp_bind, killAndWait, Task.wp_bind, hrep.staging]
  refine wp_note h fun a₁ h₁ => ?_
  rw [Task.wp_bind]
  refine wp_await_holding h₁ (fun a₂ h₂ => ?_) fun a₂ h₂ => ends_dropped_served h₂
  rw [Task.wp_bind]
  refine wp_noteExit h₂ fun a₃ h₃ _ => ?_
  refine wp_failCleanup (Q := Q) hrep h₃.finish fun a₄ h₄ =>
    guardedEnds_of_finished h₄.guard (ends_failed hrep h₄ serverGone_killed)

theorem wp_checkServed {c : Check σ} {Q : Unit → Attempt → Prop} (hrep : pl.Reports att view)
    (h : pl.Holding t₀ log false a) (hok : c = .ok () → Q () a) :
    Task.wp (checkServed att step c) Q (pl.GuardedEnds view t₀) a := by
  rcases c with reason | ⟨⟩
  · exact wp_failTempServer hrep h
  · exact hok rfl

theorem wp_pollUntilReady (out : Outside) {Q : Bool → Attempt → Prop} :
    ∀ (turns : List PollTurn) {a : Attempt}, pl.Holding t₀ log false a →
      (∀ b a', pl.Holding t₀ log false a' → Q b a') →
      Task.wp (pollUntilReady out pl.staging turns) Q (pl.GuardedEnds view t₀) a
  | [], a, h, hQ => hQ false a h
  | turn :: rest, a, h, hQ => by
      rw [pollUntilReady, Task.wp_bind]
      refine wp_await_holding h (fun a₁ h₁ => ?_) fun a₁ h₁ => ends_dropped_served h₁
      split
      · exact hQ true a₁ h₁
      · split
        · exact hQ false a₁ h₁
        · split
          · exact hQ false a₁ h₁
          · rw [Task.wp_bind]
            exact wp_await_holding h₁ (fun a₂ h₂ => wp_pollUntilReady out rest h₂ hQ)
              fun a₂ h₂ => ends_dropped_served h₂

/-- **The staging directory is created**, and is a new one. -/
theorem wp_createStaging {Q : Unit → Attempt → Prop} (hrep : pl.Reports att view)
    (hfresh : pl.Fresh t₀) (h : pl.Bare t₀ a)
    (hok : ∀ a', pl.Holding t₀ [.created] false a' → Q () a') :
    Task.wp (createStaging att step) Q (pl.Ends view t₀) a := by
  rw [createStaging, Task.wp_bind, hrep.staging]
  refine wp_onDisk ?_
  rw [Io.wp_attempt]
  refine Io.wp_mono Io.wp_createDirAll_paved (fun _ d' hd => ?_)
    fun e d' hd => ends_failed_bare hrep ⟨h.paved.trans hd, h.log, h.unfinished⟩
  obtain ⟨t₁, hp, hmade⟩ := hd
  have hp := h.paved.trans hp
  obtain ⟨r, hs, hdir⟩ := pl.staged_of_created hfresh hp hmade
  refine hok _ ⟨⟨r, t₁, hp, hs, hdir⟩, ?_, h.unfinished⟩
  show a.log ++ [.created] = [.created]
  rw [h.log]
  rfl

end Failing

/-! ### The end of an attempt -/

section Finishing

variable {pl} {σ ι α : Type} {att : Attempts σ ω ι} {view : ω → Verdict × Option RootPassword}
  {t₀ : Tree} {a a' : Attempt} {log : List Event} {finished : Bool}

/-- What a finalization comes to, whichever engine's. -/
def FinalizedTo (t t' : Tree) (done : Prop) : Prop :=
  (done ∧ ∃ s f, t.locate pl.staging = .ok s ∧ t.locate pl.finalDir = .ok f ∧
    Published t t' s f) ∨ (¬ done ∧ Trimmed (Clutter t pl.finalDir) t t')

theorem Holding.solid (h : pl.Holding t₀ log finished a) : ∀ q target,
    a.disk.tree.locate pl.staging = .ok q → a.disk.tree.node q ≠ some (.symlink target) := by
  obtain ⟨⟨r, t₁, -, hs, hd⟩, -, -⟩ := h
  intro q target hl hlink
  rw [hs.locate_staging] at hl
  cases hl
  simp [Tree.isDir, hlink, Node.isDir] at hd

theorem wp_finalizeStaging (os : Os) (h : pl.Holding t₀ log finished a) :
    Io.wp (finalizeStaging os pl.staging pl.finalDir : Io Empty _)
      (fun o d' => pl.FinalizedTo a.disk.tree d'.tree (o = .initialized) ∧
        (o = .initialized ∨ ∃ step reason, o = .failed step reason))
      (fun _ _ => False) a.disk := by
  simp only [finalizeStaging, Io.wp_bind, Io.wp_attempt]
  refine Io.wp_mono (wp_finalize os pl.shaped pl.finalPlain pl.ne (wp_classifyDatadir os) id h.solid)
    (fun _ d' hd => ?_) fun e d' hd => ⟨.inr ⟨by simp, hd⟩, .inr ⟨_, _, rfl⟩⟩
  obtain ⟨s, f, hs, hf, -, hp⟩ := hd
  exact ⟨.inl ⟨rfl, s, f, hs, hf, hp⟩, .inl rfl⟩

theorem wp_finalizeMariadbStaging (os : Os) (h : pl.Holding t₀ log finished a) :
    Io.wp (finalizeMariadbStaging os pl.staging pl.finalDir : Io Empty _)
      (fun o d' => pl.FinalizedTo a.disk.tree d'.tree (o = .initialized) ∧
        (o = .initialized ∨ ∃ step reason, o = .failed step reason))
      (fun _ _ => False) a.disk := by
  simp only [finalizeMariadbStaging, Io.wp_bind, Io.wp_attempt]
  refine Io.wp_mono (wp_finalize os pl.shaped pl.finalPlain pl.ne (wp_classifyMariadbDatadir os)
    And.left h.solid) (fun _ d' hd => ?_) fun e d' hd => ⟨.inr ⟨by simp, hd⟩, .inr ⟨_, _, rfl⟩⟩
  obtain ⟨s, f, hs, hf, -, hp⟩ := hd
  exact ⟨.inl ⟨rfl, s, f, hs, hf, hp⟩, .inl rfl⟩

/-- The staging directory of a finalization that failed is removed. -/
theorem wp_removeStaging_after {out : Outside} {Q : Unit → Attempt → Prop}
    {E : Exit ω → Attempt → Prop} (h : pl.Holding t₀ log finished a)
    (ht : Trimmed (Clutter a.disk.tree pl.finalDir) a.disk.tree a'.disk.tree)
    (hlog : a'.log = a.log) (hguard : a'.finished = a.finished)
    (hok : ∀ a'', pl.Removed t₀ log finished a'' → Q () a'') :
    Task.wp (removeStaging out pl.staging) Q E a' := by
  obtain ⟨⟨r, t₁, hp, hs, -⟩, hlogged, hguarded⟩ := h
  refine wp_removeStaging_any fun a'' done hlog' hguard' ht' hgone => hok a''
    ⟨hs.finalKept_trimmed ht ht' hp, ⟨done, ?_, hgone⟩, hguard'.trans (hguard.trans hguarded)⟩
  rw [hlog', hlog, hlogged]

/-- What is logged once the server of an attempt has been shut down and has exited. -/
def exitedLog (password : RootPassword) : List Event :=
  [.created, .spawned, .accepted password, .shutDown, .waited]

theorem serverGone_exited (password : RootPassword) : ServerGone (exitedLog password) := by
  intro _
  right
  exact .cons _ (.cons_cons _ (.cons _ (List.Sublist.refl _)))

/-- **A finalization that goes through has moved what the server left.** -/
theorem moved_of_finalized {password : RootPassword} {d' : Disk} {done : Prop}
    (h : pl.Holding t₀ (exitedLog password) true a) (hexit : a.atExit = some a.disk.tree)
    (hfin : pl.FinalizedTo a.disk.tree d'.tree done) (hdone : done) :
    pl.Moved password { a with disk := d', log := a.log ++ [.moved] } := by
  obtain ⟨-, s, f, hs, hf, hpub⟩ | ⟨hnot, -⟩ := hfin
  · refine ⟨?_, a.disk.tree, s, f, hexit, hs, hf, hpub⟩
    show List.Sublist _ (a.log ++ [.moved])
    rw [h.logged]
    exact .cons_cons _ (.cons_cons _ (.cons_cons _ (.cons _ (List.Sublist.refl _))))
  · exact absurd hdone hnot

theorem guarded_returns {o : ω} (hf : a.finished = true) (h : pl.Returns t₀ a (view o)) :
    pl.GuardedEnds view t₀ (.returned o) a :=
  guardedEnds_of_finished hf h

end Finishing

/-! ### MySQL -/

def mysqlView : MysqlAnswers.Result → Verdict × Option RootPassword
  | (.initialized, password) => (.initialized, password)
  | (.failed _ _, password) => (.failed, password)
  | (.alreadyInitialized, password) | (.foreign _ _, password) => (.reported, password)

section Mysql

variable {pl} {ans : MysqlAnswers} {t₀ : Tree} {a : Attempt} {log : List Event} {finished : Bool}

/-- The mode of a staged directory changes, and nothing else. -/
theorem Holding.chmod {mode : Nat} {t' : Tree} (h : pl.Holding t₀ log finished a)
    (ht : a.disk.tree.chmod pl.staging mode = .ok t') {d : Disk} (hd : d.tree = t') :
    pl.Holding t₀ log finished { a with disk := d } := by
  obtain ⟨⟨r, t₁, hp, hs, hdir⟩, hlog, hguard⟩ := h
  obtain ⟨m, hm⟩ := Tree.isDir_iff.mp hdir
  have hput : t' = a.disk.tree.put (r ++ [pl.name]) (.dir (some mode)) := by
    rw [Tree.chmod, Place.staging, Tree.resolve_append_dir pl.not_special hdir hs.resolve] at ht
    simpa [hm, Tree.setMode] using ht.symm
  have hnode := Tree.put_node_of_some (x := .dir (some mode)) hm fun _ => rfl
  refine ⟨⟨r, t₁, hp, ?_⟩, hlog, hguard⟩
  show pl.Staged r t₁ d.tree ∧ d.tree.isDir (r ++ [pl.name]) = true
  rw [hd, hput]
  refine ⟨hs.step fun q hq => ?_, ?_⟩
  · rw [hnode, if_neg]
    rintro rfl
    exact hq (List.prefix_refl _)
  · rw [Tree.isDir, hnode, if_pos rfl]
    rfl

theorem wp_lockDown {Q : Unit → Attempt → Prop} (hrep : pl.Reports ans.attempts mysqlView)
    (h : pl.Holding t₀ log false a) (hlog : .spawned ∉ log)
    (hok : ∀ a', pl.Holding t₀ log false a' → Q () a') :
    Task.wp ans.lockDown Q (pl.Ends mysqlView t₀) a := by
  have hst : ans.staging = pl.staging := hrep.staging
  rw [MysqlAnswers.lockDown, Task.wp_bind, hst]
  refine wp_onDisk ?_
  rw [Io.wp_attempt]
  refine Io.wp_update (fun d' hch _ _ => hok _ (h.chmod hch rfl)) fun e d' hk _ => ?_
  have h' : pl.Holding t₀ log false { a with disk := d' } := by
    refine ⟨?_, h.logged, h.guard⟩
    show ∃ r t₁, _ ∧ pl.Staged r t₁ d'.tree ∧ d'.tree.isDir (r ++ [pl.name]) = true
    rw [hk.tree]
    exact h.staged
  exact wp_failCleanup hrep h' fun a' ha => ends_failed hrep ha (serverGone_unserved hlog)

/-- The server has exited once this is through. -/
theorem wp_awaitExit {Q : Unit → Attempt → Prop} (hrep : pl.Reports ans.attempts mysqlView)
    (h : pl.Holding t₀ log false a)
    (hok : ∀ a', pl.Holding t₀ (log ++ [.waited]) true a' → a'.atExit = some a'.disk.tree →
      Q () a') :
    Task.wp ans.awaitExit Q (pl.GuardedEnds mysqlView t₀) a := by
  have hst : ans.staging = pl.staging := hrep.staging
  rw [MysqlAnswers.awaitExit, Task.wp_bind, hst]
  refine wp_await_holding h (fun a₁ h₁ => ?_) fun a₁ h₁ => ends_dropped_served h₁
  split
  · rw [Task.wp_bind]
    exact wp_noteExit h₁ fun a₂ h₂ hexit => hok _ h₂.finish hexit
  · exact wp_failTempServer hrep h₁

theorem wp_finish (hrep : pl.Reports ans.attempts mysqlView)
    (hfinal : ans.paths.datadir = pl.finalDir)
    (h : pl.Holding t₀ (exitedLog ans.password) true a) (hexit : a.atExit = some a.disk.tree) :
    Task.wp ans.finish (fun o => pl.GuardedEnds mysqlView t₀ (.returned o))
      (pl.GuardedEnds mysqlView t₀) a := by
  have hst : ans.staging = pl.staging := hrep.staging
  rw [MysqlAnswers.finish, Task.wp_bind, hst, hfinal]
  refine wp_onDisk (Io.wp_mono (wp_finalizeStaging _ h) (fun o d' hd => ?_) fun _ _ h => h)
  obtain ⟨hfin, rfl | ⟨step, reason, rfl⟩⟩ := hd
  · exact guarded_returns h.guard ⟨_, rfl, moved_of_finalized (a := a) h hexit hfin rfl⟩
  · obtain ⟨hdone, -⟩ | ⟨-, ht⟩ := hfin
    · cases hdone
    · dsimp only
      rw [Task.wp_bind]
      exact wp_removeStaging_after h ht rfl rfl fun a' ha =>
        guarded_returns ha.guard (returns_failed ha (serverGone_exited _))

/-- From the spawn of the temporary server on. -/
theorem wp_serve (hrep : pl.Reports ans.attempts mysqlView)
    (hfinal : ans.paths.datadir = pl.finalDir) (h : pl.Holding t₀ [.created] false a) :
    Task.wp ans.serve (fun o => pl.GuardedEnds mysqlView t₀ (.returned o))
      (pl.GuardedEnds mysqlView t₀) a := by
  have hst : ans.staging = pl.staging := hrep.staging
  rw [MysqlAnswers.serve, hst, Task.wp_bind]
  refine wp_note h fun a₁ h₁ => ?_
  rw [Task.wp_bind]
  refine wp_pollUntilReady _ _ h₁ fun ready a₂ h₂ => ?_
  rw [Task.wp_bind]
  refine wp_checkServed hrep h₂ fun _ => ?_
  rw [Task.wp_bind]
  refine wp_await_holding h₂ (fun a₃ h₃ => ?_) fun a₃ h₃ => ends_dropped_served h₃
  rw [Task.wp_bind]
  refine wp_checkServed hrep h₃ fun _ => ?_
  rw [Task.wp_bind]
  refine wp_note h₃ fun a₄ h₄ => ?_
  rw [Task.wp_bind]
  refine wp_checkServed hrep h₄ fun _ => ?_
  rw [Task.wp_bind]
  refine wp_await_holding h₄ (fun a₅ h₅ => ?_) fun a₅ h₅ => ends_dropped_served h₅
  rw [Task.wp_bind]
  refine wp_checkServed hrep h₅ fun _ => ?_
  rw [Task.wp_bind]
  refine wp_note h₅ fun a₆ h₆ => ?_
  rw [Task.wp_bind]
  exact wp_awaitExit hrep h₆ fun a₇ h₇ hexit => wp_finish hrep hfinal h₇ hexit

/-- **`run_mysql_init` is all or nothing.** -/
theorem wp_runMysqlInit (hrep : pl.Reports ans.attempts mysqlView)
    (hfinal : ans.paths.datadir = pl.finalDir) (hfresh : pl.Fresh t₀) (h : pl.Bare t₀ a) :
    Task.wp ans.runMysqlInit (fun o => pl.Ends mysqlView t₀ (.returned o))
      (pl.Ends mysqlView t₀) a := by
  have hst : ans.staging = pl.staging := hrep.staging
  rw [MysqlAnswers.runMysqlInit, hst, Task.wp_bind]
  refine wp_check hrep h ?_
  rw [Task.wp_bind]
  refine wp_check hrep h ?_
  rw [Task.wp_bind]
  refine wp_check hrep h ?_
  rw [Task.wp_bind]
  refine wp_await_bare hfresh h (fun a₁ h₁ => ?_) fun a₁ h₁ => ends_dropped_bare h₁
  rw [Task.wp_bind]
  refine wp_check hrep h₁ ?_
  rw [Task.wp_bind]
  refine wp_createStaging hrep hfresh h₁ fun a₂ h₂ => ?_
  rw [Task.wp_bind]
  refine wp_lockDown hrep h₂ (by simp) fun a₃ h₃ => ?_
  rw [Task.wp_bind]
  refine wp_await_holding h₃ (fun a₄ h₄ => ?_) fun a₄ h₄ => ends_dropped_unserved h₄ (by simp)
  rw [Task.wp_bind]
  refine wp_checkStaged hrep h₄ (by simp) ?_
  rw [Task.wp_bind]
  refine wp_checkStaged hrep h₄ (by simp) ?_
  rw [Task.wp_bind]
  refine wp_checkStaged hrep h₄ (by simp) ?_
  rw [Task.wp_guarded]
  exact wp_serve hrep hfinal h₄

end Mysql

/-! ### MariaDB -/

def mariadbView : MariadbAnswers.Result → Verdict × Option RootPassword
  | (.initialized, password) => (.initialized, password)
  | (.failed _ _, password) => (.failed, password)
  | (.alreadyInitialized, password) | (.foreign _, password) => (.reported, password)

section Mariadb

variable {pl} {ans : MariadbAnswers} {t₀ : Tree} {a : Attempt} {log : List Event}

/-- A datadir that is reported has been looked at and nothing more. -/
theorem wp_classifyFinal {Q : Unit → Attempt → Prop} (hrep : pl.Reports ans.attempts mariadbView)
    (h : pl.Bare t₀ a) (hsame : a.disk.tree = t₀) (hok : ∀ a', pl.Bare t₀ a' → Q () a') :
    Task.wp ans.classifyFinal Q (pl.Ends mariadbView t₀) a := by
  have hbare : ∀ {d' : Disk}, d'.tree = a.disk.tree → pl.Bare t₀ { a with disk := d' } :=
    fun hd => ⟨hd.symm ▸ h.paved, h.log, h.unfinished⟩
  have hreported : ∀ {d' : Disk}, d'.tree = a.disk.tree →
      pl.Returns t₀ { a with disk := d' } (.reported, none) := fun hd =>
    ⟨rfl, h.log, fun q => by rw [← hsame, ← hd]⟩
  rw [MariadbAnswers.classifyFinal, Task.wp_bind]
  refine wp_onDisk ?_
  rw [Io.wp_attempt]
  refine Io.wp_mono (wp_classifyMariadbDatadir _) (fun state d' hd => ?_) fun e d' hd =>
    wp_fail hrep (hbare hd)
  cases state with
  | notInitialized => exact hok _ (hbare hd.1)
  | initialized _ => exact hreported hd.1
  | _ => exact hreported hd.1

theorem wp_awaitInstall {Q : Unit → Attempt → Prop} (hrep : pl.Reports ans.attempts mariadbView)
    (h : pl.Holding t₀ log false a) (hlog : .spawned ∉ log)
    (hok : ∀ a', pl.Holding t₀ log false a' → Q () a') :
    Task.wp ans.awaitInstall Q (pl.Ends mariadbView t₀) a := by
  have hst : ans.staging = pl.staging := hrep.staging
  have hfail : ∀ {a' step reason}, pl.Holding t₀ log false a' →
      Task.wp (failCleanup ans.attempts step reason) Q (pl.Ends mariadbView t₀) a' :=
    fun h' => wp_failCleanup hrep h' fun _ ha => ends_failed hrep ha (serverGone_unserved hlog)
  rw [MariadbAnswers.awaitInstall, hst, Task.wp_bind]
  refine wp_await_holding h (fun a₁ h₁ => ?_) fun a₁ h₁ => ends_dropped_unserved h₁ hlog
  split
  · split
    · exact hok _ h₁
    · exact hfail h₁
  · exact hfail h₁
  · exact hfail h₁
  · rw [Task.wp_bind]
    exact wp_await_holding h₁ (fun a₂ h₂ => hfail h₂) fun a₂ h₂ => ends_dropped_unserved h₂ hlog

theorem wp_mariadbFinish (hrep : pl.Reports ans.attempts mariadbView)
    (hfinal : ans.paths.datadir = pl.finalDir)
    (h : pl.Holding t₀ (exitedLog ans.password) true a) (hexit : a.atExit = some a.disk.tree) :
    Task.wp ans.finish (fun o => pl.GuardedEnds mariadbView t₀ (.returned o))
      (pl.GuardedEnds mariadbView t₀) a := by
  have hst : ans.staging = pl.staging := hrep.staging
  rw [MariadbAnswers.finish, Task.wp_bind, hst, hfinal]
  refine wp_onDisk (Io.wp_mono (wp_finalizeMariadbStaging _ h) (fun o d' hd => ?_) fun _ _ h => h)
  obtain ⟨hfin, rfl | ⟨step, reason, rfl⟩⟩ := hd
  · exact guarded_returns h.guard ⟨_, rfl, moved_of_finalized (a := a) h hexit hfin rfl⟩
  · obtain ⟨hdone, -⟩ | ⟨-, ht⟩ := hfin
    · cases hdone
    · dsimp only
      rw [Task.wp_bind]
      exact wp_removeStaging_after h ht rfl rfl fun a' ha =>
        guarded_returns ha.guard (returns_failed ha (serverGone_exited _))

theorem wp_mariadbServe (hrep : pl.Reports ans.attempts mariadbView)
    (hfinal : ans.paths.datadir = pl.finalDir) (h : pl.Holding t₀ [.created] false a) :
    Task.wp ans.serve (fun o => pl.GuardedEnds mariadbView t₀ (.returned o))
      (pl.GuardedEnds mariadbView t₀) a := by
  have hst : ans.staging = pl.staging := hrep.staging
  rw [MariadbAnswers.serve, hst, Task.wp_bind]
  refine wp_note h fun a₁ h₁ => ?_
  rw [Task.wp_bind]
  refine wp_pollUntilReady _ _ h₁ fun ready a₂ h₂ => ?_
  rw [Task.wp_bind]
  refine wp_checkServed hrep h₂ fun _ => ?_
  rw [Task.wp_bind]
  refine wp_await_holding h₂ (fun a₃ h₃ => ?_) fun a₃ h₃ => ends_dropped_served h₃
  rw [Task.wp_bind]
  refine wp_checkServed hrep h₃ fun _ => ?_
  rw [Task.wp_bind]
  refine wp_note h₃ fun a₄ h₄ => ?_
  rw [Task.wp_bind]
  refine wp_checkServed hrep h₄ fun _ => ?_
  rw [Task.wp_bind]
  refine wp_await_holding h₄ (fun a₅ h₅ => ?_) fun a₅ h₅ => ends_dropped_served h₅
  rw [Task.wp_bind]
  refine wp_checkServed hrep h₅ fun _ => ?_
  rw [Task.wp_bind]
  refine wp_note h₅ fun a₆ h₆ => ?_
  rw [Task.wp_bind]
  refine wp_await_holding h₆ (fun a₇ h₇ => ?_) fun a₇ h₇ => ends_dropped_served h₇
  rw [Task.wp_bind]
  refine wp_noteExit h₇ fun a₈ h₈ hexit => ?_
  exact wp_mariadbFinish hrep hfinal h₈.finish hexit

/-- **`initialize_mariadb` is all or nothing.** -/
theorem wp_initializeMariadb (hrep : pl.Reports ans.attempts mariadbView)
    (hfinal : ans.paths.datadir = pl.finalDir) (hfresh : pl.Fresh t₀) (h : pl.Bare t₀ a)
    (hsame : a.disk.tree = t₀) :
    Task.wp ans.initializeMariadb (fun o => pl.Ends mariadbView t₀ (.returned o))
      (pl.Ends mariadbView t₀) a := by
  rw [MariadbAnswers.initializeMariadb, Task.wp_bind]
  refine wp_classifyFinal hrep h hsame fun a₁ h₁ => ?_
  rw [Task.wp_bind]
  refine wp_check hrep h₁ ?_
  rw [Task.wp_bind]
  refine wp_check hrep h₁ ?_
  rw [Task.wp_bind]
  refine wp_check hrep h₁ ?_
  rw [Task.wp_bind]
  refine wp_check hrep h₁ ?_
  rw [Task.wp_bind]
  refine wp_check hrep h₁ ?_
  rw [Task.wp_bind]
  refine wp_check hrep h₁ ?_
  rw [Task.wp_bind]
  refine wp_createStaging hrep hfresh h₁ fun a₂ h₂ => ?_
  rw [Task.wp_bind]
  refine wp_checkStaged hrep h₂ (by simp) ?_
  rw [Task.wp_bind]
  refine wp_awaitInstall hrep h₂ (by simp) fun a₃ h₃ => ?_
  rw [Task.wp_bind]
  refine wp_checkStaged hrep h₃ (by simp) ?_
  rw [Task.wp_guarded]
  exact wp_mariadbServe hrep hfinal h₃

end Mariadb

end Place

/-! ### Every attempt -/

/-- The place of an engine's attempt, given what `engine_paths` makes of a home. -/
def enginePlace (home : Path) (engine major : Name) (suffix : UuidHex)
    (hplain : Plain (home ++ ["data".toList, engine])) (hmajor : majorMinorShape major = true) :
    Place where
  parent := home ++ ["data".toList, engine]
  name := stagingName major suffix
  final := major
  plain := hplain
  shaped := isStaleStagingName_stagingName hmajor suffix
  finalPlain := not_special_of_shape hmajor
  ne := by
    rintro heq
    have hstaged := isStaleStagingName_stagingName hmajor suffix
    rw [heq, not_staging_of_shape hmajor] at hstaged
    cases hstaged

theorem plain_dataRoot {home : Path} (h : Plain home) {engine : Name}
    (hengine : special engine = false) : Plain (home ++ ["data".toList, engine]) := by
  rw [Tree.plain_append]
  refine ⟨h, fun n hn => ?_⟩
  rw [List.mem_pair] at hn
  rcases hn with rfl | rfl
  · decide
  · exact hengine

def mysqlPlace (home : Path) (h : Plain home) (major : MysqlMajor) (suffix : UuidHex) : Place :=
  enginePlace home "mysql".toList major.asStr suffix (plain_dataRoot h (by decide)) major.valid

def mariadbPlace (home : Path) (h : Plain home) (suffix : UuidHex) : Place :=
  enginePlace home "mariadb".toList mariadbSeries suffix (plain_dataRoot h (by decide))
    shape_mariadbSeries

theorem bare_start (pl : Place) (d : Disk) : pl.Bare d.tree (Attempt.start d) :=
  ⟨Paved.refl _ _, rfl, rfl⟩

theorem mysql_ends (home : Path) (hhome : Plain home) (d : Disk) (ans : MysqlAnswers)
    (hpaths : ans.paths = mysqlPaths home ans.major)
    (hfresh : (mysqlPlace home hhome ans.major ans.suffix).Fresh d.tree) :
    (mysqlPlace home hhome ans.major ans.suffix).Ends Place.mysqlView d.tree
      (Task.finish ans.runMysqlInit (Attempt.start d)).1
      (Task.finish ans.runMysqlInit (Attempt.start d)).2 := by
  have hrep : (mysqlPlace home hhome ans.major ans.suffix).Reports ans.attempts
      Place.mysqlView := by
    refine ⟨fun _ _ => rfl, ?_⟩
    show stagingDirPath ans.paths.stagingParent ans.major ans.suffix = _
    rw [hpaths]
    rfl
  have hfinal : ans.paths.datadir = (mysqlPlace home hhome ans.major ans.suffix).finalDir := by
    rw [hpaths]
    simp [mysqlPaths, enginePaths, Place.finalDir, mysqlPlace, enginePlace]
  exact Task.finish_of_wp (Place.wp_runMysqlInit hrep hfinal hfresh (bare_start _ d))

theorem mariadb_ends (home : Path) (hhome : Plain home) (d : Disk) (ans : MariadbAnswers)
    (hpaths : ans.paths = mariadbPaths home)
    (hfresh : (mariadbPlace home hhome ans.suffix).Fresh d.tree) :
    (mariadbPlace home hhome ans.suffix).Ends Place.mariadbView d.tree
      (Task.finish ans.initializeMariadb (Attempt.start d)).1
      (Task.finish ans.initializeMariadb (Attempt.start d)).2 := by
  have hrep : (mariadbPlace home hhome ans.suffix).Reports ans.attempts Place.mariadbView := by
    refine ⟨fun _ _ => rfl, ?_⟩
    show mariadbStagingDirPath ans.paths.stagingParent ans.suffix = _
    rw [hpaths]
    rfl
  have hfinal : ans.paths.datadir = (mariadbPlace home hhome ans.suffix).finalDir := by
    rw [hpaths]
    simp [mariadbPaths, enginePaths, Place.finalDir, mariadbPlace, enginePlace]
  exact Task.finish_of_wp (Place.wp_initializeMariadb hrep hfinal hfresh (bare_start _ d) rfl)

/-- **Database initialization is all or nothing**, for either engine: whatever the children
answer and wherever the attempt is dropped, once the staging directory's name is a new one. -/
theorem initialization_all_or_nothing (home : Path) (hhome : Plain home) (d : Disk) :
    (∀ ans : MysqlAnswers, ans.paths = mysqlPaths home ans.major →
      (mysqlPlace home hhome ans.major ans.suffix).Fresh d.tree →
      (mysqlPlace home hhome ans.major ans.suffix).Ends Place.mysqlView d.tree
        (Task.finish ans.runMysqlInit (Attempt.start d)).1
        (Task.finish ans.runMysqlInit (Attempt.start d)).2) ∧
    ∀ ans : MariadbAnswers, ans.paths = mariadbPaths home →
      (mariadbPlace home hhome ans.suffix).Fresh d.tree →
      (mariadbPlace home hhome ans.suffix).Ends Place.mariadbView d.tree
        (Task.finish ans.initializeMariadb (Attempt.start d)).1
        (Task.finish ans.initializeMariadb (Attempt.start d)).2 :=
  ⟨mysql_ends home hhome d, mariadb_ends home hhome d⟩

/-- Children that write the given entries into the datadir they are given. -/
def writing (entries : List (Name × Node)) : Outside where
  os := orderly
  droppedAt := none
  effect _ s t := entries.foldl (fun t x => t.put (s ++ [x.1]) x.2) t
  beneath n s t q hq := by
    induction entries generalizing t with
    | nil => rfl
    | cons x entries ih =>
        refine (ih (t.put (s ++ [x.1]) x.2)).trans ?_
        rcases Tree.node_put_cases (t := t) x.2 (s ++ [x.1]) q with heq | ⟨rfl, -⟩
        · exact heq
        · simp at hq

def wentWell : Except String CliOutcome := .ok ⟨true, "", ""⟩

def sampleInit (entries : List (Name × Node)) : MysqlAnswers where
  out := writing entries
  paths := samplePaths
  major := sampleMajor
  suffix := sampleSuffix
  password := ⟨"fedcba9876543210".toList⟩
  runtimeDirs := true
  generated := .ok ()
  written := .ok ()
  validated := wentWell
  initTask := .ok (some 0)
  runDir := .ok ()
  spawned := .ok ()
  turns := [⟨true, false, false⟩]
  altered := wentWell
  defaultsFile := .ok ()
  shutdown := wentWell
  exits := true

def sampleInstall : MariadbAnswers where
  out := writing []
  paths := mariadbPaths sampleHome
  suffix := sampleSuffix
  password := ⟨"fedcba9876543210".toList⟩
  runtimeDirs := true
  installDbPath := true
  generated := .ok ()
  written := .ok ()
  runDir := .ok ()
  installSpawned := .ok ()
  installed := .exited (some 0)
  spawned := .ok ()
  turns := [⟨true, false, false⟩]
  altered := wentWell
  defaultsFile := .ok ()
  shutdown := wentWell

def rootDisk : Disk := ⟨Tree.ofNodes sampleRoot, [], []⟩

theorem plain_sampleHome : Plain sampleHome := by decide

theorem fresh_of_paths {pl : Place} {t : Tree} (h : ∀ q ∈ t.paths, pl.name ∉ q) : pl.Fresh t := by
  intro q hq
  by_contra hn
  exact h q (t.mem_paths q (Option.isSome_iff_ne_none.mpr hn)) hq

def sampleEntries : List (Name × Node) :=
  [(sentinelDir, .dir none), (mysqlSentinelFile, .file [1] none)]

theorem initialization_all_or_nothing_sample :
    (mysqlPlace sampleHome plain_sampleHome sampleMajor sampleSuffix).Ends Place.mysqlView
        rootDisk.tree (.returned (.initialized, some (sampleInit sampleEntries).password))
        (Task.finish (sampleInit sampleEntries).runMysqlInit (Attempt.start rootDisk)).2 ∧
      (mariadbPlace sampleHome plain_sampleHome sampleSuffix).Ends Place.mariadbView
        rootDisk.tree (Task.finish sampleInstall.initializeMariadb (Attempt.start rootDisk)).1
        (Task.finish sampleInstall.initializeMariadb (Attempt.start rootDisk)).2 := by
  have h := initialization_all_or_nothing sampleHome plain_sampleHome rootDisk
  have hinit : (Task.finish (sampleInit sampleEntries).runMysqlInit (Attempt.start rootDisk)).1 =
      .returned (.initialized, some (sampleInit sampleEntries).password) := by decide
  refine ⟨?_, h.2 sampleInstall rfl (fresh_of_paths (by decide))⟩
  rw [← hinit]
  exact h.1 (sampleInit sampleEntries) rfl (fresh_of_paths (by decide))

/-- **A server that was shut down is not killed**: where the staged directory cannot be
finalized, the attempt fails and no kill has been sent. -/
theorem shut_down_unkilled :
    (Task.finish (sampleInit []).runMysqlInit (Attempt.start rootDisk)).1 = .returned
      (.failed .finalize (.finalize (.notInitialized sampleStaging .notInitialized)), none) ∧
      .spawned ∈ (Task.finish (sampleInit []).runMysqlInit (Attempt.start rootDisk)).2.log ∧
      .killed ∉ (Task.finish (sampleInit []).runMysqlInit (Attempt.start rootDisk)).2.log := by
  decide

end OpenVHost.Datadir
