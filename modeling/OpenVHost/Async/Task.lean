/-
# Tasks that can be dropped

A task runs over a state and ends with a result, with an early return, or dropped at one of
its awaits. What a task holds is released when it is left, however it is left: `guarded`
runs a body and then the release.

* `wp_bind`, `wp_early`, `wp_guarded` — the rules by which a property of every way out of a
  task is shown.
-/

import Mathlib.Init

namespace Async

/-- How a task is left before its end. -/
inductive Exit (ω : Type) where
  | returned (o : ω)
  | dropped
  deriving DecidableEq, Repr

/-- A task over a state `σ` that can return an `ω` early. -/
abbrev Task (σ ω : Type) := EStateM (Exit ω) σ

namespace Task

variable {σ ω α β : Type}

/-- `return o`, from anywhere in the task. -/
def early (o : ω) : Task σ ω α := fun s => .error (.returned o) s

def modify (f : σ → σ) : Task σ ω Unit := fun s => .ok () (f s)

/-- An await: the state moves on, and the task is dropped there or goes on. -/
def await (isDropped : σ → Bool) (f : σ → σ) : Task σ ω Unit := fun s =>
  if isDropped s then .error .dropped (f s) else .ok () (f s)

/-- A body that holds something, which is released when the body is left. -/
def guarded (release : σ → σ) (body : Task σ ω α) : Task σ ω α := fun s =>
  match body s with
  | .ok a s' => .ok a (release s')
  | .error e s' => .error e (release s')

/-- How a task ends: the value at its end is what it returns. -/
def finish (x : Task σ ω ω) (s : σ) : Exit ω × σ :=
  match x s with
  | .ok o s' => (.returned o, s')
  | .error e s' => (e, s')

/-- Running `x` from `s` ends in `Q` with a value or in `E` when it is left early. -/
def wp (x : Task σ ω α) (Q : α → σ → Prop) (E : Exit ω → σ → Prop) (s : σ) : Prop :=
  match x s with
  | .ok a s' => Q a s'
  | .error e s' => E e s'

section Rules

variable {Q Q' : α → σ → Prop} {E E' : Exit ω → σ → Prop} {s : σ}

theorem wp_mono {x : Task σ ω α} (h : wp x Q E s) (hQ : ∀ a s', Q a s' → Q' a s')
    (hE : ∀ e s', E e s' → E' e s') : wp x Q' E' s := by
  unfold wp at h ⊢
  cases hx : x s with
  | ok a s' => exact hQ a s' (by simpa [hx] using h)
  | error e s' => exact hE e s' (by simpa [hx] using h)

@[simp] theorem wp_pure {a : α} : wp (pure a) Q E s ↔ Q a s := Iff.rfl

@[simp] theorem wp_early {o : ω} : wp (early o : Task σ ω α) Q E s ↔ E (.returned o) s := Iff.rfl

@[simp] theorem wp_modify {f : σ → σ} {Q : Unit → σ → Prop} :
    wp (modify f : Task σ ω Unit) Q E s ↔ Q () (f s) := Iff.rfl

@[simp] theorem wp_bind {x : Task σ ω β} {f : β → Task σ ω α} :
    wp (x >>= f) Q E s ↔ wp x (fun b s' => wp (f b) Q E s') E s := by
  show wp (EStateM.bind x f) Q E s ↔ _
  unfold wp EStateM.bind
  cases x s <;> rfl

theorem wp_await {isDropped : σ → Bool} {f : σ → σ} {Q : Unit → σ → Prop}
    (hok : isDropped s = false → Q () (f s)) (hdrop : isDropped s = true → E .dropped (f s)) :
    wp (await isDropped f : Task σ ω Unit) Q E s := by
  unfold wp await
  cases hd : isDropped s with
  | false => simpa [hd] using hok hd
  | true => simpa [hd] using hdrop hd

@[simp] theorem wp_guarded {release : σ → σ} {x : Task σ ω α} :
    wp (guarded release x) Q E s ↔
      wp x (fun a s' => Q a (release s')) (fun e s' => E e (release s')) s := by
  unfold wp guarded
  cases x s <;> rfl

/-- Both ways out of a task are ways in which it ends. -/
theorem finish_of_wp {x : Task σ ω ω} {P : Exit ω → σ → Prop}
    (h : wp x (fun o => P (.returned o)) P s) : P (finish x s).1 (finish x s).2 := by
  unfold finish
  unfold wp at h
  cases hx : x s with
  | ok o s' => simpa [hx] using h
  | error e s' => simpa [hx] using h

end Rules

/-! ### Whatever the state -/

/-- From any state a task ends in `Q` with a value or in `E` when it is left early. -/
def Meets (x : Task σ ω α) (Q : α → Prop) (E : Exit ω → Prop) : Prop :=
  ∀ s, wp x (fun a _ => Q a) (fun e _ => E e) s

section Meets

variable {Q Q' : α → Prop} {E : Exit ω → Prop}

theorem meets_pure {a : α} (h : Q a) : Meets (pure a : Task σ ω α) Q E := fun _ => h

theorem meets_early {o : ω} (h : E (.returned o)) : Meets (early o : Task σ ω α) Q E := fun _ => h

theorem meets_modify {f : σ → σ} {Q : Unit → Prop} (h : Q ()) :
    Meets (modify f : Task σ ω Unit) Q E := fun _ => h

theorem meets_await {isDropped : σ → Bool} {f : σ → σ} {Q : Unit → Prop} (h : Q ())
    (hdrop : E .dropped) : Meets (await isDropped f : Task σ ω Unit) Q E :=
  fun _ => wp_await (fun _ => h) fun _ => hdrop

theorem meets_bind {x : Task σ ω β} {f : β → Task σ ω α} {R : β → Prop} (hx : Meets x R E)
    (hf : ∀ b, R b → Meets (f b) Q E) : Meets (x >>= f) Q E := by
  intro s
  rw [wp_bind]
  exact wp_mono (hx s) (fun b s' hb => hf b hb s') fun _ _ he => he

theorem meets_then {x : Task σ ω β} {f : β → Task σ ω α} (hx : Meets x (fun _ => True) E)
    (hf : ∀ b, Meets (f b) Q E) : Meets (x >>= f) Q E :=
  meets_bind hx fun b _ => hf b

theorem meets_guarded {release : σ → σ} {x : Task σ ω α} (h : Meets x Q E) :
    Meets (guarded release x) Q E := by
  intro s
  rw [wp_guarded]
  exact h s

theorem meets_finish {x : Task σ ω ω} (h : Meets x (fun o => E (.returned o)) E) (s : σ) :
    E (finish x s).1 :=
  @finish_of_wp _ _ _ x (fun e _ => E e) (h s)

end Meets

end Task

end Async
