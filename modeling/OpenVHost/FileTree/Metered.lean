/-
# Programs that account for the bytes they write

A metered program keeps a list of what it has written into files, next to the disk. The list
is kept when the program fails, so it says what was written up to that point.

* `Metered.Meters` — without its list, a metered program is a given one.
* `Metered.wp` — the weakest precondition over the list alone.
-/

import OpenVHost.FileTree.Faults

namespace FileTree

/-- Bytes that one operation has written into a file. -/
inductive Spent where
  | append (p : Path) (bytes : Nat)
  | copy (dst : Path) (bytes : Nat)
  deriving DecidableEq, Repr

def Spent.bytes : Spent → Nat
  | append _ bytes | copy _ bytes => bytes

/-- The bytes of a list of operations. -/
def spentBytes (log : List Spent) : Nat := (log.map Spent.bytes).foldl (· + ·) 0

theorem foldl_add (ns : List Nat) (n : Nat) : ns.foldl (· + ·) n = n + ns.foldl (· + ·) 0 := by
  induction ns generalizing n with
  | nil => rfl
  | cons m ns ih =>
      simp only [List.foldl_cons]
      rw [ih (n + m), ih (0 + m)]
      omega

theorem spentBytes_append (log more : List Spent) :
    spentBytes (log ++ more) = spentBytes log + spentBytes more := by
  simp only [spentBytes, List.map_append, List.foldl_append]
  exact foldl_add _ _

@[simp] theorem spentBytes_nil : spentBytes [] = 0 := rfl

@[simp] theorem spentBytes_concat (log : List Spent) (s : Spent) :
    spentBytes (log ++ [s]) = spentBytes log + s.bytes := by
  rw [spentBytes_append]
  simp [spentBytes]

/-- A program over a disk and the list of what it has written. -/
abbrev Metered (ε : Type) := EStateM ε (Disk × List Spent)

namespace Metered

variable {ε ε' α β : Type}

/-- A program that writes no bytes into files. -/
def lift (x : Io ε α) : Metered ε α := fun s =>
  match x s.1 with
  | .ok a d => .ok a (d, s.2)
  | .error e d => .error e (d, s.2)

def mapErr (f : ε → ε') (x : Metered ε α) : Metered ε' α := fun s =>
  match x s with
  | .ok a s' => .ok a s'
  | .error e s' => .error (f e) s'

/-- What an operation that fails has written: that much of its bytes, if a fault struck it and
it can be made at all. -/
def partly (d : Disk) (wrote : Fault → Tree → Option Nat) : Nat :=
  match d.nextFault with
  | some fault => (wrote fault d.tree).getD 0
  | none => 0

theorem partly_le {d : Disk} {wrote : Fault → Tree → Option Nat} {n : Nat}
    (h : ∀ fault t k, wrote fault t = some k → k ≤ n) : partly d wrote ≤ n := by
  unfold partly
  cases d.nextFault with
  | none => exact Nat.zero_le n
  | some fault =>
      dsimp only
      cases hw : wrote fault d.tree with
      | none => exact Nat.zero_le n
      | some k => exact h fault d.tree k hw

/-- Write at the end of a file, and put it down. -/
def append (p : Path) (bytes : Bytes) : Metered Errno Unit := fun s =>
  match Io.append p bytes s.1 with
  | .ok () d => .ok () (d, s.2 ++ [.append p bytes.length])
  | .error e d =>
      let wrote := fun (fault : Fault) (t : Tree) =>
        ((t.append p (bytes.take fault.wrote)).toOption).map fun _ => (bytes.take fault.wrote).length
      .error e (d, s.2 ++ [.append p (partly s.1 wrote)])

/-- Copy a file, and put it down. -/
def copy (src dst : Path) : Metered Errno Nat := fun s =>
  match Io.copy src dst s.1 with
  | .ok n d => .ok n (d, s.2 ++ [.copy dst n])
  | .error e d =>
      let wrote := fun (fault : Fault) (t : Tree) =>
        ((t.copy src dst (some fault.wrote)).toOption).map Prod.fst
      .error e (d, s.2 ++ [.copy dst (partly s.1 wrote)])

/-- A result without the list. -/
def forget : EStateM.Result ε (Disk × List Spent) α → EStateM.Result ε Disk α
  | .ok a s => .ok a s.1
  | .error e s => .error e s.1

/-- Without its list, `x` is `y`. -/
def Meters (x : Metered ε α) (y : Io ε α) : Prop := ∀ s, forget (x s) = y s.1

namespace Meters

variable {x : Metered ε α} {y : Io ε α}

theorem lift (y : Io ε α) : Meters (lift y) y := by
  intro s
  unfold Metered.lift
  cases hy : y s.1 <;> rfl

theorem pure (a : α) : Meters (Pure.pure a : Metered ε α) (Pure.pure a) := fun _ => rfl

theorem bind {x : Metered ε β} {y : Io ε β} {f : β → Metered ε α} {g : β → Io ε α}
    (hx : Meters x y) (hf : ∀ b, Meters (f b) (g b)) : Meters (x >>= f) (y >>= g) := by
  intro s
  show forget (EStateM.bind x f s) = EStateM.bind y g s.1
  unfold EStateM.bind
  rw [← hx s]
  cases hxs : x s with
  | ok b s' => exact hf b s'
  | error e s' => rfl

theorem mapErr {f : ε → ε'} (h : Meters x y) : Meters (Metered.mapErr f x) (Io.mapErr f y) := by
  intro s
  unfold Metered.mapErr Io.mapErr
  rw [← h s]
  cases x s <;> rfl

theorem append (p : Path) (bytes : Bytes) : Meters (Metered.append p bytes) (Io.append p bytes) := by
  intro s
  unfold Metered.append
  cases Io.append p bytes s.1 <;> rfl

theorem copy (src dst : Path) : Meters (Metered.copy src dst) (Io.copy src dst) := by
  intro s
  unfold Metered.copy
  cases Io.copy src dst s.1 <;> rfl

end Meters

/-! ### What the list comes to -/

/-- Whatever the disk, from `log` a program ends with a result and a list in `Q`, or fails with
a list in `E`. -/
def wp (x : Metered ε α) (Q : α → List Spent → Prop) (E : List Spent → Prop) (log : List Spent) :
    Prop :=
  ∀ d, match x (d, log) with
    | .ok a s => Q a s.2
    | .error _ s => E s.2

section Rules

variable {Q Q' : α → List Spent → Prop} {E E' : List Spent → Prop} {log : List Spent}

theorem wp_mono {x : Metered ε α} (h : wp x Q E log) (hQ : ∀ a l, Q a l → Q' a l)
    (hE : ∀ l, E l → E' l) : wp x Q' E' log := by
  intro d
  have hd := h d
  cases hx : x (d, log) with
  | ok a s =>
      simp only [hx] at hd
      exact hQ a s.2 hd
  | error e s =>
      simp only [hx] at hd
      exact hE s.2 hd

theorem wp_pure {a : α} (h : Q a log) : wp (Pure.pure a : Metered ε α) Q E log := fun _ => h

theorem wp_lift {x : Io ε α} (hQ : ∀ a, Q a log) (hE : E log) : wp (lift x) Q E log := by
  intro d
  unfold lift
  cases x d with
  | ok a d' => exact hQ a
  | error e d' => exact hE

theorem wp_fail {e : ε} (h : E log) : wp (lift (Io.fail e) : Metered ε α) Q E log := fun _ => h

theorem wp_mapErr {f : ε → ε'} {x : Metered ε α} (h : wp x Q E log) :
    wp (mapErr f x) Q E log := by
  intro d
  have hd := h d
  unfold mapErr
  cases hx : x (d, log) with
  | ok a s => simpa only [hx] using hd
  | error e s => simpa only [hx] using hd

theorem wp_bind {x : Metered ε β} {f : β → Metered ε α}
    (h : wp x (fun b l => wp (f b) Q E l) E log) : wp (x >>= f) Q E log := by
  intro d
  have hd := h d
  show match EStateM.bind x f (d, log) with
    | .ok a s => Q a s.2
    | .error _ s => E s.2
  unfold EStateM.bind
  cases hx : x (d, log) with
  | ok b s =>
      simp only [hx] at hd
      exact hd s.1
  | error e s =>
      simp only [hx] at hd
      exact hd

/-- An append that fails has written no more than its bytes. -/
theorem wp_append {p : Path} {bytes : Bytes} {Q : Unit → List Spent → Prop}
    (hok : Q () (log ++ [.append p bytes.length]))
    (herr : ∀ k ≤ bytes.length, E (log ++ [.append p k])) : wp (append p bytes) Q E log := by
  intro d
  unfold append
  cases Io.append p bytes d with
  | ok a d' => exact hok
  | error e d' =>
      refine herr _ (partly_le fun fault t k hk => ?_)
      obtain ⟨t', -, rfl⟩ := Option.map_eq_some_iff.mp hk
      exact List.length_take_le' _ _

theorem wp_copy {src dst : Path} {Q : Nat → List Spent → Prop}
    (hok : ∀ k, Q k (log ++ [.copy dst k])) (herr : ∀ k, E (log ++ [.copy dst k])) :
    wp (copy src dst) Q E log := by
  intro d
  unfold copy
  cases Io.copy src dst d with
  | ok n d' => exact hok n
  | error e d' => exact herr _

end Rules

end Metered

end FileTree
