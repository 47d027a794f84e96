/-
# A copy that is read again after each change

A value changes; whoever changes it has it read again, and what is read takes the place of the
copy when it arrives. Each reading has its moment, the number of changes before it. As long as
no reading takes the place of a later one, the copy ends as the value.

* `Chased` — what is known of the copy and of the readings under way.
* `Chased.changed`, `Chased.read`, `Chased.placed` — what a change, a reading and its arrival leave.
* `Chased.settled` — with nothing under way, the copy is the value.
* `Chased.calls_kept`, `Chased.calls_changed`, `Chased.calls_read`, `Chased.calls_placed` — the same
  where the readings are calls in a list, of which one is replaced.
-/

import Mathlib.Data.List.Perm.Basic

namespace Async

variable {α : Type} {now m : Nat} {value value' copy a : α} {seen : Nat}
  {reading reading' : α → Nat → Prop} {coming coming' : Prop}

/-- A copy that was read after `seen` of `now` changes, the readings on their way with their
moments, and whether the value will be read again. -/
structure Chased (now : Nat) (value copy : α) (seen : Nat) (reading : α → Nat → Prop) (coming : Prop) :
    Prop where
  seen_le : seen ≤ now
  seen_eq : seen = now → copy = value
  reading_le : ∀ a m, reading a m → m ≤ now
  reading_eq : ∀ a, reading a now → a = value
  chased : seen = now ∨ (∃ a, reading a now) ∨ coming

namespace Chased

/-- A value that will be read. -/
theorem begin (hseen : seen ≤ now) (heq : seen = now → copy = value) (hnone : ∀ a m, ¬ reading a m)
    (hcoming : coming) : Chased now value copy seen reading coming where
  seen_le := hseen
  seen_eq := heq
  reading_le := fun a m h => absurd h (hnone a m)
  reading_eq := fun a h => absurd h (hnone a now)
  chased := .inr (.inr hcoming)

/-- Nothing happens to the value, and no reading is lost. -/
theorem kept (h : Chased now value copy seen reading coming) (hreading : ∀ a m, reading' a m ↔ reading a m)
    (hcoming : coming → coming') : Chased now value copy seen reading' coming' where
  seen_le := h.seen_le
  seen_eq := h.seen_eq
  reading_le := fun a m hr => h.reading_le a m ((hreading a m).mp hr)
  reading_eq := fun a hr => h.reading_eq a ((hreading a now).mp hr)
  chased := by
    rcases h.chased with hseen | ⟨a, hr⟩ | hc
    · exact .inl hseen
    · exact .inr (.inl ⟨a, (hreading a now).mpr hr⟩)
    · exact .inr (.inr (hcoming hc))

/-- **The value changes**, and will be read again. -/
theorem changed (h : Chased now value copy seen reading coming) (hreading : ∀ a m, reading' a m → reading a m)
    (hcoming : coming') : Chased (now + 1) value' copy seen reading' coming' where
  seen_le := Nat.le_succ_of_le h.seen_le
  seen_eq := fun heq => absurd h.seen_le (by omega)
  reading_le := fun a m hr => Nat.le_succ_of_le (h.reading_le a m (hreading a m hr))
  reading_eq := fun a hr => absurd (h.reading_le a _ (hreading a _ hr)) (by omega)
  chased := .inr (.inr hcoming)

/-- **The value is read.** -/
theorem read (h : Chased now value copy seen reading coming)
    (hreading : ∀ a m, reading' a m ↔ reading a m ∨ a = value ∧ m = now) :
    Chased now value copy seen reading' coming' where
  seen_le := h.seen_le
  seen_eq := h.seen_eq
  reading_le := fun a m hr => by
    rcases (hreading a m).mp hr with hr | ⟨-, rfl⟩
    · exact h.reading_le a m hr
    · exact Nat.le_refl _
  reading_eq := fun a hr => by
    rcases (hreading a now).mp hr with hr | ⟨rfl, -⟩
    · exact h.reading_eq a hr
    · rfl
  chased := .inr (.inl ⟨value, (hreading value now).mpr (.inr ⟨rfl, rfl⟩)⟩)

/-- **A reading arrives** that is not older than the copy. -/
theorem placed (h : Chased now value copy seen reading coming) (hread : reading a m) (hle : seen ≤ m)
    (hfewer : ∀ b n, reading' b n → reading b n) (hothers : ∀ b n, reading b n → n ≠ m → reading' b n)
    (hcoming : coming → coming') : Chased now value a m reading' coming' where
  seen_le := h.reading_le a m hread
  seen_eq := fun heq => h.reading_eq a (heq ▸ hread)
  reading_le := fun b n hr => h.reading_le b n (hfewer b n hr)
  reading_eq := fun b hr => h.reading_eq b (hfewer b now hr)
  chased := by
    have hmle := h.reading_le a m hread
    by_cases hm : m = now
    · exact .inl hm
    · rcases h.chased with hseen | ⟨b, hr⟩ | hc
      · exact .inl (by omega)
      · exact .inr (.inl ⟨b, hothers b now hr (Ne.symm hm)⟩)
      · exact .inr (.inr (hcoming hc))

/-- With nothing under way, the copy is the value. -/
theorem settled (h : Chased now value copy seen reading coming) (hnone : ∀ a m, ¬ reading a m)
    (hdone : ¬ coming) : copy = value := by
  rcases h.chased with hseen | ⟨a, hr⟩ | hc
  · exact h.seen_eq hseen
  · exact absurd hr (hnone a now)
  · exact absurd hc hdone

end Chased

/-! ### Readings as calls in flight -/

section Calls

variable {κ : Type} {read : κ → Option (α × Nat)} {ahead : κ → Bool} {calls calls' rest more : List κ}
  {call call' : κ}

/-- A call of the list carries this reading. -/
def Carried (read : κ → Option (α × Nat)) (calls : List κ) (a : α) (m : Nat) : Prop :=
  ∃ c ∈ calls, read c = some (a, m)

theorem carried_cons : Carried read (call :: rest) a m ↔ read call = some (a, m) ∨ Carried read rest a m := by
  simp [Carried]

theorem carried_append : Carried read (more ++ rest) a m ↔ Carried read more a m ∨ Carried read rest a m := by
  simp [Carried, or_and_right, exists_or]

theorem carried_perm (h : calls.Perm calls') : Carried read calls a m ↔ Carried read calls' a m := by
  simp only [Carried, h.mem_iff]

theorem not_carried (h : ∀ c ∈ more, read c = none) : ¬ Carried read more a m := by
  rintro ⟨c, hc, hread⟩
  rw [h c hc] at hread
  cases hread

namespace Chased

/-- A call that carries nothing gives way to others that carry nothing, and that come to the
reading it would have come to. -/
theorem calls_kept (h : Chased now value copy seen (Carried read calls) (∃ c ∈ calls, ahead c))
    (hcalls : calls.Perm (call :: rest)) (hcalls' : calls'.Perm (more ++ rest)) (hread : read call = none)
    (hmore : ∀ c ∈ more, read c = none) (hahead : ahead call → ∃ c ∈ more, ahead c) :
    Chased now value copy seen (Carried read calls') (∃ c ∈ calls', ahead c) := by
  refine h.kept (fun a m => ?_) ?_
  · rw [carried_perm hcalls', carried_append, carried_perm hcalls, carried_cons, hread]
    simp [not_carried hmore]
  · rintro ⟨c, hc, hc'⟩
    rcases List.mem_cons.mp (hcalls.mem_iff.mp hc) with rfl | hc
    · obtain ⟨d, hd, hd'⟩ := hahead hc'
      exact ⟨d, hcalls'.mem_iff.mpr (List.mem_append_left rest hd), hd'⟩
    · exact ⟨c, hcalls'.mem_iff.mpr (List.mem_append_right more hc), hc'⟩

/-- The same with one call for one. -/
theorem calls_turned (h : Chased now value copy seen (Carried read calls) (∃ c ∈ calls, ahead c))
    (hcalls : calls.Perm (call :: rest)) (hcalls' : calls'.Perm (call' :: rest)) (hread : read call = none)
    (hread' : read call' = none) (hahead : ahead call → ahead call') :
    Chased now value copy seen (Carried read calls') (∃ c ∈ calls', ahead c) := by
  have hmore : ∀ c ∈ [call'], read c = none := by simpa using hread'
  exact h.calls_kept hcalls hcalls' hread hmore fun hc => ⟨call', List.mem_cons_self, hahead hc⟩

/-- A call is made. -/
theorem calls_asked (h : Chased now value copy seen (Carried read calls) (∃ c ∈ calls, ahead c))
    (hread : read call = none) :
    Chased now value copy seen (Carried read (calls ++ [call])) (∃ c ∈ calls ++ [call], ahead c) := by
  refine h.kept (fun a m => ?_) ?_
  · rw [carried_append, carried_cons, hread]
    simp [Carried]
  · rintro ⟨c, hc, hc'⟩
    exact ⟨c, List.mem_append_left _ hc, hc'⟩

/-- **A call changes the value**, and comes to a reading of it. -/
theorem calls_changed (h : Chased now value copy seen (Carried read calls) (∃ c ∈ calls, ahead c))
    (hcalls : calls.Perm (call :: rest)) (hcalls' : calls'.Perm (call' :: rest)) (hread : read call' = none)
    (hahead : ahead call' = true) :
    Chased (now + 1) value' copy seen (Carried read calls') (∃ c ∈ calls', ahead c) := by
  refine h.changed (fun a m hr => ?_) ⟨call', hcalls'.mem_iff.mpr List.mem_cons_self, hahead⟩
  rw [carried_perm hcalls', carried_cons, hread] at hr
  rw [carried_perm hcalls, carried_cons]
  exact .inr (hr.resolve_left nofun)

/-- **A call reads the value.** -/
theorem calls_read (h : Chased now value copy seen (Carried read calls) (∃ c ∈ calls, ahead c))
    (hcalls : calls.Perm (call :: rest)) (hcalls' : calls'.Perm (call' :: rest)) (hread : read call = none)
    (hread' : read call' = some (value, now)) :
    Chased now value copy seen (Carried read calls') (∃ c ∈ calls', ahead c) := by
  refine h.read fun a m => ?_
  rw [carried_perm hcalls', carried_cons, carried_perm hcalls, carried_cons, hread, hread']
  constructor
  · rintro (heq | hr)
    · cases heq
      exact .inr ⟨rfl, rfl⟩
    · exact .inl (.inr hr)
  · rintro ((heq | hr) | ⟨rfl, rfl⟩)
    · cases heq
    · exact .inr hr
    · exact .inl rfl

/-- **A call's reading arrives** that is not older than the copy. -/
theorem calls_placed (h : Chased now value copy seen (Carried read calls) (∃ c ∈ calls, ahead c))
    (hcalls : calls.Perm (call :: rest)) (hcalls' : calls'.Perm (more ++ rest)) (hread : read call = some (a, m))
    (hle : seen ≤ m) (hmore : ∀ c ∈ more, read c = none) (hahead : ahead call → ∃ c ∈ more, ahead c) :
    Chased now value a m (Carried read calls') (∃ c ∈ calls', ahead c) := by
  have hcarried : ∀ {b n}, Carried read calls' b n ↔ Carried read rest b n := fun {b n} => by
    rw [carried_perm hcalls', carried_append]
    simp [not_carried hmore]
  refine h.placed ((carried_perm hcalls).mpr (carried_cons.mpr (.inl hread))) hle ?_ ?_ ?_
  · intro b n hr
    exact (carried_perm hcalls).mpr (carried_cons.mpr (.inr (hcarried.mp hr)))
  · intro b n hr hne
    rw [carried_perm hcalls, carried_cons, hread] at hr
    rcases hr with heq | hr
    · cases heq
      exact absurd rfl hne
    · exact hcarried.mpr hr
  · rintro ⟨c, hc, hc'⟩
    rcases List.mem_cons.mp (hcalls.mem_iff.mp hc) with rfl | hc
    · obtain ⟨d, hd, hd'⟩ := hahead hc'
      exact ⟨d, hcalls'.mem_iff.mpr (List.mem_append_left rest hd), hd'⟩
    · exact ⟨c, hcalls'.mem_iff.mpr (List.mem_append_right more hc), hc'⟩

end Chased

end Calls

end Async
