/-
# Lists with keys, filled by a preference

* `find?_foldl_place` — after a pass, an entry is what the arrivals of its own key made
  of it.
* `best_foldl_turn` — an arrival stays where it is the first of its source, and gives way
  to a plain one of that source where it is a stand-in itself.
* `mem_foldl_addMissing` — a second source adds what the first has no entry for.
-/

import Mathlib.Data.List.Basic
import Mathlib.Data.List.Nodup
import Mathlib.Tactic.Common

namespace Merge

variable {κ α β : Type} [DecidableEq κ] (key : α → κ)

/-! ### Updating the first entry of a key -/

/-- Update the first entry at `k`, or add an entry at the end. -/
def place (upd : α → α) (new : α) (k : κ) : List α → List α
  | [] => [new]
  | a :: as => if key a = k then upd a :: as else a :: place upd new k as

/-- The entry at `k`. -/
def entry (k : κ) (as : List α) : Option α := as.find? fun a => decide (key a = k)

variable {key}

theorem entry_eq_some {k : κ} {a : α} {as : List α} (hn : (as.map key).Nodup) :
    entry key k as = some a ↔ a ∈ as ∧ key a = k := by
  induction as with
  | nil => simp [entry]
  | cons b as ih =>
      have hn' := List.nodup_cons.mp (by simpa using hn : (key b :: as.map key).Nodup)
      have ih := ih hn'.2
      unfold entry at ih ⊢
      by_cases hb : key b = k
      · rw [List.find?_cons_of_pos (by simpa using hb)]
        constructor
        · intro h
          cases h
          exact ⟨List.mem_cons_self, hb⟩
        · rintro ⟨ha, hk⟩
          rcases List.mem_cons.mp ha with rfl | ha
          · rfl
          · exact absurd (List.mem_map.mpr ⟨a, ha, hk.trans hb.symm⟩) hn'.1
      · rw [List.find?_cons_of_neg (by simpa using hb), ih]
        constructor
        · rintro ⟨ha, hk⟩
          exact ⟨List.mem_cons_of_mem _ ha, hk⟩
        · rintro ⟨ha, hk⟩
          rcases List.mem_cons.mp ha with rfl | ha
          · exact absurd hk hb
          · exact ⟨ha, hk⟩

section Place

variable {upd : α → α} {new : α} {k : κ}

theorem entry_place (hnew : key new = k) (hupd : ∀ a, key (upd a) = key a) (k' : κ)
    (as : List α) :
    entry key k' (place key upd new k as) =
      if k' = k then some ((entry key k as).elim new upd) else entry key k' as := by
  induction as with
  | nil =>
      by_cases hk : k' = k
      · simp [place, entry, hk, hnew]
      · simp [place, entry, hk, hnew, Ne.symm hk]
  | cons a as ih =>
      unfold entry at ih ⊢
      by_cases ha : key a = k
      · by_cases hk : k' = k
        · simp [place, ha, hupd, hk]
        · simp [place, ha, hupd, hk, Ne.symm hk]
      · by_cases hk : k' = k
        · subst hk
          simpa [place, ha] using ih
        · by_cases hak : key a = k'
          · simp [place, hak, hk]
          · simpa [place, ha, hak, hk] using ih

theorem keys_place (hnew : key new = k) (hupd : ∀ a, key (upd a) = key a) (as : List α) :
    (place key upd new k as).map key = as.map key ∨
      k ∉ as.map key ∧ (place key upd new k as).map key = as.map key ++ [k] := by
  induction as with
  | nil => exact .inr ⟨by simp, by simp [place, hnew]⟩
  | cons a as ih =>
      by_cases ha : key a = k
      · simp [place, ha, hupd]
      · rcases ih with h | ⟨h, h'⟩
        · left
          simp [place, ha, h]
        · right
          simp [place, ha, h', Ne.symm ha, List.mem_map] at h ⊢
          exact h

theorem nodup_place (hnew : key new = k) (hupd : ∀ a, key (upd a) = key a) {as : List α}
    (h : (as.map key).Nodup) : ((place key upd new k as).map key).Nodup := by
  rcases keys_place hnew hupd as with heq | ⟨hk, heq⟩
  · rwa [heq]
  · rw [heq]
    rw [← List.concat_eq_append]
    exact h.concat hk

end Place

/-! ### A pass -/

section Pass

variable {upd : κ → β → α → α} {new : κ → β → α}

/-- What one arrival makes of the entry of its key. -/
def arrive (upd : κ → β → α → α) (new : κ → β → α) (k : κ) (o : Option α) (b : β) : Option α :=
  some (o.elim (new k b) (upd k b))

theorem nodup_foldl_place (hnew : ∀ k b, key (new k b) = k)
    (hupd : ∀ k b a, key (upd k b a) = key a) (xs : List (κ × β)) :
    ∀ {as : List α}, (as.map key).Nodup →
      ((xs.foldl (fun as x => place key (upd x.1 x.2) (new x.1 x.2) x.1 as) as).map key).Nodup := by
  induction xs with
  | nil => exact id
  | cons x xs ih => exact fun h => ih (nodup_place (hnew _ _) (hupd _ _) h)

/-- **After a pass, an entry is what the arrivals of its own key made of it.** -/
theorem entry_foldl_place (hnew : ∀ k b, key (new k b) = k)
    (hupd : ∀ k b a, key (upd k b a) = key a) (k : κ) (xs : List (κ × β)) :
    ∀ as : List α,
      entry key k (xs.foldl (fun as x => place key (upd x.1 x.2) (new x.1 x.2) x.1 as) as) =
        ((xs.filter fun x => decide (x.1 = k)).map Prod.snd).foldl (arrive upd new k)
          (entry key k as) := by
  induction xs with
  | nil => exact fun as => rfl
  | cons x xs ih =>
      intro as
      rw [List.foldl_cons, ih, entry_place (hnew _ _) (hupd _ _)]
      by_cases hx : x.1 = k
      · subst hx
        simp [arrive]
      · simp [hx, Ne.symm hx]

end Pass

/-! ### A preference at two levels -/

section Prefer

variable {δ : Type} (standIn : δ → Bool) (le : δ → δ → Prop)

/-- Arrivals come by the index of their source, and in order within a source. -/
def Ordered (xs : List (Nat × δ)) : Prop :=
  xs.Pairwise fun a b => a.1 < b.1 ∨ a.1 = b.1 ∧ le a.2 b.2

/-- What is held once `b` arrives. -/
def turn (held b : Nat × δ) : Nat × δ :=
  if held.1 == b.1 && standIn held.2 then (held.1, b.2) else held

/-- The least plain arrival of the earliest source, or a stand-in where it has no other. -/
structure Best (xs : List (Nat × δ)) (b : Nat × δ) : Prop where
  mem : b ∈ xs
  earliest : ∀ c ∈ xs, b.1 ≤ c.1
  plain : standIn b.2 = false → ∀ c ∈ xs, c.1 = b.1 → standIn c.2 = false → le b.2 c.2
  standIn : standIn b.2 = true → ∀ c ∈ xs, c.1 = b.1 → standIn c.2 = true

variable {standIn le}

theorem best_turn (hrefl : ∀ d, le d d) {done : List (Nat × δ)} {held b : Nat × δ}
    (hbest : Best standIn le done held)
    (hlast : ∀ a ∈ done, a.1 < b.1 ∨ a.1 = b.1 ∧ le a.2 b.2) :
    Best standIn le (done ++ [b]) (turn standIn held b) := by
  have hheld := hlast held hbest.mem
  unfold turn
  split
  next hcond =>
    -- the held stand-in gives way
    obtain ⟨hi, ha⟩ : held.1 = b.1 ∧ standIn held.2 = true := by simpa using hcond
    have heq : ((held.1, b.2) : Nat × δ) = b := by rw [hi]
    rw [heq]
    refine ⟨by simp, fun c hc => ?_, fun hb c hc hci hca => ?_, fun hb c hc hci => ?_⟩
    · rcases List.mem_append.mp hc with hc | hc
      · exact hi ▸ hbest.earliest c hc
      · exact (List.mem_singleton.mp hc) ▸ Nat.le_refl _
    · rcases List.mem_append.mp hc with hc | hc
      · have := hbest.standIn ha c hc (hci.trans hi.symm)
        rw [this] at hca
        cases hca
      · rw [List.mem_singleton.mp hc]
        exact hrefl _
    · rcases List.mem_append.mp hc with hc | hc
      · exact hbest.standIn ha c hc (hci.trans hi.symm)
      · rw [List.mem_singleton.mp hc]
        exact hb
  next hcond =>
    have hstay : held.1 = b.1 → standIn held.2 = false := by
      intro hi
      simpa [hi] using hcond
    refine ⟨by simp [hbest.mem], fun c hc => ?_, fun hb c hc hci hca => ?_, fun hb c hc hci => ?_⟩
    · rcases List.mem_append.mp hc with hc | hc
      · exact hbest.earliest c hc
      · rw [List.mem_singleton.mp hc]
        omega
    · rcases List.mem_append.mp hc with hc | hc
      · exact hbest.plain hb c hc hci hca
      · rw [List.mem_singleton.mp hc] at hci ⊢
        rcases hheld with hlt | ⟨-, hle⟩
        · omega
        · exact hle
    · rcases List.mem_append.mp hc with hc | hc
      · exact hbest.standIn hb c hc hci
      · rw [List.mem_singleton.mp hc] at hci
        have := hstay hci.symm
        rw [hb] at this
        cases this

/-- **What is held after a pass is the best arrival.** -/
theorem best_foldl_turn (hrefl : ∀ d, le d d) (xs : List (Nat × δ)) :
    ∀ {done : List (Nat × δ)} {held : Nat × δ}, Ordered le (done ++ xs) →
      Best standIn le done held → Best standIn le (done ++ xs) (xs.foldl (turn standIn) held) := by
  induction xs with
  | nil => simp
  | cons x xs ih =>
      intro done held hord hbest
      have hlast : ∀ a ∈ done, a.1 < x.1 ∨ a.1 = x.1 ∧ le a.2 x.2 := fun a ha =>
        (List.pairwise_append.mp hord).2.2 a ha x List.mem_cons_self
      have hstep := best_turn hrefl hbest hlast
      have hassoc : done ++ x :: xs = done ++ [x] ++ xs := by simp
      rw [hassoc] at hord ⊢
      exact ih hord hstep

theorem best_of_cons (hrefl : ∀ d, le d d) {x : Nat × δ} {xs : List (Nat × δ)}
    (hord : Ordered le (x :: xs)) : Best standIn le (x :: xs) (xs.foldl (turn standIn) x) := by
  have hone : Best standIn le [x] x := ⟨by simp, by simp, by simp [hrefl], by simp⟩
  exact best_foldl_turn hrefl xs hord hone

end Prefer

/-! ### A second source -/

/-- Add an entry whose key is not there. -/
def addMissing (key : α → κ) (as : List α) (a : α) : List α :=
  if as.any fun b => decide (key b = key a) then as else as ++ [a]

theorem keys_addMissing {as : List α} {a : α} (h : (as.map key).Nodup) :
    ((addMissing key as a).map key).Nodup := by
  unfold addMissing
  split
  · exact h
  · next hn =>
      rw [List.map_append, List.map_singleton, ← List.concat_eq_append]
      refine h.concat fun hmem => hn ?_
      obtain ⟨b, hb, hk⟩ := List.mem_map.mp hmem
      exact List.any_eq_true.mpr ⟨b, hb, by simpa using hk⟩

theorem mem_addMissing {as : List α} {a b : α} :
    b ∈ addMissing key as a ↔ b ∈ as ∨ b = a ∧ key a ∉ as.map key := by
  unfold addMissing
  split
  · next h =>
      obtain ⟨c, hc, hk⟩ := List.any_eq_true.mp h
      have hmem : key a ∈ as.map key := List.mem_map.mpr ⟨c, hc, by simpa using hk⟩
      simp [hmem]
  · next h =>
      have hmem : key a ∉ as.map key := by
        intro hmem
        obtain ⟨c, hc, hk⟩ := List.mem_map.mp hmem
        exact h (List.any_eq_true.mpr ⟨c, hc, by simpa using hk⟩)
      simp [hmem]

theorem nodup_foldl_addMissing (xs : List α) :
    ∀ {as : List α}, (as.map key).Nodup → ((xs.foldl (addMissing key) as).map key).Nodup := by
  induction xs with
  | nil => exact id
  | cons x xs ih => exact fun h => ih (keys_addMissing h)

/-- **A second source of distinct keys adds what the first has no entry for.** -/
theorem mem_foldl_addMissing {b : α} (xs : List α) :
    ∀ {as : List α}, (xs.map key).Nodup →
      (b ∈ xs.foldl (addMissing key) as ↔ b ∈ as ∨ b ∈ xs ∧ key b ∉ as.map key) := by
  induction xs with
  | nil => simp
  | cons x xs ih =>
      intro as hn
      have hn' := List.nodup_cons.mp (by simpa using hn : (key x :: xs.map key).Nodup)
      rw [List.foldl_cons, ih hn'.2, mem_addMissing]
      constructor
      · rintro ((hb | ⟨rfl, hx⟩) | ⟨hb, hk⟩)
        · exact .inl hb
        · exact .inr ⟨List.mem_cons_self, hx⟩
        · refine .inr ⟨List.mem_cons_of_mem _ hb, fun hmem => hk ?_⟩
          obtain ⟨c, hc, hck⟩ := List.mem_map.mp hmem
          exact List.mem_map.mpr ⟨c, mem_addMissing.mpr (.inl hc), hck⟩
      · rintro (hb | ⟨hb, hk⟩)
        · exact .inl (.inl hb)
        · rcases List.mem_cons.mp hb with rfl | hb'
          · exact .inl (.inr ⟨rfl, hk⟩)
          · refine .inr ⟨hb', fun hmem => ?_⟩
            obtain ⟨c, hc, hck⟩ := List.mem_map.mp hmem
            rcases mem_addMissing.mp hc with hc | ⟨rfl, -⟩
            · exact hk (List.mem_map.mpr ⟨c, hc, hck⟩)
            · exact hn'.1 (List.mem_map.mpr ⟨b, hb', hck.symm⟩)

end Merge
