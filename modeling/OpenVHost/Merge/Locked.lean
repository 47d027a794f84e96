/-
# Lists with keys, some of whose entries are locked

An entry that is locked is neither replaced nor dropped.

* `entry_foldl_put` — after a pass that puts entries of distinct keys, a key has its locked
  entry, else the one that was put, else what it had.
* `entry_foldl_drop` — after a pass that drops keys, those that had no locked entry have none.
-/

import OpenVHost.Merge.Keyed

namespace Merge

variable {κ α : Type} [DecidableEq κ] (key : α → κ) (locked : α → Bool)

/-- The entry at `k` is there and locked. -/
def lockedAt (as : List α) (k : κ) : Bool := (entry key k as).any locked

def without (as : List α) (k : κ) : List α := as.filter fun a => decide (key a ≠ k)

/-- Put an entry in place of what its key has, unless that is locked. -/
def put (as : List α) (new : α) : List α :=
  if lockedAt key locked as (key new) then as else without key as (key new) ++ [new]

/-- Drop what a key has, unless that is locked. -/
def drop (as : List α) (k : κ) : List α :=
  if lockedAt key locked as k then as else without key as k

variable {key locked} {as : List α} {k : κ}

theorem entry_without (k' : κ) :
    entry key k' (without key as k) = if k' = k then none else entry key k' as := by
  unfold entry without
  rw [List.find?_filter]
  by_cases hk : k' = k
  · subst hk
    simp
  · rw [if_neg hk]
    congr 1
    funext a
    by_cases ha : key a = k'
    · simp [ha, hk]
    · simp [ha]

theorem entry_append_singleton (new : α) :
    entry key k (as ++ [new]) = (entry key k as).or (if key new = k then some new else none) := by
  unfold entry
  rw [List.find?_append]
  by_cases hk : key new = k
  · simp [hk]
  · simp [hk]

theorem entry_put (new : α) :
    entry key k (put key locked as new) =
      if key new = k ∧ lockedAt key locked as k = false then some new else entry key k as := by
  unfold put
  by_cases hk : key new = k
  · subst hk
    cases hl : lockedAt key locked as (key new) with
    | true => simp
    | false => simp [entry_append_singleton, entry_without]
  · cases hl : lockedAt key locked as (key new) with
    | true => simp [hk]
    | false => simp [entry_append_singleton, entry_without, hk, Ne.symm hk]

theorem entry_drop (k' : κ) :
    entry key k' (drop key locked as k) =
      if k = k' ∧ lockedAt key locked as k' = false then none else entry key k' as := by
  unfold drop
  by_cases hk : k = k'
  · subst hk
    cases hl : lockedAt key locked as k with
    | true => simp
    | false => simp [entry_without]
  · cases hl : lockedAt key locked as k with
    | true => simp [hk]
    | false => simp [entry_without, hk, Ne.symm hk]

theorem nodup_without (h : (as.map key).Nodup) : ((without key as k).map key).Nodup :=
  h.sublist (List.filter_sublist.map key)

theorem nodup_put (h : (as.map key).Nodup) (new : α) :
    ((put key locked as new).map key).Nodup := by
  unfold put
  split
  · exact h
  · rw [List.map_append, List.map_singleton]
    refine List.nodup_append.mpr ⟨nodup_without h, List.nodup_singleton _, ?_⟩
    intro k' hk' k'' hk''
    obtain ⟨a, ha, rfl⟩ := List.mem_map.mp hk'
    obtain rfl : k'' = key new := by simpa using hk''
    simpa [without] using (List.mem_filter.mp ha).2

theorem nodup_drop (h : (as.map key).Nodup) : ((drop key locked as k).map key).Nodup := by
  unfold drop
  split
  · exact h
  · exact nodup_without h

/-! ### Passes -/

theorem entry_cons_of_nodup {new : α} {news : List α} (h : ((new :: news).map key).Nodup) :
    entry key (key new) news = none := by
  rw [List.map_cons, List.nodup_cons] at h
  refine List.find?_eq_none.mpr fun a ha => ?_
  have hne : key a ≠ key new := fun heq => h.1 (List.mem_map.mpr ⟨a, ha, heq⟩)
  simpa using hne

/-- **A pass that puts entries** of distinct keys. -/
theorem entry_foldl_put : ∀ (news : List α) (as : List α), (news.map key).Nodup →
    entry key k (news.foldl (put key locked) as) =
      if lockedAt key locked as k then entry key k as else (entry key k news).or (entry key k as)
  | [], as, _ => by simp [entry]
  | new :: news, as, h => by
      have hrest : (news.map key).Nodup := (List.nodup_cons.mp h).2
      rw [List.foldl_cons, entry_foldl_put news _ hrest]
      unfold lockedAt
      rw [entry_put]
      by_cases hk : key new = k
      · subst hk
        have hnone := entry_cons_of_nodup h
        have hsome : entry key (key new) (new :: news) = some new := by simp [entry]
        cases hl : lockedAt key locked as (key new) with
        | true =>
            have hany : (entry key (key new) as).any locked = true := hl
            simp [hany]
        | false =>
            have hany : (entry key (key new) as).any locked = false := hl
            simp [hany, hnone, hsome]
      · have hskip : entry key k (new :: news) = entry key k news := by simp [entry, hk]
        simp [hk, hskip]

/-- **A pass that drops keys.** -/
theorem entry_foldl_drop : ∀ (ks : List κ) (as : List α),
    entry key k (ks.foldl (drop key locked) as) =
      if k ∈ ks ∧ lockedAt key locked as k = false then none else entry key k as
  | [], as => by simp
  | k' :: ks, as => by
      rw [List.foldl_cons, entry_foldl_drop ks]
      unfold lockedAt
      rw [entry_drop]
      by_cases hk : k' = k
      · subst hk
        cases hl : lockedAt key locked as k' with
        | true =>
            have hany : (entry key k' as).any locked = true := hl
            simp [hany]
        | false =>
            have hany : (entry key k' as).any locked = false := hl
            simp [hany]
      · simp [hk, Ne.symm hk]

end Merge
