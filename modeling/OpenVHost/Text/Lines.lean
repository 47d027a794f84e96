/-
# Texts cut at a separator

A text that is cut at the first of its separators is cut in one way only, and nothing but the
separators is lost.
-/

namespace Text

/-- What stands before the first separator, and what after, are determined. -/
theorem append_sep_inj {α : Type} {sep : α} :
    ∀ {a b r s : List α}, sep ∉ a → sep ∉ b → a ++ sep :: r = b ++ sep :: s → a = b ∧ r = s
  | [], [], _, _, _, _, h => ⟨rfl, (List.cons.inj h).2⟩
  | [], y :: b, _, _, _, hb, h => by
      obtain ⟨rfl, -⟩ := List.cons.inj h
      exact absurd List.mem_cons_self hb
  | x :: a, [], _, _, ha, _, h => by
      obtain ⟨rfl, -⟩ := List.cons.inj h
      exact absurd List.mem_cons_self ha
  | x :: a, y :: b, _, _, ha, hb, h => by
      obtain ⟨rfl, htail⟩ := List.cons.inj h
      obtain ⟨rfl, hrest⟩ := append_sep_inj (fun hm => ha (List.mem_cons_of_mem _ hm))
        (fun hm => hb (List.mem_cons_of_mem _ hm)) htail
      exact ⟨rfl, hrest⟩

/-- What is not a separator is in one of the parts. -/
theorem mem_splitOn {α : Type} [DecidableEq α] {sep c : α} (hne : c ≠ sep) :
    ∀ {s : List α}, c ∈ s → ∃ part ∈ s.splitOn sep, c ∈ part
  | x :: s, hc => by
      rw [List.splitOn_eq_splitOnP, List.splitOnP_cons_eq_if_modifyHead]
      rw [← List.splitOn_eq_splitOnP]
      by_cases hx : x = sep
      · obtain ⟨part, hp, hm⟩ := mem_splitOn hne
          ((List.mem_cons.mp hc).resolve_left fun h => hne (h.trans hx))
        exact ⟨part, by simp [hx, hp], hm⟩
      · obtain ⟨first, rest, heq⟩ := List.exists_cons_of_ne_nil (List.splitOn_ne_nil sep s)
        rw [heq, if_neg (by simpa using hx), List.modifyHead_cons]
        rcases List.mem_cons.mp hc with rfl | hc
        · exact ⟨c :: first, List.mem_cons_self, List.mem_cons_self⟩
        · obtain ⟨part, hp, hm⟩ := mem_splitOn hne hc
          rw [heq] at hp
          rcases List.mem_cons.mp hp with rfl | hp
          · exact ⟨x :: part, List.mem_cons_self, List.mem_cons_of_mem _ hm⟩
          · exact ⟨part, List.mem_cons_of_mem _ hp, hm⟩

theorem mem_of_mem_splitOn {α : Type} [DecidableEq α] {sep c : α} {part : List α} :
    ∀ {s : List α}, part ∈ s.splitOn sep → c ∈ part → c ∈ s
  | [], hp, hc => by
      rw [List.splitOn_nil, List.mem_singleton] at hp
      exact hp ▸ hc
  | x :: s, hp, hc => by
      rw [List.splitOn_eq_splitOnP, List.splitOnP_cons_eq_if_modifyHead,
        ← List.splitOn_eq_splitOnP] at hp
      split at hp
      · rcases List.mem_cons.mp hp with rfl | hp
        · cases hc
        · exact List.mem_cons_of_mem _ (mem_of_mem_splitOn hp hc)
      · obtain ⟨first, rest, heq⟩ := List.exists_cons_of_ne_nil (List.splitOn_ne_nil sep s)
        have ih : ∀ p ∈ first :: rest, c ∈ p → c ∈ s := fun p hp' hcp =>
          mem_of_mem_splitOn (heq ▸ hp' : p ∈ s.splitOn sep) hcp
        rw [heq, List.modifyHead_cons] at hp
        rcases List.mem_cons.mp hp with rfl | hp
        · rcases List.mem_cons.mp hc with rfl | hc
          · exact List.mem_cons_self
          · exact List.mem_cons_of_mem _ (ih first List.mem_cons_self hc)
        · exact List.mem_cons_of_mem _ (ih part (List.mem_cons_of_mem _ hp) hc)

end Text
