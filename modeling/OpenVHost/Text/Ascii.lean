/-
# A text seen by its bytes

Code that looks at the bytes of a text for ASCII characters sees what code that looks at its
characters sees: no byte of another character is below 128.

* `utf8_all`, `utf8_getLast_any` — tests that only ASCII passes.
* `sliceTo` — a text up to a byte, which has to be where a character starts.
-/

import OpenVHost.Text.Utf8

namespace Text

variable {c : Char} {s : List Char} {p : Nat → Bool}

theorem utf8EncodeChar_ascii (h : c.toNat < 128) :
    String.utf8EncodeChar c = [UInt8.ofNat c.toNat] := by
  have hle : c.val.toNat ≤ 127 := by
    change c.toNat ≤ 127
    omega
  unfold String.utf8EncodeChar
  exact if_pos hle

/-- **No byte of a character outside ASCII is below 128.** -/
theorem high_of_mem_utf8EncodeChar (h : 128 ≤ c.toNat) :
    ∀ b ∈ String.utf8EncodeChar c, 128 ≤ b.toNat := by
  have hgt : ¬ c.val.toNat ≤ 127 := by
    change ¬ c.toNat ≤ 127
    omega
  intro b hb
  unfold String.utf8EncodeChar at hb
  simp only [hgt, if_false] at hb
  split_ifs at hb
  all_goals
    simp only [List.mem_cons, List.not_mem_nil, or_false] at hb
    rcases hb with rfl | rfl | rfl | rfl
  all_goals
    simp only [UInt8.toNat_ofNat']
    omega

theorem utf8_cons (c : Char) (s : List Char) : utf8 (c :: s) = String.utf8EncodeChar c ++ utf8 s :=
  rfl

theorem utf8EncodeChar_ne_nil (c : Char) : String.utf8EncodeChar c ≠ [] := by
  intro h
  have hlen := String.length_utf8EncodeChar c
  rw [h] at hlen
  exact absurd (Char.utf8Size_pos c) (by simp [← hlen])

/-- The bytes of one character pass a test that only ASCII passes where it does. -/
theorem utf8EncodeChar_all (hp : ∀ n, 128 ≤ n → p n = false) (c : Char) :
    (String.utf8EncodeChar c).all (fun b => p b.toNat) = p c.toNat := by
  by_cases h : c.toNat < 128
  · rw [utf8EncodeChar_ascii h, List.all_cons, List.all_nil, Bool.and_true, UInt8.toNat_ofNat',
      Nat.mod_eq_of_lt (by omega)]
  · have hhigh := high_of_mem_utf8EncodeChar (Nat.le_of_not_lt h)
    rw [hp _ (Nat.le_of_not_lt h)]
    obtain ⟨b, rest, hb⟩ := List.exists_cons_of_ne_nil (utf8EncodeChar_ne_nil c)
    rw [hb] at hhigh ⊢
    rw [List.all_cons, hp _ (hhigh b List.mem_cons_self), Bool.false_and]

/-- **All bytes pass** where all characters do. -/
theorem utf8_all (hp : ∀ n, 128 ≤ n → p n = false) (s : List Char) :
    (utf8 s).all (fun b => p b.toNat) = s.all fun c => p c.toNat := by
  induction s with
  | nil => rfl
  | cons c s ih => rw [utf8_cons, List.all_append, utf8EncodeChar_all hp, ih, List.all_cons]

/-- A byte below 128 is a character. -/
theorem exists_of_mem_utf8 {b : UInt8} (hb : b ∈ utf8 s) (h : b.toNat < 128) :
    ∃ c ∈ s, c.toNat = b.toNat := by
  obtain ⟨c, hc, hbc⟩ := List.mem_flatMap.mp hb
  refine ⟨c, hc, ?_⟩
  by_cases hascii : c.toNat < 128
  · rw [utf8EncodeChar_ascii hascii, List.mem_singleton] at hbc
    rw [hbc, UInt8.toNat_ofNat', Nat.mod_eq_of_lt (by omega)]
  · exact absurd (high_of_mem_utf8EncodeChar (Nat.le_of_not_lt hascii) b hbc) (Nat.not_le.mpr h)

/-- The last byte is the last character, or a byte of it that is above ASCII. -/
theorem utf8_getLast (s : List Char) :
    match s.getLast? with
    | none => (utf8 s).getLast? = none
    | some c => ∃ b, (utf8 s).getLast? = some b ∧
        (c.toNat < 128 ∧ b.toNat = c.toNat ∨ 128 ≤ c.toNat ∧ 128 ≤ b.toNat) := by
  rcases List.eq_nil_or_concat' s with rfl | ⟨s, c, rfl⟩
  · rfl
  · simp only [List.getLast?_concat]
    have hone : utf8 [c] = String.utf8EncodeChar c := by rw [utf8_cons]; exact List.append_nil _
    rw [utf8_append, hone, List.getLast?_append_of_ne_nil _ (utf8EncodeChar_ne_nil c)]
    by_cases h : c.toNat < 128
    · rw [utf8EncodeChar_ascii h]
      refine ⟨UInt8.ofNat c.toNat, rfl, .inl ⟨h, ?_⟩⟩
      rw [UInt8.toNat_ofNat', Nat.mod_eq_of_lt (by omega)]
    · have hhigh := high_of_mem_utf8EncodeChar (Nat.le_of_not_lt h)
      obtain ⟨b, hb⟩ := List.getLast?_isSome.mpr (utf8EncodeChar_ne_nil c) |> Option.isSome_iff_exists.mp
      exact ⟨b, hb, .inr ⟨Nat.le_of_not_lt h, hhigh b (List.mem_of_getLast? hb)⟩⟩

/-! ### Slices -/

/-- The text up to a byte, which has to be in the text and where a character starts. -/
def sliceTo : List Char → Nat → Option (List Char)
  | _, 0 => some []
  | [], _ + 1 => none
  | c :: s, n + 1 =>
      if c.utf8Size ≤ n + 1 then (sliceTo s (n + 1 - c.utf8Size)).map (c :: ·) else none

theorem sliceTo_append (s t : List Char) : sliceTo (s ++ t) (utf8Len s) = some s := by
  induction s with
  | nil =>
      unfold sliceTo
      rfl
  | cons c s ih =>
      obtain ⟨n, hn⟩ : ∃ n, utf8Len (c :: s) = n + 1 :=
        Nat.exists_eq_succ_of_ne_zero (by
          have := Char.utf8Size_pos c
          rw [utf8Len_cons]
          omega)
      have hrest : n + 1 - c.utf8Size = utf8Len s := by
        rw [← hn, utf8Len_cons]
        omega
      have hfits : c.utf8Size ≤ n + 1 := by
        rw [← hn, utf8Len_cons]
        omega
      rw [hn, List.cons_append, sliceTo, if_pos hfits, hrest, ih]
      rfl

/-- A character of one byte can be cut off. -/
theorem sliceTo_dropLast (hc : s.getLast? = some c) (h : c.toNat < 128) :
    sliceTo s (utf8Len s - 1) = some s.dropLast := by
  obtain ⟨s, rfl⟩ := List.getLast?_eq_some_iff.mp hc
  have hsize : utf8Len [c] = 1 := by
    rw [utf8Len, utf8_cons, utf8EncodeChar_ascii h]
    rfl
  rw [utf8Len_append, hsize, Nat.add_sub_cancel, List.dropLast_concat]
  exact sliceTo_append s [c]

example : sliceTo ['é', 'k'] 1 = none ∧ sliceTo ['é', 'k'] 2 = some ['é'] := by decide

end Text
