/-
# Text and its bytes

Text is a list of characters, a file's content a list of bytes, and `utf8` takes
the one to the other.

* `decodeUtf8_utf8` — what was encoded is read back.
* `utf8_injective` — different texts have different bytes.
* `fromUtf8Lossy_utf8` — what was encoded is read back by the lossy decoder too.
-/

import Mathlib.Data.List.Basic
import Mathlib.Tactic.Common

namespace Text

/-- The UTF-8 bytes of a text. -/
def utf8 (s : List Char) : List UInt8 := s.flatMap String.utf8EncodeChar

/-- The text of bytes that are valid UTF-8. -/
def decodeUtf8 (b : List UInt8) : Option (List Char) :=
  (b.toByteArray.utf8Decode?).map Array.toList

/-- The length of a text in bytes. -/
def utf8Len (s : List Char) : Nat := (utf8 s).length

theorem decodeUtf8_utf8 (s : List Char) : decodeUtf8 (utf8 s) = some s := by
  have h : (utf8 s).toByteArray = s.utf8Encode := rfl
  rw [decodeUtf8, h, List.utf8Decode?_utf8Encode]
  rfl

theorem utf8_of_decodeUtf8 {b : List UInt8} {s : List Char} (h : decodeUtf8 b = some s) :
    utf8 s = b := by
  unfold decodeUtf8 at h
  cases hd : b.toByteArray.utf8Decode? with
  | none => simp [hd] at h
  | some a =>
      rw [hd, Option.map_some, Option.some.injEq] at h
      have hget := ByteArray.utf8Encode_get_utf8Decode? (b := b.toByteArray) (h := by simp [hd])
      simp only [hd, Option.get_some, h] at hget
      have hbytes : (utf8 s).toByteArray = b.toByteArray := hget
      have := congrArg (fun x : ByteArray => x.data.toList) hbytes
      simpa using this

theorem utf8_injective : Function.Injective utf8 := by
  intro s s' h
  have hd := congrArg decodeUtf8 h
  rw [decodeUtf8_utf8, decodeUtf8_utf8] at hd
  exact Option.some.inj hd

@[simp] theorem utf8_inj {s s' : List Char} : utf8 s = utf8 s' ↔ s = s' := utf8_injective.eq_iff

theorem utf8_append (s s' : List Char) : utf8 (s ++ s') = utf8 s ++ utf8 s' :=
  List.flatMap_append ..

/-! ### Length -/

@[simp] theorem utf8Len_nil : utf8Len [] = 0 := rfl

@[simp] theorem utf8Len_append (s s' : List Char) : utf8Len (s ++ s') = utf8Len s + utf8Len s' := by
  rw [utf8Len, utf8_append, List.length_append]
  rfl

@[simp] theorem utf8Len_cons (c : Char) (s : List Char) :
    utf8Len (c :: s) = c.utf8Size + utf8Len s := by
  rw [← String.length_utf8EncodeChar]
  exact utf8Len_append [c] s |>.trans (by simp [utf8Len, utf8])

/-- A text is at least as long in bytes as in characters. -/
theorem length_le_utf8Len (s : List Char) : s.length ≤ utf8Len s := by
  induction s with
  | nil => exact Nat.le_refl _
  | cons c s ih =>
      have hc := Char.utf8Size_pos c
      rw [utf8Len_cons, List.length_cons]
      omega

/-- One byte a character, if all of them are ASCII. -/
theorem utf8Len_of_ascii {s : List Char} (h : ∀ c ∈ s, c.utf8Size = 1) : utf8Len s = s.length := by
  induction s with
  | nil => rfl
  | cons c s ih =>
      rw [utf8Len_cons, h c List.mem_cons_self, ih fun x hx => h x (List.mem_cons_of_mem _ hx),
        List.length_cons, Nat.add_comm]

/-! ### Decoding any bytes -/

/-- A byte that continues a sequence. -/
def isCont (b : UInt8) : Bool := b &&& 0xC0 == 0x80

/-- The second bytes of a sequence of three or four, by the first. -/
def secondOk (b0 b1 : UInt8) : Bool :=
  if b0 == 0xE0 then 0xA0 ≤ b1 && b1 ≤ 0xBF
  else if b0 == 0xED then 0x80 ≤ b1 && b1 ≤ 0x9F
  else if b0 == 0xF0 then 0x90 ≤ b1 && b1 ≤ 0xBF
  else if b0 == 0xF4 then 0x80 ≤ b1 && b1 ≤ 0x8F
  else 0x80 ≤ b1 && b1 ≤ 0xBF

def replacement : Char := '\uFFFD'

/-- The character that begins with a byte, or a replacement for the longest start of
one, and how many of the bytes that follow belong to it. -/
def scalar (b0 : UInt8) (rest : List UInt8) : Char × Nat :=
  let byte (i : Nat) : UInt8 := rest.getD i 0
  let low (i : Nat) : Nat := (byte i &&& 0x3F).toNat
  if b0 < 0x80 then (Char.ofNat b0.toNat, 0)
  else if b0 < 0xC2 then (replacement, 0)
  else if b0 < 0xE0 then
    if isCont (byte 0) then (Char.ofNat ((b0 &&& 0x1F).toNat * 64 + low 0), 1)
    else (replacement, 0)
  else if b0 < 0xF0 then
    if !secondOk b0 (byte 0) then (replacement, 0)
    else if !isCont (byte 1) then (replacement, 1)
    else (Char.ofNat (((b0 &&& 0x0F).toNat * 64 + low 0) * 64 + low 1), 2)
  else if b0 < 0xF5 then
    if !secondOk b0 (byte 0) then (replacement, 0)
    else if !isCont (byte 1) then (replacement, 1)
    else if !isCont (byte 2) then (replacement, 2)
    else (Char.ofNat ((((b0 &&& 0x07).toNat * 64 + low 0) * 64 + low 1) * 64 + low 2), 3)
  else (replacement, 0)

/-- Decode after the bytes that belong to a character already. -/
def lossyAfter : Nat → List UInt8 → List Char
  | _, [] => []
  | n + 1, _ :: rest => lossyAfter n rest
  | 0, b :: rest => (scalar b rest).1 :: lossyAfter (scalar b rest).2 rest

/-- `String::from_utf8_lossy` -/
def fromUtf8Lossy (b : List UInt8) : List Char := lossyAfter 0 b

/-! ### A character of each length -/

section Encoded

variable {m n k l : Nat} {rest : List UInt8}

theorem cont_spec (h : l < 64) :
    isCont (UInt8.ofNat (l + 0x80)) = true ∧ (UInt8.ofNat (l + 0x80) &&& 0x3F).toNat = l := by
  have hall : ∀ l < 64, isCont (UInt8.ofNat (l + 0x80)) = true ∧
      (UInt8.ofNat (l + 0x80) &&& 0x3F).toNat = l := by decide
  exact hall l h

theorem scalar_one (h : n < 0x80) : scalar (UInt8.ofNat n) rest = (Char.ofNat n, 0) := by
  have hall : ∀ n < 0x80, UInt8.ofNat n < 0x80 ∧ (UInt8.ofNat n).toNat = n := by decide
  obtain ⟨hlt, hn⟩ := hall n h
  rw [scalar, if_pos hlt, hn]

theorem scalar_two (hm : m < 32) (hmin : 2 ≤ m) (hl : l < 64) :
    scalar (UInt8.ofNat (m + 0xC0)) (UInt8.ofNat (l + 0x80) :: rest) =
      (Char.ofNat (m * 64 + l), 1) := by
  have hall : ∀ m < 32, 2 ≤ m → ¬ UInt8.ofNat (m + 0xC0) < 0x80 ∧ ¬ UInt8.ofNat (m + 0xC0) < 0xC2 ∧
      UInt8.ofNat (m + 0xC0) < 0xE0 ∧ (UInt8.ofNat (m + 0xC0) &&& 0x1F).toNat = m := by decide
  obtain ⟨h₁, h₂, h₃, hlow⟩ := hall m hm hmin
  obtain ⟨hcont, hbits⟩ := cont_spec hl
  simp only [scalar, if_neg h₁, if_neg h₂, if_pos h₃, List.getD_cons_zero, if_pos hcont, hlow,
    hbits]

/-- A second byte that neither spells a shorter sequence out nor leaves the range. -/
theorem secondOk_spec (hn : n < 64) (hE0 : m = 0xE0 → 32 ≤ n) (hED : m = 0xED → n < 32)
    (hF0 : m = 0xF0 → 16 ≤ n) (hF4 : m = 0xF4 → n < 16) (hm : m < 256) :
    secondOk (UInt8.ofNat m) (UInt8.ofNat (n + 0x80)) = true := by
  have hfirst : ∀ k < 256, (UInt8.ofNat m == UInt8.ofNat k) = true → m = k := by
    intro k hk h
    have := congrArg UInt8.toNat (beq_iff_eq.mp h)
    simpa [Nat.mod_eq_of_lt hm, Nat.mod_eq_of_lt hk] using this
  have hrange : ∀ n < 64, (0x80 ≤ UInt8.ofNat (n + 0x80) && UInt8.ofNat (n + 0x80) ≤ 0xBF) = true ∧
      (32 ≤ n → (0xA0 ≤ UInt8.ofNat (n + 0x80) && UInt8.ofNat (n + 0x80) ≤ 0xBF) = true) ∧
      (n < 32 → (0x80 ≤ UInt8.ofNat (n + 0x80) && UInt8.ofNat (n + 0x80) ≤ 0x9F) = true) ∧
      (16 ≤ n → (0x90 ≤ UInt8.ofNat (n + 0x80) && UInt8.ofNat (n + 0x80) ≤ 0xBF) = true) ∧
      (n < 16 → (0x80 ≤ UInt8.ofNat (n + 0x80) && UInt8.ofNat (n + 0x80) ≤ 0x8F) = true) := by
    decide
  obtain ⟨hany, hA0, h9F, h90, h8F⟩ := hrange n hn
  unfold secondOk
  split
  next h => exact hA0 (hE0 (hfirst 0xE0 (by omega) h))
  next =>
    split
    next h => exact h9F (hED (hfirst 0xED (by omega) h))
    next =>
      split
      next h => exact h90 (hF0 (hfirst 0xF0 (by omega) h))
      next =>
        split
        next h => exact h8F (hF4 (hfirst 0xF4 (by omega) h))
        next => exact hany

theorem scalar_three (hm : m < 16) (hn : n < 64) (hl : l < 64) (hmin : m = 0 → 32 ≤ n)
    (hmax : m = 13 → n < 32) :
    scalar (UInt8.ofNat (m + 0xE0)) (UInt8.ofNat (n + 0x80) :: UInt8.ofNat (l + 0x80) :: rest) =
      (Char.ofNat ((m * 64 + n) * 64 + l), 2) := by
  have hall : ∀ m < 16, ¬ UInt8.ofNat (m + 0xE0) < 0x80 ∧ ¬ UInt8.ofNat (m + 0xE0) < 0xC2 ∧
      ¬ UInt8.ofNat (m + 0xE0) < 0xE0 ∧ UInt8.ofNat (m + 0xE0) < 0xF0 ∧
      (UInt8.ofNat (m + 0xE0) &&& 0x0F).toNat = m := by decide
  obtain ⟨h₁, h₂, h₃, h₄, hlow⟩ := hall m hm
  have hsecond : secondOk (UInt8.ofNat (m + 0xE0)) (UInt8.ofNat (n + 0x80)) = true :=
    secondOk_spec hn (by omega) (by omega) (by omega) (by omega) (by omega)
  obtain ⟨-, hbits₁⟩ := cont_spec hn
  obtain ⟨hcont, hbits₂⟩ := cont_spec hl
  simp only [scalar, if_neg h₁, if_neg h₂, if_neg h₃, if_pos h₄, List.getD_cons_zero,
    List.getD_cons_succ, hsecond, hcont, hlow, hbits₁, hbits₂]
  rfl

theorem scalar_four (hm : m < 5) (hn : n < 64) (hk : k < 64) (hl : l < 64) (hmin : m = 0 → 16 ≤ n)
    (hmax : m = 4 → n < 16) :
    scalar (UInt8.ofNat (m + 0xF0)) (UInt8.ofNat (n + 0x80) :: UInt8.ofNat (k + 0x80) ::
      UInt8.ofNat (l + 0x80) :: rest) =
      (Char.ofNat (((m * 64 + n) * 64 + k) * 64 + l), 3) := by
  have hall : ∀ m < 5, ¬ UInt8.ofNat (m + 0xF0) < 0x80 ∧ ¬ UInt8.ofNat (m + 0xF0) < 0xC2 ∧
      ¬ UInt8.ofNat (m + 0xF0) < 0xE0 ∧ ¬ UInt8.ofNat (m + 0xF0) < 0xF0 ∧
      UInt8.ofNat (m + 0xF0) < 0xF5 ∧ (UInt8.ofNat (m + 0xF0) &&& 0x07).toNat = m := by decide
  obtain ⟨h₁, h₂, h₃, h₄, h₅, hlow⟩ := hall m hm
  have hsecond : secondOk (UInt8.ofNat (m + 0xF0)) (UInt8.ofNat (n + 0x80)) = true :=
    secondOk_spec hn (by omega) (by omega) (by omega) (by omega) (by omega)
  obtain ⟨-, hbits₁⟩ := cont_spec hn
  obtain ⟨hcont₁, hbits₂⟩ := cont_spec hk
  obtain ⟨hcont₂, hbits₃⟩ := cont_spec hl
  simp only [scalar, if_neg h₁, if_neg h₂, if_neg h₃, if_neg h₄, if_pos h₅, List.getD_cons_zero,
    List.getD_cons_succ, hsecond, hcont₁, hcont₂, hlow, hbits₁, hbits₂, hbits₃]
  rfl

/-- **A character that was encoded is the one that is read.** -/
theorem scalar_utf8EncodeChar (c : Char) (rest : List UInt8) :
    ∃ b tail, String.utf8EncodeChar c = b :: tail ∧ scalar b (tail ++ rest) = (c, tail.length) := by
  have hc : Char.ofNat c.val.toNat = c := Char.ofNat_toNat c
  have hv : c.val.toNat < 0xD800 ∨ 0xDFFF < c.val.toNat ∧ c.val.toNat < 0x110000 := c.valid
  unfold String.utf8EncodeChar
  dsimp only
  generalize c.val.toNat = v at hc hv
  split
  next h₁ =>
    refine ⟨_, [], rfl, ?_⟩
    rw [scalar_one (by omega), hc]
    rfl
  next h₁ =>
    split
    next h₂ =>
      refine ⟨_, _, rfl, ?_⟩
      have hval : v / 64 % 32 * 64 + v % 64 = v := by omega
      rw [List.singleton_append, scalar_two (by omega) (by omega) (by omega), hval, hc]
      rfl
    next h₂ =>
      split
      next h₃ =>
        refine ⟨_, _, rfl, ?_⟩
        have hval : (v / 4096 % 16 * 64 + v / 64 % 64) * 64 + v % 64 = v := by omega
        rw [List.cons_append, List.singleton_append, scalar_three (by omega) (by omega)
          (by omega) (by omega) (by omega), hval, hc]
        rfl
      next h₃ =>
        refine ⟨_, _, rfl, ?_⟩
        have hval :
            ((v / 262144 % 8 * 64 + v / 4096 % 64) * 64 + v / 64 % 64) * 64 + v % 64 = v := by
          omega
        rw [List.cons_append, List.cons_append, List.singleton_append, scalar_four (by omega)
          (by omega) (by omega) (by omega) (by omega) (by omega), hval, hc]
        rfl

end Encoded

theorem lossyAfter_skip (tail rest : List UInt8) :
    lossyAfter tail.length (tail ++ rest) = lossyAfter 0 rest := by
  induction tail with
  | nil => rfl
  | cons b tail ih => exact ih

/-- **What was encoded is read back by the lossy decoder too.** -/
theorem fromUtf8Lossy_utf8 (s : List Char) : fromUtf8Lossy (utf8 s) = s := by
  induction s with
  | nil => rfl
  | cons c s ih =>
      obtain ⟨b, tail, hbytes, hscalar⟩ := scalar_utf8EncodeChar c (utf8 s)
      have hcons : utf8 (c :: s) = b :: (tail ++ utf8 s) := by
        rw [utf8, List.flatMap_cons, hbytes]
        rfl
      have hstep : fromUtf8Lossy (utf8 (c :: s)) =
          c :: lossyAfter tail.length (tail ++ utf8 s) := by
        rw [hcons, fromUtf8Lossy, lossyAfter, hscalar]
      rw [hstep, lossyAfter_skip]
      exact congrArg _ ih

example : fromUtf8Lossy [0xC3, 0xA9, 0xF0, 0x90, 0x80, 0x62, 0xFF]
    = ['é', replacement, 'b', replacement] := by decide

end Text
