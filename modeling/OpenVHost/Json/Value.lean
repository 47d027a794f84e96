/-
# JSON values and their text

A JSON value, with the fields of an object in the order they stand in the text,
and how a layout writes it. Integers are kept apart from other numbers, which
are only held as they were spelled.

* `print` — the text of a value: compact on one line, or pretty.
* `Sound` — the values that a text can give back: integers of 64 bits, no other
  numbers, and nesting that a parser follows.
* `utf8Len_arr_sublist` — an array without some of its elements is no longer.
-/

import Mathlib.Data.Nat.Digits.Defs
import OpenVHost.Text.Utf8

namespace Json

inductive Value where
  | null
  | bool (b : Bool)
  | int (n : Int)
  | float (lexeme : List Char)
  | str (s : List Char)
  | arr (xs : List Value)
  | obj (fields : List (List Char × Value))
  deriving Repr

/-- Whitespace: before an element at a depth, and after a colon. -/
structure Layout where
  gap : Nat → List Char
  colon : List Char

/-- No whitespace. -/
def compact : Layout := ⟨fun _ => [], []⟩

/-- One line an element, two spaces a level. -/
def pretty : Layout := ⟨fun k => '\n' :: List.replicate (2 * k) ' ', [' ']⟩

/-! ### Text -/

/-- The characters that have an escape of their own, and its letter. -/
def shortEscape (c : Char) : Option Char :=
  if c = '"' then some '"'
  else if c = '\\' then some '\\'
  else if c.toNat = 8 then some 'b'
  else if c.toNat = 9 then some 't'
  else if c.toNat = 10 then some 'n'
  else if c.toNat = 12 then some 'f'
  else if c.toNat = 13 then some 'r'
  else none

def hexDigit (n : Nat) : Char := n.digitChar

def escape (c : Char) : List Char :=
  match shortEscape c with
  | some x => ['\\', x]
  | none =>
      if c.toNat < 32 then ['\\', 'u', '0', '0', hexDigit (c.toNat / 16), hexDigit (c.toNat % 16)]
      else [c]

def printStr (s : List Char) : List Char := '"' :: (s.flatMap escape ++ ['"'])

def printInt (n : Int) : List Char :=
  if n < 0 then '-' :: Nat.toDigits 10 n.natAbs else Nat.toDigits 10 n.natAbs

mutual

/-- The text of a value at a depth. -/
def print (l : Layout) (k : Nat) : Value → List Char
  | .null => "null".toList
  | .bool true => "true".toList
  | .bool false => "false".toList
  | .int n => printInt n
  | .float lexeme => lexeme
  | .str s => printStr s
  | .arr [] => "[]".toList
  | .arr (x :: xs) =>
      '[' :: (l.gap (k + 1) ++ print l (k + 1) x ++ printElems l (k + 1) xs ++ l.gap k ++ [']'])
  | .obj [] => "\x7b\x7d".toList
  | .obj ((n, x) :: fs) =>
      '\x7b' :: (l.gap (k + 1) ++ printStr n ++ ':' :: (l.colon ++ print l (k + 1) x) ++
        printFields l (k + 1) fs ++ l.gap k ++ ['\x7d'])

/-- The elements after the first. -/
def printElems (l : Layout) (k : Nat) : List Value → List Char
  | [] => []
  | x :: xs => ',' :: (l.gap k ++ print l k x ++ printElems l k xs)

/-- The fields after the first. -/
def printFields (l : Layout) (k : Nat) : List (List Char × Value) → List Char
  | [] => []
  | (n, x) :: fs =>
      ',' :: (l.gap k ++ printStr n ++ ':' :: (l.colon ++ print l k x) ++ printFields l k fs)

end

/-! ### What a text gives back -/

/-- The integers that are read as integers. -/
def InRange (n : Int) : Prop := -2 ^ 63 ≤ n ∧ n < 2 ^ 64

instance (n : Int) : Decidable (InRange n) := inferInstanceAs (Decidable (_ ∧ _))

/-- A value that a text gives back, nested at most `d` deep. -/
inductive Sound : Nat → Value → Prop
  | null {d} : Sound d .null
  | bool {d b} : Sound d (.bool b)
  | int {d n} (h : InRange n) : Sound d (.int n)
  | str {d s} : Sound d (.str s)
  | arr {d xs} (h : ∀ x ∈ xs, Sound d x) : Sound (d + 1) (.arr xs)
  | obj {d fs} (h : ∀ f ∈ fs, Sound d f.2) : Sound (d + 1) (.obj fs)

theorem Sound.mono {d d' : Nat} {v : Value} (h : Sound d v) (hd : d ≤ d') : Sound d' v := by
  induction h generalizing d' with
  | null => exact .null
  | bool => exact .bool
  | int h => exact .int h
  | str => exact .str
  | arr _ ih =>
      obtain ⟨e, rfl⟩ := Nat.exists_eq_add_of_le hd
      rw [Nat.add_right_comm]
      exact .arr fun x hx => ih x hx (Nat.le_add_right _ _)
  | obj _ ih =>
      obtain ⟨e, rfl⟩ := Nat.exists_eq_add_of_le hd
      rw [Nat.add_right_comm]
      exact .obj fun f hf => ih f hf (Nat.le_add_right _ _)

/-! ### Length -/

section Length

open Text

theorem utf8Len_printElems_sublist (l : Layout) (k : Nat) {xs ys : List Value}
    (h : ys.Sublist xs) : utf8Len (printElems l k ys) ≤ utf8Len (printElems l k xs) := by
  induction h with
  | slnil => exact Nat.le_refl _
  | cons x _ ih =>
      simp only [printElems, utf8Len_cons, utf8Len_append]
      omega
  | cons_cons x _ ih =>
      simp only [printElems, utf8Len_cons, utf8Len_append]
      omega

theorem utf8Size_of_all {s : List Char} (h : s.all (fun c => c.utf8Size == 1) = true) :
    ∀ c ∈ s, c.utf8Size = 1 := by
  simpa using h

/-- **An array without some of its elements is no longer.** -/
theorem utf8Len_arr_sublist (l : Layout) (k : Nat) {xs ys : List Value} (h : ys.Sublist xs) :
    utf8Len (print l k (.arr ys)) ≤ utf8Len (print l k (.arr xs)) := by
  have hone : ∀ c ∈ [',', '[', ']'], c.utf8Size = 1 := utf8Size_of_all (by decide)
  have hcomma := hone ',' (by decide)
  have hopen := hone '[' (by decide)
  have hclose := hone ']' (by decide)
  -- the elements with the comma before the first are two bytes less than the array
  have harr : ∀ zs : List Value, zs ≠ [] → utf8Len (print l k (.arr zs)) =
      utf8Len (printElems l (k + 1) zs) + utf8Len (l.gap k) + 1 := by
    intro zs hne
    obtain ⟨z, zs, rfl⟩ := List.exists_cons_of_ne_nil hne
    simp only [print, printElems, utf8Len_cons, utf8Len_append, utf8Len_nil, hcomma, hopen, hclose]
    omega
  have hsub := utf8Len_printElems_sublist l (k + 1) h
  by_cases hys : ys = []
  · subst hys
    by_cases hxs : xs = []
    · rw [hxs]
    · have hempty : utf8Len (print l k (.arr [])) = 2 := rfl
      obtain ⟨x, xs, rfl⟩ := List.exists_cons_of_ne_nil hxs
      rw [hempty]
      simp only [print, utf8Len_cons, utf8Len_append, utf8Len_nil, hopen, hclose]
      omega
  · have hxs : xs ≠ [] := by
      rintro rfl
      exact hys (List.sublist_nil.mp h)
    rw [harr ys hys, harr xs hxs]
    omega

/-- An array is longer than each of its elements. -/
theorem utf8Len_le_arr (l : Layout) (k : Nat) {x : Value} {xs : List Value} (h : x ∈ xs) :
    utf8Len (print l (k + 1) x) ≤ utf8Len (print l k (.arr xs)) := by
  have hsub := utf8Len_arr_sublist l k (List.singleton_sublist.mpr h)
  simp only [print, utf8Len_cons, utf8Len_append] at hsub ⊢
  omega

theorem length_le_utf8Len_printStr (s : List Char) : s.length ≤ utf8Len (printStr s) := by
  have hchar : ∀ c, 1 ≤ (escape c).length := by
    intro c
    unfold escape
    split
    · exact Nat.succ_le_succ (Nat.zero_le _)
    · split <;> exact Nat.succ_le_succ (Nat.zero_le _)
  have hlen : s.length ≤ (s.flatMap escape).length := by
    induction s with
    | nil => exact Nat.le_refl _
    | cons c s ih =>
        have hc := hchar c
        rw [List.flatMap_cons, List.length_append, List.length_cons]
        omega
  have hbytes := length_le_utf8Len (s.flatMap escape)
  simp only [printStr, utf8Len_cons, utf8Len_append]
  omega

/-- A number of so many digits is no longer than them and its sign. -/
theorem utf8Len_printInt {n : Int} {e : Nat} (he : 0 < e) (h : n.natAbs < 10 ^ e) :
    utf8Len (printInt n) ≤ e + 1 := by
  have hlen := Nat.toDigits_length 10 n.natAbs e he h
  have hdigits : utf8Len (Nat.toDigits 10 n.natAbs) = (Nat.toDigits 10 n.natAbs).length := by
    refine utf8Len_of_ascii fun c hc => ?_
    have hdigit := Nat.isDigit_of_mem_toDigits (by decide) (by decide) hc
    simp only [Char.isDigit, Bool.and_eq_true, decide_eq_true_eq] at hdigit
    rw [Char.utf8Size_eq_one_iff]
    exact Nat.le_trans hdigit.2 (by decide)
  unfold printInt
  split
  · have hminus : '-'.utf8Size = 1 := rfl
    rw [utf8Len_cons, hminus, hdigits]
    omega
  · rw [hdigits]
    omega

end Length

example : print compact 0 (.obj [("a".toList, .arr [.int (-1), .str "\"".toList])]) =
    "\x7b\"a\":[-1,\"\\\"\"]\x7d".toList := by decide

end Json
