/-
# Reading JSON values

What a record's reader asks of a value: a field that stands exactly once, a
string, an integer that fits its type.
-/

import OpenVHost.Json.Parse

namespace Json

/-- The field of a name, if it stands once. -/
def field (n : List Char) : List (List Char × Value) → Option Value
  | [] => none
  | (m, v) :: fs =>
      if m = n then if fs.any fun f => decide (f.1 = n) then none else some v else field n fs

/-- **The fields of an object whose names differ** are found by their names. -/
theorem field_eq_some {n : List Char} {v : Value} {fs : List (List Char × Value)}
    (hnames : (fs.map Prod.fst).Nodup) (h : (n, v) ∈ fs) : field n fs = some v := by
  induction fs with
  | nil => cases h
  | cons f fs ih =>
      obtain ⟨m, w⟩ := f
      obtain ⟨hm, hnodup⟩ := List.nodup_cons.mp hnames
      rcases List.mem_cons.mp h with heq | htail
      · obtain ⟨rfl, rfl⟩ := Prod.mk.inj heq
        have hany : (fs.any fun f => decide (f.1 = n)) = false := by
          rw [List.any_eq_false]
          intro f hf heq
          exact hm (List.mem_map.mpr ⟨f, hf, of_decide_eq_true heq⟩)
        rw [field, if_pos rfl, hany, if_neg Bool.false_ne_true]
      · have hne : m ≠ n := by
          rintro rfl
          exact hm (List.mem_map.mpr ⟨_, htail, rfl⟩)
        rw [field, if_neg hne]
        exact ih hnodup htail

namespace Value

/-- A field of an object, read. -/
def get {α : Type} (n : List Char) (read : Value → Option α) : Value → Option α
  | .obj fs => (field n fs).bind read
  | _ => none

theorem get_of_mem {α : Type} {n : List Char} {v : Value} {fs : List (List Char × Value)} {a : α}
    (hnames : (fs.map Prod.fst).Nodup) (h : (n, v) ∈ fs) (read : Value → Option α)
    (hread : read v = some a) : (obj fs).get n read = some a := by
  rw [get, field_eq_some hnames h, Option.bind_some, hread]

def elems : Value → Option (List Value)
  | .arr xs => some xs
  | _ => none

def text : Value → Option (List Char)
  | .str s => some s
  | _ => none

def toUInt32 : Value → Option UInt32
  | .int n => if 0 ≤ n ∧ n < 2 ^ 32 then some (.ofNat n.toNat) else none
  | _ => none

def toUInt64 : Value → Option UInt64
  | .int n => if 0 ≤ n ∧ n < 2 ^ 64 then some (.ofNat n.toNat) else none
  | _ => none

def toInt64 : Value → Option Int64
  | .int n => if -2 ^ 63 ≤ n ∧ n < 2 ^ 63 then some (.ofInt n) else none
  | _ => none

def ofUInt32 (n : UInt32) : Value := .int n.toNat

def ofUInt64 (n : UInt64) : Value := .int n.toNat

def ofInt64 (n : Int64) : Value := .int n.toInt

@[simp] theorem toUInt32_ofUInt32 (n : UInt32) : (ofUInt32 n).toUInt32 = some n := by
  have h := n.toNat_lt
  have hn : (0 : Int) ≤ n.toNat ∧ (n.toNat : Int) < 2 ^ 32 := by omega
  rw [ofUInt32, toUInt32, if_pos hn, Int.toNat_natCast, UInt32.ofNat_toNat]

@[simp] theorem toUInt64_ofUInt64 (n : UInt64) : (ofUInt64 n).toUInt64 = some n := by
  have h := n.toNat_lt
  have hn : (0 : Int) ≤ n.toNat ∧ (n.toNat : Int) < 2 ^ 64 := by omega
  rw [ofUInt64, toUInt64, if_pos hn, Int.toNat_natCast, UInt64.ofNat_toNat]

@[simp] theorem toInt64_ofInt64 (n : Int64) : (ofInt64 n).toInt64 = some n := by
  have hlow := n.le_toInt
  have hhigh := n.toInt_lt
  have hn : -2 ^ 63 ≤ n.toInt ∧ n.toInt < 2 ^ 63 := by omega
  rw [ofInt64, toInt64, if_pos hn, Int64.ofInt_toInt]

end Value

namespace Sound

theorem ofUInt32 {d : Nat} (n : UInt32) : Sound d (.ofUInt32 n) := by
  have h := n.toNat_lt
  exact .int (by unfold InRange; omega)

theorem ofUInt64 {d : Nat} (n : UInt64) : Sound d (.ofUInt64 n) := by
  have h := n.toNat_lt
  exact .int (by unfold InRange; omega)

theorem ofInt64 {d : Nat} (n : Int64) : Sound d (.ofInt64 n) := by
  have hlow := n.le_toInt
  have hhigh := n.toInt_lt
  exact .int (by unfold InRange; omega)

end Sound

end Json
