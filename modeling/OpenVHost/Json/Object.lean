/-
# Objects as maps, and lines of text

A writer that keeps an object as a map sorted by name, and a reader for which of several
fields with one name the last counts; the compact text of a value, which is one line.

* `object` — an object of such a writer.
* `lookup`, `Value.item` — what such a reader finds.
* `printable_print` — a compact text has no control character.
-/

import OpenVHost.Json.Decode
import OpenVHost.Text.Ascii

namespace Json

/-! ### Objects -/

/-- A field put into a sorted map. -/
def insertField (n : List Char) (v : Value) :
    List (List Char × Value) → List (List Char × Value)
  | [] => [(n, v)]
  | (m, w) :: fs =>
      if n = m then (n, v) :: fs
      else if n < m then (n, v) :: (m, w) :: fs
      else (m, w) :: insertField n v fs

/-- The object that a map is written as. -/
def object (fields : List (List Char × Value)) : Value :=
  .obj (fields.foldl (fun fs f => insertField f.1 f.2 fs) [])

/-- The last field of a name. -/
def lookup (n : List Char) : List (List Char × Value) → Option Value
  | [] => none
  | (m, v) :: fs =>
      match lookup n fs with
      | some w => some w
      | none => if m = n then some v else none

/-- The fields but those of a name. -/
def without (n : List Char) (fs : List (List Char × Value)) : List (List Char × Value) :=
  fs.filter fun f => f.1 ≠ n

namespace Value

def fields? : Value → Option (List (List Char × Value))
  | .obj fs => some fs
  | _ => none

/-- A field of an object. -/
def item (n : List Char) (v : Value) : Option Value := v.fields?.bind (lookup n)

def toBool : Value → Option Bool
  | .bool b => some b
  | _ => none

def toInt32 : Value → Option Int32
  | .int n => if -2 ^ 31 ≤ n ∧ n < 2 ^ 31 then some (.ofInt n) else none
  | _ => none

def ofInt32 (n : Int32) : Value := .int n.toInt

@[simp] theorem toInt32_ofInt32 (n : Int32) : (ofInt32 n).toInt32 = some n := by
  have hlow := n.le_toInt
  have hhigh := n.toInt_lt
  have hn : -2 ^ 31 ≤ n.toInt ∧ n.toInt < 2 ^ 31 := by omega
  rw [ofInt32, toInt32, if_pos hn, Int32.ofInt_toInt]

/-- A value that may be missing or `null`. -/
def optional {α : Type} (read : Value → Option α) : Option Value → Option (Option α)
  | none | some .null => some none
  | some v => (read v).map some

def ofOption {α : Type} (write : α → Value) : Option α → Value
  | none => .null
  | some a => write a

/-- An array, each of its elements read. -/
def array {α : Type} (read : Value → Option α) (v : Value) : Option (List α) :=
  v.elems.bind fun xs => xs.mapM read

theorem optional_ofOption {α : Type} {read : Value → Option α} {write : α → Value}
    (hread : ∀ a, read (write a) = some a) (hnull : ∀ a, write a ≠ .null) (a : Option α) :
    optional read (some (ofOption write a)) = some a := by
  cases a with
  | none => rfl
  | some a =>
      have hsome : optional read (some (write a)) = (read (write a)).map some := by
        unfold optional
        split
        next heq => cases heq
        next heq => exact absurd (Option.some.inj heq) (hnull a)
        next v _ heq => rw [Option.some.inj heq]
      rw [ofOption, hsome, hread, Option.map_some]

theorem array_map {α : Type} {read : Value → Option α} {write : α → Value}
    (hread : ∀ a, read (write a) = some a) (xs : List α) :
    array read (.arr (xs.map write)) = some xs := by
  show (xs.map write).mapM read = some xs
  induction xs with
  | nil => rfl
  | cons x xs ih => simp [List.mapM_cons, hread, ih]

end Value

theorem Sound.ofInt32 {d : Nat} (n : Int32) : Sound d (.ofInt32 n) := by
  have hlow := n.le_toInt
  have hhigh := n.toInt_lt
  exact .int (by unfold InRange; omega)

theorem Sound.ofOption {α : Type} {d : Nat} {write : α → Value} (h : ∀ a, Sound d (write a))
    (a : Option α) : Sound d (.ofOption write a) := by
  cases a with
  | none => exact .null
  | some a => exact h a

theorem Sound.map {α : Type} {d : Nat} {write : α → Value} (h : ∀ a, Sound d (write a))
    (xs : List α) : Sound (d + 1) (.arr (xs.map write)) := by
  refine .arr fun v hv => ?_
  obtain ⟨a, _, rfl⟩ := List.mem_map.mp hv
  exact h a

theorem mem_insertField {n : List Char} {v : Value} {f : List Char × Value}
    {fs : List (List Char × Value)} (h : f ∈ insertField n v fs) : f = (n, v) ∨ f ∈ fs := by
  induction fs with
  | nil => exact .inl (List.mem_singleton.mp h)
  | cons g fs ih =>
      obtain ⟨m, w⟩ := g
      rw [insertField] at h
      split_ifs at h with heq hlt
      · rcases List.mem_cons.mp h with rfl | hf
        · exact .inl rfl
        · exact .inr (List.mem_cons_of_mem _ hf)
      · rcases List.mem_cons.mp h with rfl | hf
        · exact .inl rfl
        · exact .inr hf
      · rcases List.mem_cons.mp h with rfl | hf
        · exact .inr List.mem_cons_self
        · rcases ih hf with rfl | hf
          · exact .inl rfl
          · exact .inr (List.mem_cons_of_mem _ hf)

theorem Sound.object {d : Nat} {fields : List (List Char × Value)}
    (h : ∀ f ∈ fields, Sound d f.2) : Sound (d + 1) (object fields) := by
  have hfold : ∀ (fs acc : List (List Char × Value)), (∀ f ∈ fs, Sound d f.2) →
      (∀ f ∈ acc, Sound d f.2) →
      ∀ f ∈ fs.foldl (fun fs f => insertField f.1 f.2 fs) acc, Sound d f.2 := by
    intro fs
    induction fs with
    | nil => exact fun acc _ hacc => hacc
    | cons g fs ih =>
        intro acc hfs hacc
        refine ih _ (fun f hf => hfs f (List.mem_cons_of_mem _ hf)) fun f hf => ?_
        rcases mem_insertField hf with rfl | hf
        · exact hfs g List.mem_cons_self
        · exact hacc f hf
  exact .obj (hfold fields [] h fun f hf => absurd hf List.not_mem_nil)

/-! ### Fields put into an object -/

theorem lookup_insertField_of_ne {m n : List Char} (h : m ≠ n) (v : Value)
    (fs : List (List Char × Value)) : lookup m (insertField n v fs) = lookup m fs := by
  have hn : ∀ gs, lookup m ((n, v) :: gs) = lookup m gs := by
    intro gs
    rw [lookup]
    cases lookup m gs with
    | none => exact if_neg (Ne.symm h)
    | some w => rfl
  induction fs with
  | nil => exact hn []
  | cons f fs ih =>
      obtain ⟨k, w⟩ := f
      rw [insertField]
      split_ifs with heq hlt
      · subst heq
        rw [hn, lookup]
        cases lookup m fs with
        | none => exact (if_neg (Ne.symm h)).symm
        | some w => rfl
      · exact hn _
      · rw [lookup, lookup, ih]

/-- An object with more fields. -/
def Value.insertAll (v : Value) (fields : List (List Char × Value)) : Value :=
  match v with
  | .obj fs => .obj (fields.foldl (fun fs f => insertField f.1 f.2 fs) fs)
  | v => v

theorem Value.item_insertAll {n : List Char} {fields : List (List Char × Value)}
    (h : ∀ f ∈ fields, n ≠ f.1) (v : Value) : (v.insertAll fields).item n = v.item n := by
  cases v with
  | obj fs =>
      show lookup n (fields.foldl (fun fs f => insertField f.1 f.2 fs) fs) = lookup n fs
      induction fields generalizing fs with
      | nil => rfl
      | cons f fields ih =>
          rw [List.foldl_cons, ih fun g hg => h g (List.mem_cons_of_mem _ hg)]
          exact lookup_insertField_of_ne (h f List.mem_cons_self) f.2 fs
  | _ => rfl

theorem Sound.insertAll {d : Nat} {v : Value} {fields : List (List Char × Value)}
    (hv : Sound (d + 1) v) (h : ∀ f ∈ fields, Sound d f.2) : Sound (d + 1) (v.insertAll fields) := by
  cases hv with
  | @obj _ fs hfs =>
      refine .obj ?_
      induction fields generalizing fs with
      | nil => exact hfs
      | cons g fields ih =>
          refine ih (fun f hf => h f (List.mem_cons_of_mem _ hf)) fun f hf => ?_
          rcases mem_insertField hf with rfl | hf
          · exact h g List.mem_cons_self
          · exact hfs f hf
  | null => exact .null
  | bool => exact .bool
  | int h => exact .int h
  | str => exact .str
  | arr h => exact .arr h

/-! ### Lines -/

/-- No character below U+0020: a text on one line. -/
def Printable (s : List Char) : Prop := ∀ c ∈ s, 32 ≤ c.toNat

theorem Printable.of_all {s : List Char} (h : s.all (fun c => Nat.ble 32 c.toNat) = true) :
    Printable s := fun c hc => Nat.le_of_ble_eq_true (List.all_eq_true.mp h c hc)

theorem Printable.append {s t : List Char} (hs : Printable s) (ht : Printable t) :
    Printable (s ++ t) := by
  intro c hc
  rcases List.mem_append.mp hc with h | h
  · exact hs c h
  · exact ht c h

theorem Printable.cons {c : Char} {s : List Char} (hc : 32 ≤ c.toNat) (hs : Printable s) :
    Printable (c :: s) := List.forall_mem_cons.mpr ⟨hc, hs⟩

theorem printable_escape (c : Char) : Printable (escape c) := by
  have hhex : ∀ n < 16, 32 ≤ (hexDigit n).toNat := by decide
  unfold escape
  cases hshort : shortEscape c with
  | some x =>
      unfold shortEscape at hshort
      refine .cons (by decide) (.cons ?_ fun _ h => absurd h List.not_mem_nil)
      split_ifs at hshort <;> cases hshort <;> decide
  | none =>
      show Printable (if c.toNat < 32 then _ else _)
      split_ifs with hc
      · refine .append (s := ['\\', 'u', '0', '0']) (.of_all (by decide)) ?_
        exact .cons (hhex _ (by omega)) (.cons (hhex _ (by omega)) fun _ h =>
          absurd h List.not_mem_nil)
      · exact .cons (Nat.le_of_not_lt hc) fun _ h => absurd h List.not_mem_nil

theorem printable_printStr (s : List Char) : Printable (printStr s) := by
  refine .cons (by decide) (.append ?_ (.of_all (by decide)))
  intro c hc
  obtain ⟨d, _, hd⟩ := List.mem_flatMap.mp hc
  exact printable_escape d c hd

theorem printable_printInt (n : Int) : Printable (printInt n) := by
  have hdigits : Printable (Nat.toDigits 10 n.natAbs) := by
    intro c hc
    have hdigit := Nat.isDigit_of_mem_toDigits (by decide) (by decide) hc
    simp only [Char.isDigit, Bool.and_eq_true, decide_eq_true_eq] at hdigit
    exact Nat.le_trans (by decide) hdigit.1
  unfold printInt
  split_ifs
  · exact .cons (by decide) hdigits
  · exact hdigits

/-- **A compact text is one line.** -/
theorem printable_print {d : Nat} {v : Value} (h : Sound d v) (k : Nat) :
    Printable (print compact k v) := by
  have helems : ∀ {xs : List Value} (k : Nat), (∀ x ∈ xs, ∀ k, Printable (print compact k x)) →
      Printable (printElems compact k xs) := by
    intro xs k hxs
    induction xs with
    | nil => exact fun _ h => absurd h List.not_mem_nil
    | cons x xs ih =>
        refine .cons (by decide) ?_
        exact .append (hxs x List.mem_cons_self k) (ih fun y hy => hxs y (List.mem_cons_of_mem _ hy))
  have hfields : ∀ {fs : List (List Char × Value)} (k : Nat),
      (∀ f ∈ fs, ∀ k, Printable (print compact k f.2)) → Printable (printFields compact k fs) := by
    intro fs k hfs
    induction fs with
    | nil => exact fun _ h => absurd h List.not_mem_nil
    | cons f fs ih =>
        refine .cons (by decide) (.append (.append (printable_printStr f.1) (.cons (by decide) ?_)) ?_)
        · exact hfs f List.mem_cons_self k
        · exact ih fun g hg => hfs g (List.mem_cons_of_mem _ hg)
  induction h generalizing k with
  | null => exact Printable.of_all (s := "null".toList) (by decide)
  | @bool _ b =>
      cases b
      · exact Printable.of_all (s := "false".toList) (by decide)
      · exact Printable.of_all (s := "true".toList) (by decide)
  | int _ => exact printable_printInt _
  | str => exact printable_printStr _
  | @arr _ xs _ ih =>
      cases xs with
      | nil => exact Printable.of_all (s := "[]".toList) (by decide)
      | cons x xs =>
          have hx := ih x List.mem_cons_self (k + 1)
          have hxs := helems (k + 1) fun y hy => ih y (List.mem_cons_of_mem _ hy)
          refine .cons (by decide) (.append (.append ?_ fun _ h => absurd h List.not_mem_nil)
            (.of_all (by decide)))
          exact .append hx hxs
  | @obj _ fs _ ih =>
      cases fs with
      | nil => exact Printable.of_all (s := "\x7b\x7d".toList) (by decide)
      | cons f fs =>
          have hf := ih f List.mem_cons_self (k + 1)
          have hfs := hfields (k + 1) fun g hg => ih g (List.mem_cons_of_mem _ hg)
          refine .cons (by decide) (.append (.append ?_ fun _ h => absurd h List.not_mem_nil)
            (.of_all (by decide)))
          exact .append (.append (printable_printStr f.1) (.cons (by decide) hf)) hfs

end Json
