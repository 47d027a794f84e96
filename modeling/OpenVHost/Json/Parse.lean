/-
# Parsing JSON

A parser that descends at most as deep as it is told: the nesting is counted
down, the elements of one array or object are counted by the text that is left.

* `parse_print` — every sound value is read back from its text, in any layout
  whose gaps are whitespace.
-/

import OpenVHost.Json.Value

namespace Json

/-! ### The parser -/

def isWs (c : Char) : Bool := c == ' ' || c == '\n' || c == '\t' || c == '\r'

def skipWs (s : List Char) : List Char := s.dropWhile isWs

/-- The character of a one-letter escape. -/
def unescape (c : Char) : Option Char :=
  if c = '"' then some '"'
  else if c = '\\' then some '\\'
  else if c = '/' then some '/'
  else if c = 'b' then some (Char.ofNat 8)
  else if c = 't' then some (Char.ofNat 9)
  else if c = 'n' then some (Char.ofNat 10)
  else if c = 'f' then some (Char.ofNat 12)
  else if c = 'r' then some (Char.ofNat 13)
  else none

def hexValue (c : Char) : Option Nat :=
  if '0' ≤ c ∧ c ≤ '9' then some (c.toNat - '0'.toNat)
  else if 'a' ≤ c ∧ c ≤ 'f' then some (c.toNat - 'a'.toNat + 10)
  else if 'A' ≤ c ∧ c ≤ 'F' then some (c.toNat - 'A'.toNat + 10)
  else none

/-- Four hexadecimal digits. -/
def parseHex : List Char → Option (Nat × List Char)
  | a :: b :: c :: d :: r => do
      let a ← hexValue a
      let b ← hexValue b
      let c ← hexValue c
      let d ← hexValue d
      some (((a * 16 + b) * 16 + c) * 16 + d, r)
  | _ => none

/-- What follows `\u`: a character, or the two halves of one. -/
def parseUnicode (s : List Char) : Option (Char × List Char) := do
  let (n, r) ← parseHex s
  if 0xD800 ≤ n ∧ n < 0xDC00 then
    match r with
    | '\\' :: 'u' :: r => do
        let (m, r) ← parseHex r
        if 0xDC00 ≤ m ∧ m < 0xE000 then
          some (Char.ofNat (0x10000 + (n - 0xD800) * 0x400 + (m - 0xDC00)), r)
        else none
    | _ => none
  else if 0xDC00 ≤ n ∧ n < 0xE000 then none
  else some (Char.ofNat n, r)

/-- One character of a string. -/
def parseChar : List Char → Option (Char × List Char)
  | [] => none
  | c :: r =>
      if c = '\\' then
        match r with
        | [] => none
        | e :: r => if e = 'u' then parseUnicode r else (unescape e).map (·, r)
      else if c.toNat < 32 then none
      else some (c, r)

/-- The rest of a string. -/
def parseStr : Nat → List Char → Option (List Char × List Char)
  | 0, _ => none
  | fuel + 1, s =>
      match s with
      | '"' :: r => some ([], r)
      | s => do
          let (c, r) ← parseChar s
          let (cs, r) ← parseStr fuel r
          some (c :: cs, r)

/-- The fraction and the exponent of a number, as they are spelled. -/
def parseFraction (s : List Char) : Option (List Char × List Char) := do
  let (frac, r) ← (match s with
    | '.' :: r =>
        let digits := r.takeWhile Char.isDigit
        if digits = [] then none else some ('.' :: digits, r.drop digits.length)
    | r => some ([], r))
  match r with
  | c :: r =>
      if c = 'e' ∨ c = 'E' then
        let sign := match r with
          | '+' :: _ => ['+']
          | '-' :: _ => ['-']
          | _ => []
        let r := r.drop sign.length
        let digits := r.takeWhile Char.isDigit
        if digits = [] then none
        else some (frac ++ c :: (sign ++ digits), r.drop digits.length)
      else some (frac, c :: r)
  | [] => some (frac, [])

/-- A number: an integer if it has no fraction and is one of 64 bits. -/
def parseNum (s : List Char) : Option (Value × List Char) :=
  let neg := s.head? == some '-'
  let body := if neg then s.drop 1 else s
  let digits := body.takeWhile Char.isDigit
  let rest := body.drop digits.length
  if digits = [] ∨ (1 < digits.length ∧ digits.head? = some '0') then none
  else
    match parseFraction rest with
    | none => none
    | some (frac, r) =>
        let n : Int := Nat.ofDigitChars 10 digits 0
        let n := if neg then -n else n
        let sign := if neg then ['-'] else []
        if frac = [] ∧ InRange n ∧ ¬ (neg = true ∧ n = 0) then some (.int n, r)
        else some (.float (sign ++ digits ++ frac), r)

def parseLit (lit : String) (v : Value) (s : List Char) : Option (Value × List Char) :=
  if lit.toList.isPrefixOf s then some (v, s.drop lit.toList.length) else none

section Containers

variable (value : List Char → Option (Value × List Char))

/-- The elements of an array up to its end. -/
def parseElems : Nat → List Char → Option (List Value × List Char)
  | 0, _ => none
  | fuel + 1, s => do
      let (x, r) ← value s
      match skipWs r with
      | ',' :: r => do
          let (xs, r) ← parseElems fuel r
          some (x :: xs, r)
      | ']' :: r => some ([x], r)
      | _ => none

/-- The fields of an object up to its end. -/
def parseFields : Nat → List Char → Option (List (List Char × Value) × List Char)
  | 0, _ => none
  | fuel + 1, s =>
      match skipWs s with
      | '"' :: r => do
          let (n, r) ← parseStr (r.length + 1) r
          match skipWs r with
          | ':' :: r => do
              let (x, r) ← value r
              match skipWs r with
              | ',' :: r => do
                  let (fs, r) ← parseFields fuel r
                  some ((n, x) :: fs, r)
              | '\x7d' :: r => some ([(n, x)], r)
              | _ => none
          | _ => none
      | _ => none

def parseArr (s : List Char) : Option (Value × List Char) :=
  match skipWs s with
  | ']' :: r => some (.arr [], r)
  | r => (parseElems value (r.length + 1) r).map fun (xs, r) => (.arr xs, r)

def parseObj (s : List Char) : Option (Value × List Char) :=
  match skipWs s with
  | '\x7d' :: r => some (.obj [], r)
  | r => (parseFields value (r.length + 1) r).map fun (fs, r) => (.obj fs, r)

end Containers

/-- A value, given how its arrays and objects are read. -/
def parseWith (arr obj : List Char → Option (Value × List Char)) (s : List Char) :
    Option (Value × List Char) :=
  match skipWs s with
  | [] => none
  | c :: r =>
      if c = '"' then (parseStr (r.length + 1) r).map fun (s, r) => (.str s, r)
      else if c = '[' then arr r
      else if c = '\x7b' then obj r
      else if c = 'n' then parseLit "null" .null (c :: r)
      else if c = 't' then parseLit "true" (.bool true) (c :: r)
      else if c = 'f' then parseLit "false" (.bool false) (c :: r)
      else parseNum (c :: r)

/-- A value that is nested at most so deep. -/
def parseValue : Nat → List Char → Option (Value × List Char)
  | 0 => parseWith (fun _ => none) fun _ => none
  | d + 1 => parseWith (parseArr (parseValue d)) (parseObj (parseValue d))

/-- The deepest nesting that is read. -/
def maxDepth : Nat := 127

/-- A text that is one value. -/
def parse (s : List Char) : Option Value :=
  match parseValue maxDepth s with
  | some (v, r) => if skipWs r = [] then some v else none
  | none => none

/-! ### Whitespace -/

/-- A layout whose gaps are whitespace. -/
structure Layout.Blank (l : Layout) : Prop where
  gap : ∀ k, ∀ c ∈ l.gap k, isWs c = true
  colon : ∀ c ∈ l.colon, isWs c = true

theorem compact_blank : compact.Blank := ⟨by simp [compact], by simp [compact]⟩

theorem pretty_blank : pretty.Blank := by
  constructor
  · intro k c hc
    rcases List.mem_cons.mp hc with rfl | hc
    · decide
    · rw [(List.mem_replicate.mp hc).2]
      decide
  · intro c hc
    rw [List.mem_singleton.mp hc]
    decide

theorem skipWs_gap {g s : List Char} (h : ∀ c ∈ g, isWs c = true) : skipWs (g ++ s) = skipWs s :=
  List.dropWhile_append_of_pos h

theorem skipWs_cons {c : Char} {s : List Char} (h : isWs c = false) : skipWs (c :: s) = c :: s := by
  rw [skipWs, List.dropWhile_cons_of_neg (by simp [h])]

/-! ### Strings -/

theorem shortEscape_eq_some {c x : Char} (h : shortEscape c = some x) :
    x ≠ 'u' ∧ unescape x = some c := by
  have hchar : ∀ n, c.toNat = n → Char.ofNat n = c := by
    rintro n rfl
    exact Char.ofNat_toNat c
  unfold shortEscape at h
  repeat' split at h
  all_goals cases h
  all_goals refine ⟨by decide, ?_⟩
  · next hc => subst hc; rfl
  · next hc => subst hc; rfl
  · next hc => exact congrArg some (hchar _ hc)
  · next hc => exact congrArg some (hchar _ hc)
  · next hc => exact congrArg some (hchar _ hc)
  · next hc => exact congrArg some (hchar _ hc)
  · next hc => exact congrArg some (hchar _ hc)

theorem hexValue_hexDigit : ∀ n < 16, hexValue (hexDigit n) = some n := by
  decide

/-- **Every character is read back from its escape.** -/
theorem parseChar_escape (c : Char) (r : List Char) : parseChar (escape c ++ r) = some (c, r) := by
  unfold escape
  cases hs : shortEscape c with
  | some x =>
      obtain ⟨hu, hx⟩ := shortEscape_eq_some hs
      show parseChar ('\\' :: x :: r) = _
      simp only [parseChar, if_true, if_neg hu, hx, Option.map_some]
  | none =>
      by_cases hc : c.toNat < 32
      · simp only [if_pos hc]
        show parseUnicode ('0' :: '0' :: hexDigit (c.toNat / 16) :: hexDigit (c.toNat % 16) :: r) = _
        have hhex : parseHex ('0' :: '0' :: hexDigit (c.toNat / 16) :: hexDigit (c.toNat % 16) :: r) =
            some (c.toNat, r) := by
          have h₁ := hexValue_hexDigit (c.toNat / 16) (by omega)
          have h₂ := hexValue_hexDigit (c.toNat % 16) (by omega)
          have h₀ : hexValue '0' = some 0 := rfl
          have hsum : ((0 * 16 + 0) * 16 + c.toNat / 16) * 16 + c.toNat % 16 = c.toNat := by omega
          simp only [parseHex, h₀, h₁, h₂, bind, Option.bind, hsum]
        have hlow : ¬ (0xD800 ≤ c.toNat ∧ c.toNat < 0xDC00) := by omega
        have hhigh : ¬ (0xDC00 ≤ c.toNat ∧ c.toNat < 0xE000) := by omega
        simp only [parseUnicode, hhex, bind, Option.bind, if_neg hlow, if_neg hhigh,
          Char.ofNat_toNat]
      · simp only [if_neg hc]
        have hslash : c ≠ '\\' := by
          rintro rfl
          cases hs
        show parseChar (c :: r) = _
        simp only [parseChar, if_neg hslash, if_neg hc]

theorem escape_head (c : Char) (r : List Char) : ∃ x t, escape c ++ r = x :: t ∧ x ≠ '"' := by
  unfold escape
  cases hs : shortEscape c with
  | some x => exact ⟨_, _, rfl, by decide⟩
  | none =>
      by_cases hc : c.toNat < 32
      · simp only [if_pos hc]
        exact ⟨_, _, rfl, by decide⟩
      · simp only [if_neg hc]
        refine ⟨_, _, rfl, ?_⟩
        rintro rfl
        cases hs

/-- **Every string is read back.** -/
theorem parseStr_print (r : List Char) : ∀ (s : List Char) (fuel : Nat), s.length < fuel →
    parseStr fuel (s.flatMap escape ++ '"' :: r) = some (s, r)
  | [], fuel + 1, _ => rfl
  | c :: s, fuel + 1, h => by
      have ih := parseStr_print r s fuel (by simpa using h)
      rw [List.flatMap_cons, List.append_assoc]
      obtain ⟨x, t, heq, hx⟩ := escape_head c (s.flatMap escape ++ '"' :: r)
      have hchar := parseChar_escape c (s.flatMap escape ++ '"' :: r)
      rw [heq] at hchar ⊢
      unfold parseStr
      split
      next heq' => exact absurd (List.cons.inj heq').1 hx
      next => simp only [hchar, bind, Option.bind, ih]

theorem length_le_flatMap_escape (s : List Char) : s.length ≤ (s.flatMap escape).length := by
  induction s with
  | nil => exact Nat.le_refl _
  | cons c s ih =>
      obtain ⟨x, t, heq, -⟩ := escape_head c []
      have hlen := congrArg List.length heq
      simp only [List.append_nil, List.length_cons] at hlen
      rw [List.flatMap_cons, List.length_append, List.length_cons]
      omega

/-! ### Numbers -/

/-- What may follow a number without being read as part of it. -/
def Delimited (r : List Char) : Prop :=
  ∀ c, r.head? = some c → c.isDigit = false ∧ c ≠ '.' ∧ c ≠ 'e' ∧ c ≠ 'E'

theorem delimited_cons {c : Char} {r : List Char}
    (h : c.isDigit = false ∧ c ≠ '.' ∧ c ≠ 'e' ∧ c ≠ 'E') : Delimited (c :: r) := by
  intro x hx
  cases hx
  exact h

theorem parseFraction_delimited {r : List Char} (h : Delimited r) :
    parseFraction r = some ([], r) := by
  cases r with
  | nil => rfl
  | cons c r =>
      obtain ⟨-, hdot, he, hE⟩ := h c rfl
      have hexp : ¬ (c = 'e' ∨ c = 'E') := by simp [he, hE]
      unfold parseFraction
      split
      next digits heq => exact absurd (List.cons.inj heq).1 hdot
      next => exact if_neg hexp

theorem head_toDigits {m : Nat} : 0 < m → (Nat.toDigits 10 m).head? ≠ some '0' := by
  induction m using Nat.strongRecOn with
  | _ m ih =>
      intro hm
      by_cases hlt : m < 10
      · rw [Nat.toDigits_of_lt_base hlt]
        have hall : ∀ m < 10, 0 < m → ([m.digitChar] : List Char).head? ≠ some '0' := by decide
        exact hall m hlt hm
      · rw [Nat.toDigits_of_base_le (by decide) (by omega),
          List.head?_append_of_ne_nil _ Nat.toDigits_ne_nil]
        exact ih (m / 10) (by omega) (by omega)

/-- **Every integer of 64 bits is read back.** -/
theorem parseNum_print {n : Int} {r : List Char} (hn : InRange n) (hr : Delimited r) :
    parseNum (printInt n ++ r) = some (.int n, r) := by
  have hdigits : ∀ c ∈ Nat.toDigits 10 n.natAbs, c.isDigit = true := fun c hc =>
    Nat.isDigit_of_mem_toDigits (by decide) (by decide) hc
  have htake : (Nat.toDigits 10 n.natAbs ++ r).takeWhile Char.isDigit = Nat.toDigits 10 n.natAbs := by
    rw [List.takeWhile_append_of_pos hdigits]
    cases r with
    | nil => simp
    | cons c r => rw [List.takeWhile_cons_of_neg (by simp [(hr c rfl).1]), List.append_nil]
  have hlead : 1 < (Nat.toDigits 10 n.natAbs).length →
      ¬ (Nat.toDigits 10 n.natAbs).head? = some '0' := by
    intro hlen
    by_cases hzero : n.natAbs = 0
    · rw [hzero] at hlen
      exact absurd hlen (by decide)
    · exact head_toDigits (Nat.pos_of_ne_zero hzero)
  have hvalue := Nat.ofDigitChars_toDigits (b := 10) (n := n.natAbs) (by decide) (by decide)
  by_cases hneg : n < 0
  · have hprint : printInt n ++ r = '-' :: (Nat.toDigits 10 n.natAbs ++ r) := by
      rw [printInt, if_pos hneg]
      rfl
    have habs : -(n.natAbs : Int) = n := by omega
    have hzero : ¬ n = 0 := by omega
    rw [hprint]
    unfold parseNum
    simpa [-Nat.cast_natAbs, htake, parseFraction_delimited hr, hvalue, habs, hn, hzero] using hlead
  · have hprint : printInt n ++ r = Nat.toDigits 10 n.natAbs ++ r := by
      rw [printInt, if_neg hneg]
    have hhead : (Nat.toDigits 10 n.natAbs ++ r).head? ≠ some '-' := by
      rw [List.head?_append_of_ne_nil _ Nat.toDigits_ne_nil]
      intro h
      exact absurd (hdigits '-' (List.mem_of_head? h)) (by decide)
    have habs : (n.natAbs : Int) = n := by omega
    rw [hprint]
    unfold parseNum
    simp only [beq_eq_false_iff_ne.mpr hhead, htake, List.drop_left, parseFraction_delimited hr,
      hvalue, habs, Bool.false_eq_true, if_false]
    simpa [hn] using hlead

/-! ### Values -/

section Print

variable {l : Layout}

theorem printInt_head (n : Int) : ∃ c t, printInt n = c :: t ∧ (c = '-' ∨ c.isDigit = true) := by
  unfold printInt
  split
  · exact ⟨'-', _, rfl, .inl rfl⟩
  · obtain ⟨c, t, h⟩ := List.exists_cons_of_ne_nil (Nat.toDigits_ne_nil (n := n.natAbs) (b := 10))
    have hc : c ∈ Nat.toDigits 10 n.natAbs := h ▸ List.mem_cons_self
    exact ⟨c, t, h, .inr (Nat.isDigit_of_mem_toDigits (by decide) (by decide) hc)⟩

theorem digit_ne {c : Char} (h : c = '-' ∨ c.isDigit = true) :
    isWs c = false ∧ c ≠ '"' ∧ c ≠ '[' ∧ c ≠ '\x7b' ∧ c ≠ ']' ∧ c ≠ 'n' ∧ c ≠ 't' ∧ c ≠ 'f' := by
  rcases h with rfl | h
  · decide
  · have hne : ∀ x : Char, x.isDigit = false → c ≠ x := by
      rintro x hx rfl
      rw [h] at hx
      cases hx
    have hws : isWs c = false := by
      simp [isWs, hne ' ' (by decide), hne '\n' (by decide), hne '\t' (by decide),
        hne '\r' (by decide)]
    exact ⟨hws, hne _ (by decide), hne _ (by decide), hne _ (by decide), hne _ (by decide),
      hne _ (by decide), hne _ (by decide), hne _ (by decide)⟩

/-- A sound value starts with a character that is neither whitespace nor an end. -/
theorem print_head {d : Nat} {v : Value} (h : Sound d v) (l : Layout) (k : Nat) :
    ∃ c t, print l k v = c :: t ∧ isWs c = false ∧ c ≠ ']' := by
  cases h with
  | null => exact ⟨_, _, rfl, by decide, by decide⟩
  | @bool _ b => cases b <;> exact ⟨_, _, rfl, by decide, by decide⟩
  | @int _ n h =>
      obtain ⟨c, t, heq, hc⟩ := printInt_head n
      obtain ⟨hws, -, -, -, hend, -⟩ := digit_ne hc
      exact ⟨c, t, by rw [print, heq], hws, hend⟩
  | str => exact ⟨_, _, rfl, by decide, by decide⟩
  | @arr _ xs h => cases xs <;> exact ⟨_, _, rfl, by decide, by decide⟩
  | @obj _ fs h => cases fs <;> exact ⟨_, _, rfl, by decide, by decide⟩

/-- Whitespace before a value is skipped. -/
theorem parseValue_gap {d : Nat} {g s : List Char} (hg : ∀ c ∈ g, isWs c = true) :
    parseValue d (g ++ s) = parseValue d s := by
  cases d <;> simp only [parseValue, parseWith, skipWs_gap hg]

/-- What reads each of the values that are printed, whatever whitespace is before them. -/
def Reads (value : List Char → Option (Value × List Char)) (l : Layout) (k : Nat) (v : Value) :
    Prop :=
  ∀ g rest, (∀ c ∈ g, isWs c = true) → Delimited rest →
    value (g ++ (print l k v ++ rest)) = some (v, rest)

theorem delimited_gap (hl : l.Blank) {k : Nat} {c : Char} {r : List Char}
    (hc : c.isDigit = false ∧ c ≠ '.' ∧ c ≠ 'e' ∧ c ≠ 'E') : Delimited (l.gap k ++ c :: r) := by
  cases hg : l.gap k with
  | nil => exact delimited_cons hc
  | cons x g =>
      have hx := hl.gap k x (hg ▸ List.mem_cons_self)
      simp only [isWs, Bool.or_eq_true, beq_iff_eq] at hx
      refine delimited_cons ?_
      rcases hx with ((rfl | rfl) | rfl) | rfl <;> decide

theorem length_le_printElems (k : Nat) (xs : List Value) :
    xs.length ≤ (printElems l k xs).length := by
  induction xs with
  | nil => exact Nat.le_refl _
  | cons x xs ih =>
      simp only [printElems, List.length_cons, List.length_append]
      omega

/-- **The elements of an array are read back.** -/
theorem parseElems_print (hl : l.Blank) (value : List Char → Option (Value × List Char)) (k j : Nat)
    (rest : List Char) : ∀ (xs : List Value) (x : Value) (g : List Char) (fuel : Nat),
      (∀ y ∈ x :: xs, Reads value l k y) → (∀ c ∈ g, isWs c = true) → xs.length < fuel →
      parseElems value fuel (g ++ (print l k x ++ (printElems l k xs ++ (l.gap j ++ ']' :: rest)))) =
        some (x :: xs, rest)
  | [], x, g, fuel + 1, hread, hg, _ => by
      have hdelim : Delimited (printElems l k [] ++ (l.gap j ++ ']' :: rest)) :=
        delimited_gap hl (by decide)
      have hx := hread x List.mem_cons_self g _ hg hdelim
      have hend : skipWs (printElems l k [] ++ (l.gap j ++ ']' :: rest)) = ']' :: rest :=
        (skipWs_gap (hl.gap j)).trans (skipWs_cons (by decide))
      simp only [parseElems, hx, hend, bind, Option.bind]
  | y :: xs, x, g, fuel + 1, hread, hg, hfuel => by
      have ih := parseElems_print hl value k j rest xs y (l.gap k) fuel
        (fun z hz => hread z (List.mem_cons_of_mem _ hz)) (hl.gap k) (by simpa using hfuel)
      have htail : printElems l k (y :: xs) ++ (l.gap j ++ ']' :: rest) =
          ',' :: (l.gap k ++ (print l k y ++ (printElems l k xs ++ (l.gap j ++ ']' :: rest)))) := by
        simp only [printElems, List.cons_append, List.append_assoc]
      have hx := hread x List.mem_cons_self g _ hg
        (htail ▸ delimited_cons (by decide))
      rw [htail] at hx ⊢
      simp only [parseElems, hx, skipWs_cons (show isWs ',' = false by decide), bind, Option.bind, ih]

theorem length_le_printFields (k : Nat) (fs : List (List Char × Value)) :
    fs.length ≤ (printFields l k fs).length := by
  induction fs with
  | nil => exact Nat.le_refl _
  | cons f fs ih =>
      obtain ⟨n, x⟩ := f
      simp only [printFields, List.length_cons, List.length_append]
      omega

/-- The name and the value of one field, and what follows it. -/
theorem parseField_print (hl : l.Blank) {value : List Char → Option (Value × List Char)} {k : Nat}
    {n : List Char} {x : Value} {rest : List Char} (hread : Reads value l k x)
    (hdelim : Delimited rest) :
    ∃ r, parseStr ((n.flatMap escape ++ '"' :: ':' :: (l.colon ++ (print l k x ++ rest))).length + 1)
        (n.flatMap escape ++ '"' :: ':' :: (l.colon ++ (print l k x ++ rest))) = some (n, ':' :: r) ∧
      value r = some (x, rest) := by
  refine ⟨_, parseStr_print _ _ _ ?_, hread l.colon rest hl.colon hdelim⟩
  have := length_le_flatMap_escape n
  simp only [List.length_append]
  omega

/-- **The fields of an object are read back.** -/
theorem parseFields_print (hl : l.Blank) (value : List Char → Option (Value × List Char)) (k j : Nat)
    (rest : List Char) : ∀ (fs : List (List Char × Value)) (n : List Char) (x : Value)
      (g : List Char) (fuel : Nat), (∀ f ∈ (n, x) :: fs, Reads value l k f.2) →
      (∀ c ∈ g, isWs c = true) → fs.length < fuel →
      parseFields value fuel (g ++ ('"' :: (n.flatMap escape ++ '"' :: ':' :: (l.colon ++
        (print l k x ++ (printFields l k fs ++ (l.gap j ++ '\x7d' :: rest))))))) =
          some ((n, x) :: fs, rest)
  | [], n, x, g, fuel + 1, hread, hg, _ => by
      have hdelim : Delimited (printFields l k [] ++ (l.gap j ++ '\x7d' :: rest)) :=
        delimited_gap hl (by decide)
      obtain ⟨r, hname, hvalue⟩ :=
        parseField_print hl (n := n) (hread (n, x) List.mem_cons_self) hdelim
      have hend : skipWs (printFields l k [] ++ (l.gap j ++ '\x7d' :: rest)) = '\x7d' :: rest :=
        (skipWs_gap (hl.gap j)).trans (skipWs_cons (by decide))
      simp only [parseFields, skipWs_gap hg, skipWs_cons (show isWs '"' = false by decide), hname,
        skipWs_cons (show isWs ':' = false by decide), hvalue, hend, bind, Option.bind]
  | (m, y) :: fs, n, x, g, fuel + 1, hread, hg, hfuel => by
      have ih := parseFields_print hl value k j rest fs m y (l.gap k) fuel
        (fun f hf => hread f (List.mem_cons_of_mem _ hf)) (hl.gap k) (by simpa using hfuel)
      have htail : printFields l k ((m, y) :: fs) ++ (l.gap j ++ '\x7d' :: rest) =
          ',' :: (l.gap k ++ ('"' :: (m.flatMap escape ++ '"' :: ':' :: (l.colon ++
            (print l k y ++ (printFields l k fs ++ (l.gap j ++ '\x7d' :: rest))))))) := by
        simp only [printFields, printStr, List.cons_append, List.append_assoc, List.nil_append]
      have hdelim : Delimited (printFields l k ((m, y) :: fs) ++ (l.gap j ++ '\x7d' :: rest)) :=
        htail ▸ delimited_cons (by decide)
      obtain ⟨r, hname, hvalue⟩ :=
        parseField_print hl (n := n) (hread (n, x) List.mem_cons_self) hdelim
      have hend : skipWs (printFields l k ((m, y) :: fs) ++ (l.gap j ++ '\x7d' :: rest)) = _ :=
        (congrArg skipWs htail).trans (skipWs_cons (by decide))
      simp only [parseFields, skipWs_gap hg, skipWs_cons (show isWs '"' = false by decide), hname,
        skipWs_cons (show isWs ':' = false by decide), hvalue, hend, bind, Option.bind, ih]

/-- **A sound value is read back from its text**, and what follows it is left. -/
theorem parseValue_print (hl : l.Blank) {d : Nat} {v : Value} (h : Sound d v) :
    ∀ k, Reads (parseValue d) l k v := by
  have hwith : ∀ d, ∃ arr obj, parseValue d = parseWith arr obj := by
    intro d
    cases d <;> exact ⟨_, _, rfl⟩
  induction h with
  | @null d =>
      intro k g rest hg _
      obtain ⟨arr, obj, hd⟩ := hwith d
      rw [parseValue_gap hg, hd]
      rfl
  | @bool d b =>
      intro k g rest hg _
      obtain ⟨arr, obj, hd⟩ := hwith d
      rw [parseValue_gap hg, hd]
      cases b <;> rfl
  | @int d n hn =>
      intro k g rest hg hdelim
      obtain ⟨arr, obj, hd⟩ := hwith d
      obtain ⟨c, t, heq, hc⟩ := printInt_head n
      obtain ⟨hws, hquote, harr, hobj, -, hn', ht, hf⟩ := digit_ne hc
      have hnum := parseNum_print hn hdelim
      rw [parseValue_gap hg, hd, print]
      rw [heq] at hnum ⊢
      rw [List.cons_append] at hnum ⊢
      simp only [parseWith, skipWs_cons hws, if_neg hquote, if_neg harr, if_neg hobj, if_neg hn',
        if_neg ht, if_neg hf, hnum]
  | @str d s =>
      intro k g rest hg _
      obtain ⟨arr, obj, hd⟩ := hwith d
      have hlen := length_le_flatMap_escape s
      have hstr := parseStr_print rest s ((s.flatMap escape ++ '"' :: rest).length + 1)
        (by simp only [List.length_append]; omega)
      have htext : print l k (.str s) ++ rest = '"' :: (s.flatMap escape ++ '"' :: rest) := by
        simp only [print, printStr, List.cons_append, List.append_assoc, List.nil_append]
      rw [parseValue_gap hg, hd, htext]
      simp only [parseWith, skipWs_cons (show isWs '"' = false by decide), if_true, hstr,
        Option.map_some]
  | @arr d xs hxs ih =>
      intro k g rest hg _
      cases xs with
      | nil =>
          rw [parseValue_gap hg]
          rfl
      | cons x xs =>
          have htext : print l k (.arr (x :: xs)) ++ rest =
              '[' :: (l.gap (k + 1) ++ (print l (k + 1) x ++ (printElems l (k + 1) xs ++
                (l.gap k ++ ']' :: rest)))) := by
            simp only [print, List.cons_append, List.append_assoc, List.nil_append]
          obtain ⟨c, t, hhead, hws, hend⟩ := print_head (hxs x List.mem_cons_self) l (k + 1)
          have hskip : skipWs (l.gap (k + 1) ++ (print l (k + 1) x ++ (printElems l (k + 1) xs ++
              (l.gap k ++ ']' :: rest)))) = print l (k + 1) x ++ (printElems l (k + 1) xs ++
                (l.gap k ++ ']' :: rest)) := by
            rw [skipWs_gap (hl.gap _), hhead]
            exact skipWs_cons hws
          have hlen := length_le_printElems (l := l) (k + 1) xs
          have helems := parseElems_print hl (parseValue d) (k + 1) k rest xs x [] _
            (fun y hy => ih y hy (k + 1)) (by simp)
            (show xs.length < (print l (k + 1) x ++ (printElems l (k + 1) xs ++
              (l.gap k ++ ']' :: rest))).length + 1 by simp only [List.length_append]; omega)
          rw [List.nil_append] at helems
          rw [parseValue_gap hg, htext]
          show parseArr (parseValue d) _ = _
          unfold parseArr
          rw [hskip]
          split
          next heq =>
            rw [hhead] at heq
            exact absurd (List.cons.inj heq).1 hend
          next => rw [helems, Option.map_some]
  | @obj d fs hfs ih =>
      intro k g rest hg _
      cases fs with
      | nil =>
          rw [parseValue_gap hg]
          rfl
      | cons f fs =>
          obtain ⟨n, x⟩ := f
          have htext : print l k (.obj ((n, x) :: fs)) ++ rest =
              '\x7b' :: (l.gap (k + 1) ++ ('"' :: (n.flatMap escape ++ '"' :: ':' :: (l.colon ++
                (print l (k + 1) x ++ (printFields l (k + 1) fs ++ (l.gap k ++ '\x7d' :: rest))))))) := by
            simp only [print, printStr, List.cons_append, List.append_assoc, List.nil_append]
          have hskip : ∀ t, skipWs (l.gap (k + 1) ++ ('"' :: t)) = '"' :: t := fun t =>
            (skipWs_gap (hl.gap _)).trans (skipWs_cons (by decide))
          have hlen := length_le_printFields (l := l) (k + 1) fs
          have hfields := parseFields_print hl (parseValue d) (k + 1) k rest fs n x [] _
            (fun f hf => ih f hf (k + 1)) (by simp)
            (show fs.length < ('"' :: (n.flatMap escape ++ '"' :: ':' :: (l.colon ++
              (print l (k + 1) x ++ (printFields l (k + 1) fs ++
                (l.gap k ++ '\x7d' :: rest)))))).length + 1 by
              simp only [List.length_append, List.length_cons]; omega)
          rw [List.nil_append] at hfields
          rw [parseValue_gap hg, htext]
          show parseObj (parseValue d) _ = _
          unfold parseObj
          rw [hskip]
          show Option.map _ _ = _
          rw [hfields, Option.map_some]

/-- **Round trip**: a sound value is read back from its text. -/
theorem parse_print (hl : l.Blank) {v : Value} (h : Sound maxDepth v) (k : Nat) :
    parse (print l k v) = some v := by
  have hread := parseValue_print hl h k [] [] (by simp) (by intro c hc; cases hc)
  rw [List.append_nil, List.nil_append] at hread
  simp only [parse, hread]
  rfl

end Print

end Json
