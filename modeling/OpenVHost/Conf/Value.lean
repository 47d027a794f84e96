/-
# What the parsers of the settings accept

Both grammars as a reader would state them, next to the functions that look at the bytes of
what was typed.

* `BodySize.digits` — the slice in front of the unit, which is never out of place.
* `BodySize.Accepted` — a size: digits and a unit, within 20 bytes and within 2^63 - 1.
* `GzipList` — a list of types, within its bounds.
* `settings_values_exact` — these texts are accepted and no others, and a list of types is read
  back from its directive.
-/

import OpenVHost.Conf.SettingsParse
import OpenVHost.Text.Ascii

namespace OpenVHost.Conf

open Text

/-! ### Sizes -/

namespace BodySize

/-- A byte as the character of its number. -/
def latin (b : UInt8) : Char := Char.ofNat b.toNat

/-- `&s[..s.len() - 1]` where the last byte is a letter, and `s` elsewhere; `none` where the slice
is out of place. -/
def digits (s : List Char) : Option (List Char) :=
  if (utf8 s).getLast?.any fun b => isAsciiAlphabetic (latin b) then sliceTo s (utf8Len s - 1)
  else some s

/-- What the last byte stands for. -/
def unit (s : List Char) : Option Nat := sizeUnit ((utf8 s).getLast?.map latin)

/-- `digits.bytes().all(|b| b.is_ascii_digit())` -/
def allDigits (digits : List Char) : Bool := (utf8 digits).all fun b => isAsciiDigit (latin b)

/-- What a size ends in, and how many bytes it stands for. -/
inductive UnitText : List Char → Nat → Prop where
  | byte : UnitText [] 1
  | kilo {c : Char} (h : c = 'k' ∨ c = 'K') : UnitText [c] (2 ^ 10)
  | mega {c : Char} (h : c = 'm' ∨ c = 'M') : UnitText [c] (2 ^ 20)
  | giga {c : Char} (h : c = 'g' ∨ c = 'G') : UnitText [c] (2 ^ 30)

/-- A size that is accepted. -/
structure Accepted (s : List Char) : Prop where
  length : utf8Len s ≤ 20
  shape : ∃ digits unit factor, s = digits ++ unit ∧ digits ≠ [] ∧
    (∀ c ∈ digits, isAsciiDigit c = true) ∧ UnitText unit factor ∧
      digitsValue digits * factor ≤ 2 ^ 63 - 1

end BodySize

section Sizes

variable {s digits unit : List Char} {c : Char} {factor : Nat}

theorem isAsciiAlphabetic_lt (h : isAsciiAlphabetic c = true) : c.toNat < 128 := by
  simp only [isAsciiAlphabetic, isAsciiLowercase, isAsciiUppercase, Bool.or_eq_true,
    Bool.and_eq_true, decide_eq_true_eq] at h
  rcases h with ⟨-, h⟩ | ⟨-, h⟩ <;> exact Nat.lt_of_le_of_lt h (by decide)

theorem isAsciiDigit_lt (h : isAsciiDigit c = true) : c.toNat < 128 := by
  simp only [isAsciiDigit, Bool.and_eq_true, decide_eq_true_eq] at h
  exact Nat.lt_of_le_of_lt h.2 (by decide)

/-- A test of characters, as one of the bytes that stand for them. -/
theorem latin_of_toNat {b : UInt8} (h : b.toNat = c.toNat) : BodySize.latin b = c := by
  rw [BodySize.latin, h, Char.ofNat_toNat]

theorem toNat_latin {b : UInt8} : (BodySize.latin b).toNat = b.toNat := by
  have hvalid : b.toNat.isValidChar := .inl (Nat.lt_trans b.toNat_lt (by decide))
  rw [BodySize.latin, Char.ofNat, dif_pos hvalid]
  rfl

/-- **The slice in front of the unit is never out of place.** -/
theorem bodySize_digits (s : List Char) : BodySize.digits s = some (sizeDigits s) := by
  have h := utf8_getLast s
  unfold BodySize.digits sizeDigits
  cases hc : s.getLast? with
  | none =>
      rw [hc] at h
      rw [show (utf8 s).getLast? = none from h]
      rfl
  | some c =>
      rw [hc] at h
      obtain ⟨b, hb, ⟨hlow, hbc⟩ | ⟨hhigh, hb'⟩⟩ := h
      · rw [hb, Option.any_some, Option.any_some, latin_of_toNat hbc]
        split_ifs
        · exact sliceTo_dropLast hc hlow
        · rfl
      · have hnot : ∀ {d : Char}, 128 ≤ d.toNat → ¬ isAsciiAlphabetic d = true := by
          intro d hd hletter
          exact absurd (isAsciiAlphabetic_lt hletter) (Nat.not_lt.mpr hd)
        rw [hb, Option.any_some, Option.any_some, if_neg (hnot (toNat_latin.symm ▸ hb')),
          if_neg (hnot hhigh)]

theorem sizeUnit_of_letter (h : isAsciiAlphabetic c = false) : sizeUnit (some c) = some 1 := by
  unfold sizeUnit
  split
  all_goals simp_all [isAsciiAlphabetic, isAsciiLowercase, isAsciiUppercase]

theorem letter_of_digit (h : isAsciiDigit c = true) : isAsciiAlphabetic c = false := by
  simp only [isAsciiDigit, Bool.and_eq_true, decide_eq_true_eq] at h
  have hnine : '9'.toNat < 'A'.toNat := by decide
  have hcase : 'A'.toNat ≤ 'a'.toNat := by decide
  simp only [isAsciiAlphabetic, isAsciiLowercase, isAsciiUppercase, Bool.or_eq_false_iff,
    Bool.and_eq_false_iff, decide_eq_false_iff_not]
  omega

/-- The unit is read off the last byte as off the last character. -/
theorem bodySize_unit (s : List Char) : BodySize.unit s = sizeUnit s.getLast? := by
  have h := utf8_getLast s
  unfold BodySize.unit
  cases hc : s.getLast? with
  | none =>
      rw [hc] at h
      rw [show (utf8 s).getLast? = none from h]
      rfl
  | some c =>
      rw [hc] at h
      obtain ⟨b, hb, ⟨-, hbc⟩ | ⟨hhigh, hb'⟩⟩ := h
      · rw [hb, Option.map_some, latin_of_toNat hbc]
      · have hnot : ∀ {d : Char}, 128 ≤ d.toNat → isAsciiAlphabetic d = false := by
          intro d hd
          rw [Bool.eq_false_iff]
          intro hletter
          exact absurd (isAsciiAlphabetic_lt hletter) (Nat.not_lt.mpr hd)
        rw [hb, Option.map_some, sizeUnit_of_letter (hnot (toNat_latin.symm ▸ hb')),
          sizeUnit_of_letter (hnot hhigh)]

/-- A test that only ASCII passes, on all bytes of a text. -/
theorem all_latin {p : Char → Bool} (hp : ∀ c, p c = true → c.toNat < 128) (s : List Char) :
    (utf8 s).all (fun b => p (BodySize.latin b)) = s.all p := by
  have hnumber : ∀ n, 128 ≤ n → (p (Char.ofNat n) && decide (n < 128)) = false := by
    intro n hn
    rw [decide_eq_false (Nat.not_lt.mpr hn), Bool.and_false]
  have hbyte : ∀ b : UInt8, (p (Char.ofNat b.toNat) && decide (b.toNat < 128)) =
      p (BodySize.latin b) := by
    intro b
    cases hb : p (BodySize.latin b) with
    | false =>
        rw [BodySize.latin] at hb
        rw [hb, Bool.false_and]
    | true =>
        have hlow := toNat_latin ▸ hp _ hb
        rw [BodySize.latin] at hb
        rw [hb, decide_eq_true hlow, Bool.true_and]
  have hchar : ∀ c : Char, (p (Char.ofNat c.toNat) && decide (c.toNat < 128)) = p c := by
    intro c
    rw [Char.ofNat_toNat]
    cases hc : p c with
    | false => rfl
    | true => rw [decide_eq_true (hp c hc), Bool.true_and]
  have h := utf8_all hnumber s
  simp only [hbyte, hchar] at h
  exact h

theorem bodySize_allDigits (s : List Char) : BodySize.allDigits s = s.all isAsciiDigit :=
  all_latin (fun _ => isAsciiDigit_lt) s

/-! ### The sizes that are accepted -/

namespace BodySize

/-- The unit of a letter. -/
theorem UnitText.of_letter (hc : isAsciiAlphabetic c = true)
    (h : sizeUnit (some c) = some factor) : UnitText [c] factor := by
  unfold sizeUnit at h
  split at h
  next hk => cases hk; cases h; exact .kilo (.inl rfl)
  next hk => cases hk; cases h; exact .kilo (.inr rfl)
  next hk => cases hk; cases h; exact .mega (.inl rfl)
  next hk => cases hk; cases h; exact .mega (.inr rfl)
  next hk => cases hk; cases h; exact .giga (.inl rfl)
  next hk => cases hk; cases h; exact .giga (.inr rfl)
  next hk =>
    cases hk
    rw [if_pos hc] at h
    cases h
  next hk => cases hk

theorem UnitText.pos (h : UnitText unit factor) : 0 < factor := by
  cases h <;> decide

/-- What is read off a text that ends in a unit. -/
theorem UnitText.read (h : UnitText unit factor) (hne : digits ≠ [])
    (hdigits : ∀ c ∈ digits, isAsciiDigit c = true) :
    sizeDigits (digits ++ unit) = digits ∧ sizeUnit (digits ++ unit).getLast? = some factor := by
  cases h with
  | byte =>
      obtain ⟨front, c, rfl⟩ := (List.eq_nil_or_concat' digits).resolve_left hne
      have hletter : isAsciiAlphabetic c = false := letter_of_digit (hdigits c (by simp))
      unfold sizeDigits
      rw [List.append_nil, List.getLast?_concat, Option.any_some, hletter]
      exact ⟨rfl, sizeUnit_of_letter hletter⟩
  | kilo h =>
      unfold sizeDigits
      rw [List.getLast?_concat, Option.any_some, List.dropLast_concat]
      rcases h with rfl | rfl <;> exact ⟨rfl, rfl⟩
  | mega h =>
      unfold sizeDigits
      rw [List.getLast?_concat, Option.any_some, List.dropLast_concat]
      rcases h with rfl | rfl <;> exact ⟨rfl, rfl⟩
  | giga h =>
      unfold sizeDigits
      rw [List.getLast?_concat, Option.any_some, List.dropLast_concat]
      rcases h with rfl | rfl <;> exact ⟨rfl, rfl⟩

/-- A unit that is read off a text is written at its end. -/
theorem shape_of_read (h : sizeUnit s.getLast? = some factor) :
    ∃ unit, s = sizeDigits s ++ unit ∧ UnitText unit factor := by
  unfold sizeDigits
  cases hc : s.getLast? with
  | none =>
      rw [hc] at h
      cases h
      exact ⟨[], (List.append_nil _).symm, .byte⟩
  | some c =>
      rw [hc] at h
      cases hletter : isAsciiAlphabetic c with
      | true =>
          obtain ⟨front, rfl⟩ := List.getLast?_eq_some_iff.mp hc
          refine ⟨[c], ?_, .of_letter hletter h⟩
          rw [Option.any_some, hletter, if_pos rfl, List.dropLast_concat]
      | false =>
          rw [sizeUnit_of_letter hletter] at h
          cases h
          refine ⟨[], ?_, .byte⟩
          rw [Option.any_some, hletter, if_neg Bool.false_ne_true, List.append_nil]

/-- **The sizes that are accepted.** -/
theorem parse_iff : (∃ t, bodySizeParse s = .ok t) ↔ Accepted s := by
  unfold bodySizeParse
  constructor
  · rintro ⟨t, ht⟩
    split_ifs at ht with hlen
    simp only at ht
    split at ht
    next => cases ht
    next unit hunit =>
      split_ifs at ht with hrange
      obtain ⟨hread, hok⟩ := Option.filter_eq_some_iff.mp hunit
      simp only [Bool.and_eq_true, Bool.not_eq_true', List.isEmpty_eq_false_iff,
        List.all_eq_true] at hok
      obtain ⟨text, heq, htext⟩ := shape_of_read hread
      exact ⟨Nat.le_of_not_lt hlen,
        sizeDigits s, text, unit, heq, hok.1, hok.2, htext, hrange.2.2⟩
  · rintro ⟨hlen, digits, unit, factor, rfl, hne, hdigits, hunit, hrange⟩
    obtain ⟨hread, hfactor⟩ := hunit.read hne hdigits
    have hok : (!digits.isEmpty && digits.all isAsciiDigit) = true := by
      rw [Bool.and_eq_true, Bool.not_eq_true', List.isEmpty_eq_false_iff, List.all_eq_true]
      exact ⟨hne, hdigits⟩
    have hpos := hunit.pos
    have hvalue : digitsValue digits ≤ digitsValue digits * factor := Nat.le_mul_of_pos_right _ hpos
    have hbound : ¬ bodySizeMaxLen < utf8Len (digits ++ unit) := Nat.not_lt.mpr hlen
    refine ⟨digits ++ unit, ?_⟩
    rw [if_neg hbound]
    simp only [hread, hfactor, hok, Option.filter_some, if_true]
    exact if_pos ⟨by omega, by omega, hrange⟩

end BodySize

end Sizes

/-! ### Lists of types -/

/-- What follows the first character of a name. -/
def nameChar (c : Char) : Bool :=
  isAsciiLowercase c || isAsciiDigit c || c == '-' || c == '.' || c == '+'

/-- `is_token_chars`, on the bytes of a token. -/
def isTokenBytes : List UInt8 → Bool
  | [] => false
  | first :: rest =>
      (isAsciiLowercase (BodySize.latin first) || isAsciiDigit (BodySize.latin first)) &&
        rest.all fun b => nameChar (BodySize.latin b)

/-- `[a-z0-9]` -/
def LowerOrDigit (c : Char) : Prop := isAsciiLowercase c = true ∨ isAsciiDigit c = true

/-- `[a-z0-9][a-z0-9.+-]*` -/
def MimeName (s : List Char) : Prop :=
  ∃ first rest, s = first :: rest ∧ LowerOrDigit first ∧
    ∀ c ∈ rest, LowerOrDigit c ∨ c ∈ ['.', '+', '-']

/-- `type/subtype` -/
def MimeType (t : List Char) : Prop :=
  ∃ type subtype, t = type ++ '/' :: subtype ∧ MimeName type ∧ MimeName subtype

/-- A list of types that is accepted. -/
structure GzipList (s : List Char) : Prop where
  count : (words isWhitespace s).length ≤ gzipTypesMaxTokens
  each : ∀ w ∈ words isWhitespace s,
    utf8Len w ≤ gzipTypeTokenMaxLen ∧ MimeType (toAsciiLowercase w)

/-- What a directive holds: characters of types, and single blanks between them. -/
structure DirectiveText (d : List Char) : Prop where
  chars : ∀ c ∈ d, LowerOrDigit c ∨ c ∈ ['.', '+', '-', '/', ' ']
  single : ∀ a b, d = a ++ ' ' :: b → a ≠ [] ∧ b ≠ [] ∧ b.head? ≠ some ' '

section Lists

variable {s t : List Char} {types : List (List Char)} {c : Char}

theorem lowerOrDigit_lt (h : (isAsciiLowercase c || isAsciiDigit c) = true) : c.toNat < 128 := by
  rcases Bool.or_eq_true_iff.mp h with h | h
  · exact isAsciiAlphabetic_lt (by rw [isAsciiAlphabetic, h, Bool.true_or])
  · exact isAsciiDigit_lt h

/-- **A token is tested on its bytes** as on its characters. -/
theorem isTokenBytes_utf8 (s : List Char) : isTokenBytes (utf8 s) = isTokenChars s := by
  have hname : ∀ c, nameChar c = true → c.toNat < 128 := by
    intro c hc
    simp only [nameChar, Bool.or_eq_true, beq_iff_eq] at hc
    rcases hc with (((hc | hc) | rfl) | rfl) | rfl
    · exact lowerOrDigit_lt (by rw [hc, Bool.true_or])
    · exact lowerOrDigit_lt (by rw [hc, Bool.or_true])
    all_goals decide
  have hrest : ∀ rest : List Char,
      (utf8 rest).all (fun b => nameChar (BodySize.latin b)) =
        rest.all fun c => isAsciiLowercase c || isAsciiDigit c || c == '-' || c == '.' || c == '+' :=
    fun rest => all_latin hname rest
  cases s with
  | nil => rfl
  | cons c rest =>
      rw [utf8_cons, isTokenChars, ← hrest]
      by_cases hc : c.toNat < 128
      · rw [utf8EncodeChar_ascii hc, List.singleton_append, isTokenBytes]
        have hb : BodySize.latin (UInt8.ofNat c.toNat) = c := by
          refine latin_of_toNat ?_
          rw [UInt8.toNat_ofNat', Nat.mod_eq_of_lt (by omega)]
        rw [hb]
      · have hhigh := high_of_mem_utf8EncodeChar (Nat.le_of_not_lt hc)
        obtain ⟨b, bytes, hb⟩ := List.exists_cons_of_ne_nil (utf8EncodeChar_ne_nil c)
        rw [hb] at hhigh ⊢
        have hnot : ∀ {d : Char}, 128 ≤ d.toNat → (isAsciiLowercase d || isAsciiDigit d) = false := by
          intro d hd
          rw [Bool.eq_false_iff]
          exact fun h => absurd (lowerOrDigit_lt h) (Nat.not_lt.mpr hd)
        rw [List.cons_append, isTokenBytes, hnot (Nat.le_of_not_lt hc),
          hnot (toNat_latin.symm ▸ hhigh b List.mem_cons_self), Bool.false_and, Bool.false_and]

theorem isTokenChars_iff : isTokenChars s = true ↔ MimeName s := by
  cases s with
  | nil => exact ⟨nofun, nofun⟩
  | cons first rest =>
      rw [isTokenChars, Bool.and_eq_true, Bool.or_eq_true, List.all_eq_true]
      constructor
      · rintro ⟨hfirst, hrest⟩
        refine ⟨first, rest, rfl, hfirst, fun c hc => ?_⟩
        have := hrest c hc
        simp only [Bool.or_eq_true, beq_iff_eq] at this
        simp only [LowerOrDigit, List.mem_cons, List.not_mem_nil, or_false]
        tauto
      · rintro ⟨_, _, h, hfirst, hrest⟩
        cases h
        refine ⟨hfirst, fun c hc => ?_⟩
        have := hrest c hc
        simp only [LowerOrDigit, List.mem_cons, List.not_mem_nil, or_false] at this
        simp only [Bool.or_eq_true, beq_iff_eq]
        tauto

theorem MimeName.slash (h : MimeName s) : '/' ∉ s := by
  obtain ⟨first, rest, rfl, hfirst, hrest⟩ := h
  intro hmem
  rcases List.mem_cons.mp hmem with rfl | hmem
  · rcases hfirst with h | h <;> exact absurd h (by decide)
  · rcases hrest _ hmem with (h | h) | h <;> exact absurd h (by decide)

/-- The cut at the first slash. -/
theorem isMimeShaped_iff : isMimeShaped t = true ↔ MimeType t := by
  rw [isMimeShaped, Bool.and_eq_true, Bool.and_eq_true, decide_eq_true_eq, isTokenChars_iff,
    isTokenChars_iff]
  constructor
  · rintro ⟨⟨hslash, htype⟩, hsubtype⟩
    refine ⟨_, _, ?_, htype, hsubtype⟩
    obtain ⟨d, rest, hd⟩ : ∃ d rest, t.dropWhile (· != '/') = d :: rest := by
      refine List.exists_cons_of_ne_nil fun hnil => ?_
      have hall := List.dropWhile_eq_nil_iff.mp hnil '/' hslash
      exact absurd hall (by decide)
    have hdslash : d = '/' := by
      have hhead := List.head?_dropWhile_not (· != '/') t
      rw [hd] at hhead
      simpa using hhead
    subst hdslash
    rw [hd, List.drop_one, List.tail_cons, ← hd, List.takeWhile_append_dropWhile]
  · rintro ⟨type, subtype, rfl, htype, hsubtype⟩
    have hall : ∀ c ∈ type, (c != '/') = true := by
      intro c hc
      rw [bne_iff_ne]
      rintro rfl
      exact htype.slash hc
    have htake : (type ++ '/' :: subtype).takeWhile (· != '/') = type := by
      rw [List.takeWhile_append_of_pos hall, List.takeWhile_cons_of_neg (by decide),
        List.append_nil]
    have hdrop : (type ++ '/' :: subtype).dropWhile (· != '/') = '/' :: subtype := by
      rw [List.dropWhile_append_of_pos hall, List.dropWhile_cons_of_neg (by decide)]
    rw [htake, hdrop]
    exact ⟨⟨List.mem_append_right _ List.mem_cons_self, htype⟩, hsubtype⟩

/-- **The lists that are accepted.** -/
theorem gzipList_iff : (∃ types, gzipTypesParse s = .ok types) ↔ GzipList s := by
  constructor
  · rintro ⟨types, h⟩
    obtain ⟨hcount, heach, -⟩ := gzipTypesParse_iff.mp h
    refine ⟨hcount, fun w hw => ?_⟩
    obtain ⟨hshaped, hlength⟩ := heach w hw
    rw [utf8Len_toAsciiLowercase] at hlength
    exact ⟨hlength, isMimeShaped_iff.mp hshaped⟩
  · rintro ⟨hcount, heach⟩
    refine ⟨_, gzipTypesParse_iff.mpr ⟨hcount, fun w hw => ?_, rfl⟩⟩
    obtain ⟨hlength, htype⟩ := heach w hw
    exact ⟨isMimeShaped_iff.mpr htype, by rwa [utf8Len_toAsciiLowercase]⟩

theorem MimeName.chars (h : MimeName s) : ∀ c ∈ s, LowerOrDigit c ∨ c ∈ ['.', '+', '-'] := by
  obtain ⟨first, rest, rfl, hfirst, hrest⟩ := h
  intro c hc
  rcases List.mem_cons.mp hc with rfl | hc
  · exact .inl hfirst
  · exact hrest c hc

theorem MimeType.chars (h : MimeType t) : ∀ c ∈ t, LowerOrDigit c ∨ c ∈ ['.', '+', '-', '/'] := by
  obtain ⟨type, subtype, rfl, htype, hsubtype⟩ := h
  have hwiden : ∀ {s : List Char}, MimeName s →
      ∀ c ∈ s, LowerOrDigit c ∨ c ∈ ['.', '+', '-', '/'] := by
    intro s hs c hc
    exact (hs.chars c hc).imp_right fun h => List.mem_append_left ['/'] h
  intro c hc
  rcases List.mem_append.mp hc with hc | hc
  · exact hwiden htype c hc
  · rcases List.mem_cons.mp hc with rfl | hc
    · exact .inr (by decide)
    · exact hwiden hsubtype c hc

theorem MimeType.blank (h : MimeType t) : t ≠ [] ∧ ' ' ∉ t := by
  constructor
  · obtain ⟨type, subtype, rfl, -, -⟩ := h
    simp
  · intro hmem
    rcases h.chars _ hmem with (h | h) | h <;> exact absurd h (by decide)

theorem asDirective_cons (t t' : List Char) (types : List (List Char)) :
    asDirective (t :: t' :: types) = t ++ ' ' :: asDirective (t' :: types) := by
  simp [asDirective, List.intercalate]

/-- A directive of types starts with one. -/
theorem asDirective_head (h : ∀ u ∈ t :: types, MimeType u) :
    asDirective (t :: types) ≠ [] ∧ (asDirective (t :: types)).head? ≠ some ' ' := by
  obtain ⟨hne, hblank⟩ := (h t List.mem_cons_self).blank
  have hhead : t.head? ≠ some ' ' := fun h => hblank (List.mem_of_head? h)
  cases types with
  | nil =>
      rw [asDirective, List.intercalate_singleton]
      exact ⟨hne, hhead⟩
  | cons t' types =>
      rw [asDirective_cons]
      refine ⟨by simp, ?_⟩
      rwa [List.head?_append_of_ne_nil _ hne]

theorem asDirective_single (h : ∀ u ∈ types, MimeType u) :
    ∀ a b, asDirective types = a ++ ' ' :: b → a ≠ [] ∧ b ≠ [] ∧ b.head? ≠ some ' ' := by
  induction types with
  | nil =>
      intro a b hab
      simp [asDirective, List.intercalate] at hab
  | cons t types ih =>
      obtain ⟨hne, hblank⟩ := (h t List.mem_cons_self).blank
      intro a b hab
      cases types with
      | nil =>
          rw [asDirective, List.intercalate_singleton] at hab
          exact absurd (hab ▸ List.mem_append_right a List.mem_cons_self) hblank
      | cons t' types =>
          have hrest : ∀ u ∈ t' :: types, MimeType u := fun u hu => h u (List.mem_cons_of_mem _ hu)
          rw [asDirective_cons] at hab
          rcases List.append_eq_append_iff.mp hab with ⟨x, rfl, hx⟩ | ⟨x, ht, hx⟩
          · refine ⟨List.append_ne_nil_of_left_ne_nil hne _, ?_⟩
            cases x with
            | nil =>
                obtain rfl := (List.cons.inj hx).2
                exact asDirective_head hrest
            | cons d x =>
                obtain ⟨-, hbelow⟩ := List.cons.inj hx
                exact (ih hrest x b hbelow).2
          · cases x with
            | nil =>
                obtain rfl := (List.cons.inj hx).2
                rw [List.append_nil] at ht
                exact ⟨ht ▸ hne, asDirective_head hrest⟩
            | cons d x =>
                -- the blank would be one of the first type
                obtain ⟨rfl, -⟩ := List.cons.inj hx
                exact absurd (ht ▸ List.mem_append_right a List.mem_cons_self) hblank

/-- **What a directive holds.** -/
theorem directiveText_of_types (h : GzipTypes types) : DirectiveText (asDirective types) := by
  have htypes : ∀ u ∈ types, MimeType u := fun u hu => isMimeShaped_iff.mp (h.each u hu).shaped
  refine ⟨?_, asDirective_single htypes⟩
  clear h
  induction types with
  | nil => exact fun c hc => absurd hc List.not_mem_nil
  | cons t types ih =>
      have hfirst : ∀ c ∈ t, LowerOrDigit c ∨ c ∈ ['.', '+', '-', '/', ' '] := fun c hc =>
        ((htypes t List.mem_cons_self).chars c hc).imp_right fun h => List.mem_append_left [' '] h
      cases types with
      | nil =>
          rw [asDirective, List.intercalate_singleton]
          exact hfirst
      | cons t' types =>
          rw [asDirective_cons]
          intro c hc
          rcases List.mem_append.mp hc with hc | hc
          · exact hfirst c hc
          · rcases List.mem_cons.mp hc with rfl | hc
            · exact .inr (by decide)
            · exact ih (fun u hu => htypes u (List.mem_cons_of_mem _ hu)) c hc

end Lists

/-- **The values of the settings are exact.** A size is accepted where it is digits and a unit
within the bounds, and no slice of it is out of place; a list of types where each of them is a type
within the bounds, and it is read back from its directive, which is plain text with single
blanks. The parsers look at bytes, and see what is there in characters. -/
theorem settings_values_exact :
    (∀ s : List Char, BodySize.digits s = some (sizeDigits s) ∧
      BodySize.unit s = sizeUnit s.getLast? ∧
      BodySize.allDigits (sizeDigits s) = (sizeDigits s).all isAsciiDigit ∧
      ((∃ t, bodySizeParse s = .ok t) ↔ BodySize.Accepted s)) ∧
    (∀ s : List Char, isTokenBytes (utf8 s) = isTokenChars s ∧
      ((∃ types, gzipTypesParse s = .ok types) ↔ GzipList s)) ∧
    ∀ (s : List Char) (types : List (List Char)), gzipTypesParse s = .ok types →
      gzipTypesParse (asDirective types) = .ok types ∧ DirectiveText (asDirective types) := by
  refine ⟨fun s => ?_, fun s => ⟨isTokenBytes_utf8 s, gzipList_iff⟩, fun s types h => ?_⟩
  · exact ⟨bodySize_digits s, bodySize_unit s, bodySize_allDigits _, BodySize.parse_iff⟩
  · have hsound := gzipTypesParse_sound h
    exact ⟨gzipTypesParse_directive hsound, directiveText_of_types hsound⟩

end OpenVHost.Conf
