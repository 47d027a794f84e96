/-
# The parsers of the settings

Each value of the settings form goes through the parser of its kind, which is the only
way to it from outside.

* `bodySizeParse_ok` — a size is kept as it was typed.
* `gzipTypesParse_directive` — a list of types is stored joined by blanks, and read back as
  the list it was.
* `uncheckedDefaults_stable` — the defaults pass their own parsers.
-/

import OpenVHost.Conf.Render
import OpenVHost.Text.Words
import Mathlib.Algebra.GroupWithZero.Nat

namespace OpenVHost.Conf

open Text

def errorValueMaxChars : Nat := 64

def truncateEcho (value : List Char) : List Char :=
  if errorValueMaxChars < value.length then value.take errorValueMaxChars ++ ['…'] else value

def invalid (field : String) (value : List Char) (reason : String) : ConfError :=
  .invalidField field (truncateEcho value) reason

/-- The error again, under the name of the field that was parsed. -/
def ConfError.withField (field : String) : ConfError → ConfError
  | .invalidField _ value reason => .invalidField field value reason
  | e => e

def WorkerConnections.parse (v : Nat) : Except ConfError WorkerConnections :=
  if h : 1 ≤ v ∧ v ≤ 65535 then .ok ⟨v, h⟩
  else .error (invalid "worker_connections" (decimal v) "must be between 1 and 65535")

def Seconds.parse (v : Nat) : Except ConfError Seconds :=
  if h : 1 ≤ v ∧ v ≤ 86400 then .ok ⟨v, h⟩
  else .error (invalid "seconds" (decimal v) "must be between 1 and 86400")

def GzipLevel.parse (v : Nat) : Except ConfError GzipLevel :=
  if h : 1 ≤ v ∧ v ≤ 9 then .ok ⟨v, h⟩
  else .error (invalid "gzip_comp_level" (decimal v) "must be between 1 and 9")

theorem workerConnectionsParse_get (w : WorkerConnections) : WorkerConnections.parse w.get = .ok w :=
  dif_pos w.bounds

theorem secondsParse_get (s : Seconds) : Seconds.parse s.get = .ok s := dif_pos s.bounds

theorem gzipLevelParse_get (l : GzipLevel) : GzipLevel.parse l.get = .ok l := dif_pos l.bounds

theorem workerConnectionsParse_ok {v : Nat} {w : WorkerConnections} (h : WorkerConnections.parse v = .ok w) :
    w.get = v := by
  unfold WorkerConnections.parse at h
  split at h <;> cases h
  rfl

theorem secondsParse_ok {v : Nat} {s : Seconds} (h : Seconds.parse v = .ok s) : s.get = v := by
  unfold Seconds.parse at h
  split at h <;> cases h
  rfl

theorem gzipLevelParse_ok {v : Nat} {l : GzipLevel} (h : GzipLevel.parse v = .ok l) : l.get = v := by
  unfold GzipLevel.parse at h
  split at h <;> cases h
  rfl

/-! ### Sizes -/

def isAsciiUppercase (c : Char) : Bool := 'A'.toNat ≤ c.toNat && c.toNat ≤ 'Z'.toNat

def isAsciiAlphabetic (c : Char) : Bool := isAsciiLowercase c || isAsciiUppercase c

def bodySizeMaxLen : Nat := 20

/-- The value of a run of digits. -/
def digitsValue (digits : List Char) : Nat := digits.foldl (fun n c => 10 * n + (c.toNat - '0'.toNat)) 0

/-- What a size ends in, as a number of bytes. -/
def sizeUnit : Option Char → Option Nat
  | some 'k' | some 'K' => some 1024
  | some 'm' | some 'M' => some (1024 * 1024)
  | some 'g' | some 'G' => some (1024 * 1024 * 1024)
  | some c => if isAsciiAlphabetic c then none else some 1
  | none => some 1

/-- The size without the letter it may end in. -/
def sizeDigits (s : List Char) : List Char := if s.getLast?.any isAsciiAlphabetic then s.dropLast else s

def bodySizeParse (s : List Char) : Except ConfError (List Char) :=
  if bodySizeMaxLen < utf8Len s then
    .error (invalid "client_max_body_size" s
      "too long: at most 20 characters (nginx's largest accepted size is 19 digits)")
  else
    let digits := sizeDigits s
    let digitsOk := !digits.isEmpty && digits.all isAsciiDigit
    match (sizeUnit s.getLast?).filter fun _ => digitsOk with
    | none => .error (invalid "client_max_body_size" s "must match ^\\d+[kKmMgG]?$")
    | some unit =>
        -- the number, and its product with the unit, are of 64 bits
        if digitsValue digits < 2 ^ 64 ∧ digitsValue digits * unit < 2 ^ 64 ∧
            digitsValue digits * unit ≤ 2 ^ 63 - 1 then
          .ok s
        else
          .error (invalid "client_max_body_size" s
            "larger than nginx accepts: the size in bytes must fit in a signed 64-bit offset (at most 9223372036854775807, 8589934591g, 8796093022207m or 9007199254740991k)")

theorem bodySizeParse_ok {s t : List Char} (h : bodySizeParse s = .ok t) : t = s := by
  unfold bodySizeParse at h
  split at h
  · cases h
  · simp only at h
    split at h
    · cases h
    · split at h <;> cases h
      rfl

/-! ### Types -/

/-- A character of Unicode's `White_Space`. -/
def isWhitespace (c : Char) : Bool :=
  let n := c.toNat
  (9 ≤ n && n ≤ 13) || n == 0x20 || n == 0x85 || n == 0xA0 || n == 0x1680 ||
    (0x2000 ≤ n && n ≤ 0x200A) || n == 0x2028 || n == 0x2029 || n == 0x202F || n == 0x205F || n == 0x3000

def toAsciiLowercase (s : List Char) : List Char :=
  s.map fun c => if isAsciiUppercase c then Char.ofNat (c.toNat + 32) else c

def gzipTypeTokenMaxLen : Nat := 46

def gzipTypesMaxTokens : Nat := 64

def isTokenChars : List Char → Bool
  | [] => false
  | first :: rest =>
      (isAsciiLowercase first || isAsciiDigit first) &&
        rest.all fun c => isAsciiLowercase c || isAsciiDigit c || c == '-' || c == '.' || c == '+'

/-- `type/subtype`, cut at the first slash. -/
def isMimeShaped (token : List Char) : Bool :=
  '/' ∈ token && isTokenChars (token.takeWhile (· != '/')) &&
    isTokenChars ((token.dropWhile (· != '/')).drop 1)

/-- The loop over the words of `s`; `count` of them are behind it. -/
def parseTypes (s : List Char) (count : Nat) : List (List Char) → Except ConfError (List (List Char))
  | [] => .ok []
  | token :: rest =>
      if gzipTypesMaxTokens ≤ count then .error (invalid "gzip_types" s "at most 64 types are allowed")
      else if gzipTypeTokenMaxLen < utf8Len token then
        .error (invalid "gzip_types" token
          "this type is longer than nginx can compress: nginx hashes the gzip type list into a fixed 64-byte bucket, which fits at most 46 bytes per type, and refuses to start with the whole configuration rejected above that. The bucket is not configurable — types_hash_bucket_size applies to a different hash. Remove this type")
      else if !isMimeShaped (toAsciiLowercase token) then
        .error (invalid "gzip_types" token
          "each token must look like a MIME type (type/subtype), using only a-z, 0-9, '.', '+', '-'")
      else do
        let types ← parseTypes s (count + 1) rest
        pure (toAsciiLowercase token :: types)

def gzipTypesParse (s : List Char) : Except ConfError (List (List Char)) :=
  parseTypes s 0 (words isWhitespace s)

/-- What a stored type is. -/
structure GzipType (t : List Char) : Prop where
  shaped : isMimeShaped t = true
  length : utf8Len t ≤ gzipTypeTokenMaxLen

/-- What a stored list is. -/
structure GzipTypes (types : List (List Char)) : Prop where
  each : ∀ t ∈ types, GzipType t
  length : types.length ≤ gzipTypesMaxTokens

theorem gzipTypes_uncheckedDefaults : GzipTypes uncheckedDefaults.gzipTypes := by
  refine ⟨fun t ht => ?_, by decide⟩
  simp only [uncheckedDefaults, List.map_cons, List.map_nil, List.mem_cons, List.not_mem_nil,
    or_false] at ht
  rcases ht with rfl | rfl | rfl | rfl | rfl | rfl | rfl <;> exact ⟨by decide, by decide⟩

section Types

variable {s t : List Char} {types tokens : List (List Char)} {count : Nat} {c : Char}

/-- The characters of a type, and what is true of each of them. -/
def mimeChar (c : Char) : Bool :=
  isAsciiLowercase c || isAsciiDigit c || c == '-' || c == '.' || c == '+' || c == '/'

theorem mimeChar_of_isTokenChars (h : isTokenChars s = true) : ∀ c ∈ s, mimeChar c = true := by
  cases s with
  | nil => cases h
  | cons first rest =>
      simp only [isTokenChars, Bool.and_eq_true, List.all_eq_true] at h
      intro c hc
      rcases List.mem_cons.mp hc with rfl | hc
      · rw [mimeChar, h.1]
        rfl
      · rw [mimeChar, h.2 c hc]
        rfl

theorem mimeChar_of_shaped (h : isMimeShaped t = true) : ∀ c ∈ t, mimeChar c = true := by
  simp only [isMimeShaped, Bool.and_eq_true, decide_eq_true_eq] at h
  obtain ⟨⟨hslash, htype⟩, hsubtype⟩ := h
  intro c hc
  rw [← List.takeWhile_append_dropWhile (p := (· != '/')) (l := t), List.mem_append] at hc
  rcases hc with hc | hc
  · exact mimeChar_of_isTokenChars htype c hc
  · cases hdrop : t.dropWhile (· != '/') with
    | nil => simp [hdrop] at hc
    | cons d rest =>
        have hd : d = '/' := by
          have := List.head?_dropWhile_not (· != '/') t
          rw [hdrop] at this
          simpa using this
        rw [hdrop] at hc hsubtype
        rcases List.mem_cons.mp hc with rfl | hc
        · rw [hd]
          rfl
        · exact mimeChar_of_isTokenChars hsubtype c hc

theorem mimeChar_plain (h : mimeChar c = true) : isAsciiUppercase c = false ∧ isWhitespace c = false := by
  have hascii : ∀ n < 128, mimeChar (Char.ofNat n) = true →
      isAsciiUppercase (Char.ofNat n) = false ∧ isWhitespace (Char.ofNat n) = false := by decide
  have hlt : c.toNat < 128 := by
    simp only [mimeChar, isAsciiLowercase, isAsciiDigit, Bool.or_eq_true, Bool.and_eq_true,
      decide_eq_true_eq, beq_iff_eq] at h
    rcases h with ((((⟨-, h⟩ | ⟨-, h⟩) | rfl) | rfl) | rfl) | rfl
    · exact Nat.lt_of_le_of_lt h (by decide)
    · exact Nat.lt_of_le_of_lt h (by decide)
    all_goals decide
  have hc := hascii c.toNat hlt
  rw [Char.ofNat_toNat] at hc
  exact hc h

theorem toAsciiLowercase_shaped (h : isMimeShaped t = true) : toAsciiLowercase t = t := by
  rw [toAsciiLowercase]
  conv => rhs; rw [← List.map_id t]
  apply List.map_congr_left
  intro c hc
  rw [if_neg (by simp [(mimeChar_plain (mimeChar_of_shaped h c hc)).1]), id]

theorem word_of_shaped (h : isMimeShaped t = true) : Word isWhitespace t := by
  constructor
  · rintro rfl
    cases h
  · exact fun c hc => (mimeChar_plain (mimeChar_of_shaped h c hc)).2

theorem utf8Len_toAsciiLowercase (s : List Char) : utf8Len (toAsciiLowercase s) = utf8Len s := by
  have hsize : ∀ n < 91, 65 ≤ n → (Char.ofNat (n + 32)).utf8Size = (Char.ofNat n).utf8Size := by decide
  induction s with
  | nil => rfl
  | cons c s ih =>
      rw [toAsciiLowercase, List.map_cons, utf8Len_cons, utf8Len_cons]
      rw [toAsciiLowercase] at ih
      rw [ih]
      congr 1
      split
      case isTrue hup =>
        simp only [isAsciiUppercase, Bool.and_eq_true, decide_eq_true_eq] at hup
        have hc := hsize c.toNat (Nat.lt_succ_of_le hup.2) hup.1
        rwa [Char.ofNat_toNat] at hc
      case isFalse => rfl

/-- **The loop accepts** what is within the bound, and types only. -/
theorem parseTypes_iff : parseTypes s count tokens = .ok types ↔
    (tokens = [] ∨ count + tokens.length ≤ gzipTypesMaxTokens) ∧
      (∀ t ∈ tokens, GzipType (toAsciiLowercase t)) ∧ types = tokens.map toAsciiLowercase := by
  induction tokens generalizing count types with
  | nil =>
      rw [parseTypes, Except.ok.injEq]
      exact ⟨fun h => ⟨.inl rfl, nofun, h.symm⟩, fun h => h.2.2.symm⟩
  | cons token rest ih =>
      unfold parseTypes
      constructor
      · intro h
        split_ifs at h with hcount hlen hshaped
        obtain ⟨types', hrest, h⟩ := FileTree.bind_eq_ok.mp h
        cases h
        obtain ⟨hbound, heach, rfl⟩ := ih.mp hrest
        refine ⟨.inr ?_, ?_, rfl⟩
        · rcases hbound with rfl | hbound
          · simp only [List.length_cons, List.length_nil]
            omega
          · simp only [List.length_cons]
            omega
        · intro t ht
          rcases List.mem_cons.mp ht with rfl | ht
          · refine ⟨by simpa using hshaped, ?_⟩
            rw [utf8Len_toAsciiLowercase]
            exact Nat.le_of_not_lt hlen
          · exact heach t ht
      · rintro ⟨hbound, heach, rfl⟩
        have hbound := hbound.resolve_left (List.cons_ne_nil _ _)
        obtain ⟨hshaped, hlen⟩ := heach token List.mem_cons_self
        rw [utf8Len_toAsciiLowercase] at hlen
        rw [List.length_cons] at hbound
        have hrest : parseTypes s (count + 1) rest = .ok (rest.map toAsciiLowercase) :=
          ih.mpr ⟨.inr (by omega), fun t ht => heach t (List.mem_cons_of_mem _ ht), rfl⟩
        have hcount : ¬ gzipTypesMaxTokens ≤ count := by omega
        rw [if_neg hcount, if_neg (Nat.not_lt.mpr hlen), if_neg (by simp [hshaped]), hrest]
        rfl

/-- **The texts that are accepted**, and the list each of them stands for. -/
theorem gzipTypesParse_iff : gzipTypesParse s = .ok types ↔
    (words isWhitespace s).length ≤ gzipTypesMaxTokens ∧
      (∀ t ∈ words isWhitespace s, GzipType (toAsciiLowercase t)) ∧
        types = (words isWhitespace s).map toAsciiLowercase := by
  rw [gzipTypesParse, parseTypes_iff, Nat.zero_add]
  refine and_congr_left fun _ => ⟨?_, .inr⟩
  rintro (h | h)
  · rw [h]
    exact Nat.zero_le _
  · exact h

theorem gzipTypesParse_sound (h : gzipTypesParse s = .ok types) : GzipTypes types := by
  obtain ⟨hlength, heach, rfl⟩ := gzipTypesParse_iff.mp h
  refine ⟨fun t ht => ?_, by rwa [List.length_map]⟩
  obtain ⟨w, hw, rfl⟩ := List.mem_map.mp ht
  exact heach w hw

/-- **A list of types is read back as the list it was.** -/
theorem gzipTypesParse_directive (h : GzipTypes types) : gzipTypesParse (asDirective types) = .ok types := by
  have hwords : words isWhitespace (asDirective types) = types :=
    words_intercalate rfl fun t ht => word_of_shaped (h.each t ht).shaped
  have hlower : types.map toAsciiLowercase = types :=
    (List.map_congr_left fun t ht => toAsciiLowercase_shaped (h.each t ht).shaped).trans
      (List.map_id types)
  rw [gzipTypesParse_iff, hwords]
  refine ⟨h.length, fun t ht => ?_, hlower.symm⟩
  rw [toAsciiLowercase_shaped (h.each t ht).shaped]
  exact h.each t ht

end Types

end OpenVHost.Conf
