/-
# The site model

The newtypes a site is made of. Each holds the text it was parsed from and that
the text passed its parser's check, so that what reaches a generated file or a
path has been checked at the boundary.

* `Domain.label_char` — a domain is dots and label characters.
* `PhpVersion.digits` — a version is two runs of digits around a dot.
-/

import OpenVHost.Conf.Render

namespace OpenVHost.Site

open FileTree Text Conf

/-- The errors of the core crate that a site can meet. -/
inductive CoreError where
  | validation (field reason : String)
  | socketPathTooLong (path : List Char) (len : Nat)
  deriving DecidableEq, Repr

/-- The UUID parser: which texts it accepts. -/
class Uuid where
  parseStr : List Char → Bool

/-- A parser of the hyphenated form only. -/
@[reducible] def hyphenatedUuid : Uuid where
  parseStr s :=
    let hex := fun c => isAsciiDigit c || ('a'.toNat ≤ c.toNat && c.toNat ≤ 'f'.toNat) ||
      ('A'.toNat ≤ c.toNat && c.toNat ≤ 'F'.toNat)
    (s.splitOn '-').map List.length == [8, 4, 4, 4, 12] && (s.filter (· != '-')).all hex

def phpVersionMaxLen : Nat := 8

def docrootMaxLen : Nat := 1023

/-! ### What each parser accepts -/

def validSiteName (s : List Char) : Bool :=
  decide (1 ≤ utf8Len s ∧ utf8Len s ≤ 63) &&
    s.zipIdx.all fun (c, i) =>
      isAsciiLowercase c || isAsciiDigit c || (decide (0 < i) && c == '-')

def labelChar (c : Char) : Bool := isAsciiLowercase c || isAsciiDigit c || c == '-'

def validLabel (label : List Char) : Bool :=
  decide (1 ≤ utf8Len label ∧ utf8Len label ≤ 63) && label.head? != some '-' &&
    label.getLast? != some '-' && label.all labelChar

def validDomain (s : List Char) : Bool :=
  decide (1 ≤ utf8Len s ∧ utf8Len s ≤ 253) && (s.splitOn '.').all validLabel

/-- `major.minor`, split at the first dot. -/
def validMajorMinor (s : List Char) : Bool :=
  let major := s.takeWhile (· != '.')
  match s.dropWhile (· != '.') with
  | [] => false
  | _ :: minor =>
      !major.isEmpty && !minor.isEmpty && major.all isAsciiDigit && minor.all isAsciiDigit

def validPhpVersion (s : List Char) : Bool :=
  decide (utf8Len s ≤ phpVersionMaxLen) && validMajorMinor s

def docrootChar (c : Char) : Bool := !(c == '"' || c == '$' || isAsciiControl c)

def validDocroot (s : List Char) : Bool :=
  decide (utf8Len s ≤ docrootMaxLen) && isAbsolute s && s.all docrootChar

/-! ### The newtypes -/

structure SiteId [Uuid] where
  asStr : List Char
  valid : Uuid.parseStr asStr = true

structure SiteName where
  asStr : List Char
  valid : validSiteName asStr = true

structure Domain where
  asStr : List Char
  valid : validDomain asStr = true

structure PhpVersion where
  asStr : List Char
  valid : validPhpVersion asStr = true

structure Docroot where
  asStr : List Char
  valid : validDocroot asStr = true

def SiteId.parse [Uuid] (s : List Char) : Except CoreError SiteId :=
  if h : Uuid.parseStr s = true then .ok ⟨s, h⟩ else .error (.validation "id" "not a UUID")

def SiteName.parse (s : List Char) : Except CoreError SiteName :=
  if h : validSiteName s = true then .ok ⟨s, h⟩
  else .error (.validation "name" "must be a 1-63 char [a-z0-9-] slug starting alphanumeric")

def Domain.parse (s : List Char) : Except CoreError Domain :=
  if h : validDomain s = true then .ok ⟨s, h⟩
  else .error (.validation "domain" "must be a lowercase dotted hostname (labels [a-z0-9-])")

def PhpVersion.parse (s : List Char) : Except CoreError PhpVersion :=
  if h : validPhpVersion s = true then .ok ⟨s, h⟩
  else if phpVersionMaxLen < utf8Len s then
    .error (.validation "php_version" "must be at most 8 bytes")
  else .error (.validation "php_version" "must be major.minor digits, e.g. 8.3")

def Docroot.parse (s : List Char) : Except CoreError Docroot :=
  if h : validDocroot s = true then .ok ⟨s, h⟩
  else if docrootMaxLen < utf8Len s then
    .error (.validation "docroot" "must be at most 1023 bytes")
  else if !isAbsolute s then .error (.validation "docroot" "must be an absolute path")
  else
    .error (.validation "docroot" "contains a quote, dollar sign, or control character")

inductive WebServer where
  | nginx
  | apache
  deriving DecidableEq, Repr

set_option linter.dupNamespace false in
structure Site [Uuid] where
  id : SiteId
  name : SiteName
  domain : Domain
  docroot : Docroot
  webServer : WebServer
  phpVersion : PhpVersion
  enabled : Bool

/-! ### What the parsers leave out -/

/-- A domain is dots and label characters. -/
theorem Domain.label_char (d : Domain) : ∀ c ∈ d.asStr, c = '.' ∨ labelChar c = true := by
  intro c hc
  by_cases hdot : c = '.'
  · exact .inl hdot
  · have hv := d.valid
    simp only [validDomain, Bool.and_eq_true] at hv
    obtain ⟨label, hl, hcl⟩ := mem_splitOn hdot hc
    have hlabel := List.all_eq_true.mp hv.2 label hl
    simp only [validLabel, Bool.and_eq_true] at hlabel
    exact .inr (List.all_eq_true.mp hlabel.2 c hcl)

theorem Domain.ne_nil (d : Domain) : d.asStr ≠ [] := by
  intro h
  have hv := d.valid
  rw [h] at hv
  exact absurd hv (by decide)

theorem special_of_getLast {s : List Char} (h : s.getLast? ≠ some '.') (hne : s ≠ []) :
    special s = false := by
  rw [special_eq_false]
  refine ⟨hne, ?_, ?_⟩ <;>
    · rintro rfl
      exact h rfl

/-- The last label is not empty. -/
theorem Domain.getLast (d : Domain) : d.asStr.getLast? ≠ some '.' := by
  intro hlast
  obtain ⟨s, hs⟩ := List.getLast?_eq_some_iff.mp hlast
  have hv := d.valid
  simp only [validDomain, hs, Bool.and_eq_true] at hv
  have hempty : [] ∈ (s ++ ['.']).splitOn '.' := by
    rw [List.splitOn_append_cons_self, List.splitOn_nil]
    simp
  have := List.all_eq_true.mp hv.2 [] hempty
  exact absurd this (by decide)

theorem Domain.slash_notMem (d : Domain) : '/' ∉ d.asStr := by
  intro h
  rcases d.label_char _ h with h | h
  · exact absurd h (by decide)
  · exact absurd h (by decide)

theorem Domain.oneName_asStr (d : Domain) : OneName d.asStr :=
  ⟨d.slash_notMem, special_of_getLast d.getLast d.ne_nil⟩

/-- A site's file name is one component. -/
theorem Domain.oneName (d : Domain) : OneName (d.asStr ++ ".conf".toList) := by
  constructor
  · intro h
    rcases List.mem_append.mp h with h | h
    · exact d.slash_notMem h
    · exact absurd h (by decide)
  · refine special_of_getLast ?_ (by simp)
    rw [List.getLast?_append_of_ne_nil _ (by decide)]
    decide

/-- A version is digits and a dot. -/
theorem PhpVersion.digit_or_dot (v : PhpVersion) :
    ∀ c ∈ v.asStr, c = '.' ∨ isAsciiDigit c = true := by
  intro c hc
  have hv := v.valid
  simp only [validPhpVersion, validMajorMinor, Bool.and_eq_true] at hv
  obtain ⟨-, hv⟩ := hv
  split at hv
  next => exact absurd hv (by simp)
  next dot minor hdrop =>
    simp only [Bool.and_eq_true] at hv
    have hdot := List.head?_dropWhile_not (· != '.') v.asStr
    rw [hdrop] at hdot
    have hdot' : dot = '.' := by simpa using hdot
    rw [← List.takeWhile_append_dropWhile (p := (· != '.')) (l := v.asStr), hdrop] at hc
    rcases List.mem_append.mp hc with hc | hc
    · exact .inr (List.all_eq_true.mp hv.1.2 c hc)
    · rcases List.mem_cons.mp hc with rfl | hc
      · exact .inl hdot'
      · exact .inr (List.all_eq_true.mp hv.2 c hc)

/-- A version ends in a digit. -/
theorem PhpVersion.getLast (v : PhpVersion) : v.asStr.getLast? ≠ some '.' := by
  have hv := v.valid
  simp only [validPhpVersion, validMajorMinor, Bool.and_eq_true] at hv
  obtain ⟨-, hv⟩ := hv
  split at hv
  next => exact absurd hv (by simp)
  next dot minor hdrop =>
    simp only [Bool.and_eq_true] at hv
    obtain ⟨⟨⟨-, hne⟩, -⟩, hdigits⟩ := hv
    have hne' : minor ≠ [] := by simpa using hne
    rw [← List.takeWhile_append_dropWhile (p := (· != '.')) (l := v.asStr), hdrop,
      List.getLast?_append_of_ne_nil _ (by simp), List.getLast?_cons_of_ne_nil hne']
    intro hlast
    have := List.all_eq_true.mp hdigits _ (List.mem_of_getLast? hlast)
    exact absurd this (by decide)

theorem PhpVersion.ne_nil (v : PhpVersion) : v.asStr ≠ [] := by
  intro h
  have hv := v.valid
  rw [h] at hv
  exact absurd hv (by decide)

/-- A version is one component. -/
theorem PhpVersion.oneName (v : PhpVersion) : OneName v.asStr := by
  constructor
  · intro h
    rcases v.digit_or_dot _ h with h | h
    · exact absurd h (by decide)
    · exact absurd h (by decide)
  · exact special_of_getLast v.getLast v.ne_nil

/-- A text before a version is one component with it. -/
theorem PhpVersion.oneName_append (v : PhpVersion) {s : List Char} (hs : '/' ∉ s) :
    OneName (s ++ v.asStr) := by
  constructor
  · intro h
    rcases List.mem_append.mp h with h | h
    · exact hs h
    · exact v.oneName.1 h
  · refine special_of_getLast ?_ (by simp [v.ne_nil])
    rw [List.getLast?_append_of_ne_nil _ v.ne_nil]
    exact v.getLast

end OpenVHost.Site
