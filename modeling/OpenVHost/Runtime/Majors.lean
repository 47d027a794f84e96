/-
# The majors that discovery reports

A PHP major comes from a directory of the package tree, from a keg's directory, or from what
`php-fpm -v` prints. A site takes a version of a bounded length.

* `validPhpVersion_iff` — a site's version is digits, a dot and digits, and not too long.
* `majors_valid_iff` — every runtime that is discovered can be a site's exactly if no formula
  directory reports a major that is too long.
-/

import OpenVHost.Conf.SettingsParse
import OpenVHost.Runtime.Merged

namespace OpenVHost.Runtime

open FileTree Conf Text
open Site (PhpVersion validPhpVersion validMajorMinor phpVersionMaxLen)

/-! ### What `php-fpm -v` prints -/

/-- `str::lines`: a carriage return before a newline goes with it. -/
def textLines (s : List Char) : List (List Char) :=
  let pieces := s.splitOn '\n'
  let stripped := pieces.dropLast.map fun line =>
    if line.getLast? = some '\r' then line.dropLast else line
  stripped ++ (pieces.getLast?.filter fun last => last ≠ []).toList

namespace Php

def parsePhpVersionLine (line : List Char) : Option (List Char) :=
  match "PHP ".toList.isPrefixOf? line with
  | none => none
  | some rest =>
      match words isWhitespace rest with
      | [] => none
      | token :: _ =>
          match token.splitOn '.' with
          | major :: minor :: _ =>
              if digits major && digits minor then some (major ++ '.' :: minor) else none
          | _ => none

def parsePhpVersion (stdout : List Char) : Option (List Char) :=
  (textLines stdout).findSome? parsePhpVersionLine

/-- The probe of a binary, by what it prints if it runs at all. -/
def probePhpFpmVersion (stdout : Path → Option (List UInt8)) (bin : Path) : Option (List Char) :=
  (stdout bin).bind fun bytes => parsePhpVersion (fromUtf8Lossy bytes)

end Php

/-! ### Shapes -/

theorem takeWhile_majorMinor {major : List Char} (h : '.' ∉ major) (minor : List Char) :
    (major ++ '.' :: minor).takeWhile (· != '.') = major ∧
      (major ++ '.' :: minor).dropWhile (· != '.') = '.' :: minor := by
  have hall : ∀ c ∈ major, (c != '.') = true := by
    intro c hc
    rw [bne_iff_ne]
    rintro rfl
    exact h hc
  rw [List.takeWhile_append_of_pos hall, List.dropWhile_append_of_pos hall]
  simp

theorem validMajorMinor_iff {s : List Char} : validMajorMinor s = true ↔ MajorMinor s := by
  constructor
  · intro h
    unfold validMajorMinor at h
    dsimp only at h
    split at h
    · cases h
    next dot minor hdrop =>
      have hdot : dot = '.' := by
        have := List.head?_dropWhile_not (p := fun c => c != '.') (l := s)
        rw [hdrop] at this
        simpa using this
      subst hdot
      refine ⟨s.takeWhile (· != '.'), minor, ?_, ?_, ?_⟩
      · simp only [Bool.and_eq_true] at h
        simp [digits, h]
      · simp only [Bool.and_eq_true] at h
        simp [digits, h]
      · rw [← hdrop, List.takeWhile_append_dropWhile]
  · rintro ⟨major, minor, hmajor, hminor, rfl⟩
    obtain ⟨htake, hdrop⟩ := takeWhile_majorMinor (not_mem_of_digits hmajor (by decide)) minor
    simp only [digits, Bool.and_eq_true] at hmajor hminor
    simp [validMajorMinor, htake, hdrop, hmajor, hminor]

/-- **What a site takes for a version.** -/
theorem validPhpVersion_iff {s : List Char} :
    validPhpVersion s = true ↔ utf8Len s ≤ phpVersionMaxLen ∧ MajorMinor s := by
  rw [validPhpVersion, Bool.and_eq_true, decide_eq_true_eq, validMajorMinor_iff]

theorem parse_ok_iff {s : List Char} :
    (∃ v, PhpVersion.parse s = .ok v) ↔ validPhpVersion s = true := by
  unfold PhpVersion.parse
  constructor
  · rintro ⟨v, h⟩
    by_contra hno
    rw [dif_neg hno] at h
    split at h <;> cases h
  · intro h
    rw [dif_pos h]
    exact ⟨_, rfl⟩

/-! ### The three routes -/

theorem majorMinor_of_keg {keg : ResolvedKeg} {m : List Char} (h : keg.majorMinor = some m) :
    MajorMinor m := by
  unfold ResolvedKeg.majorMinor at h
  split at h
  next major minor _ _ =>
    rw [Option.ite_none_right_eq_some, Bool.and_eq_true] at h
    obtain ⟨⟨hmajor, hminor⟩, h⟩ := h
    cases h
    exact ⟨major, minor, hmajor, hminor, rfl⟩
  next => cases h

namespace Php

theorem majorMinor_of_line {line m : List Char} (h : parsePhpVersionLine line = some m) :
    MajorMinor m := by
  unfold parsePhpVersionLine at h
  split at h
  · cases h
  split at h
  · cases h
  split at h
  next major minor _ _ =>
    rw [Option.ite_none_right_eq_some, Bool.and_eq_true] at h
    obtain ⟨⟨hmajor, hminor⟩, h⟩ := h
    cases h
    exact ⟨major, minor, hmajor, hminor, rfl⟩
  next => cases h

variable {t : Tree} {root : PackagesRoot} {prefixes : List Path} {m : List Char} {dir : Path}
  {stdout : Path → Option (List UInt8)}

theorem majorMinor_of_probe {bin : Path} (h : probePhpFpmVersion stdout bin = some m) :
    MajorMinor m := by
  obtain ⟨bytes, -, h⟩ := Option.bind_eq_some_iff.mp h
  obtain ⟨line, -, hline⟩ := List.exists_of_findSome?_eq_some h
  exact majorMinor_of_line hline

/-- What a formula directory reports is digits, a dot and digits. -/
theorem majorMinor_of_reported (h : phpEngine.reported t (probePhpFpmVersion stdout) dir = some m) :
    MajorMinor m := by
  have hversion : Engine.versionOf t (probePhpFpmVersion stdout) dir (dir ++ fpmRel) = some m := by
    simpa [Engine.reported, phpEngine] using h
  unfold Engine.versionOf at hversion
  cases hkeg : (resolveKeg t dir).bind ResolvedKeg.majorMinor with
  | some m' =>
      rw [hkeg] at hversion
      cases hversion
      obtain ⟨keg, -, hmajor⟩ := Option.bind_eq_some_iff.mp hkeg
      exact majorMinor_of_keg hmajor
  | none =>
      rw [hkeg] at hversion
      exact majorMinor_of_probe hversion

/-- What the package tree provides can be a site's. -/
theorem valid_of_packaged {rt : PhpRuntime} (h : packagedPhpRuntime t root m = some rt) :
    validPhpVersion rt.major = true := by
  obtain ⟨install, hinstall, rfl⟩ := Option.map_eq_some_iff.mp h
  unfold packagedPhpInstall at hinstall
  split at hinstall
  next => cases hinstall
  next hshape =>
    simp only [isMajorMinorShape, Bool.not_eq_true', Bool.not_eq_false, Bool.and_eq_true,
      decide_eq_true_eq] at hshape
    exact validPhpVersion_iff.mpr ⟨hshape.1, majorMinor_of_shape hshape.2⟩

/-- No formula directory with the binaries reports a major that is too long. -/
def ReportsBounded (t : Tree) (prefixes : List Path) (probe : Path → Option (List Char)) : Prop :=
  ∀ pre ∈ prefixes, ∀ dir ∈ phpEngine.candidates t pre, phpEngine.complete t dir = true →
    ∀ m, Engine.versionOf t probe dir (dir ++ fpmRel) = some m → utf8Len m ≤ phpVersionMaxLen

theorem reported_eq (probe : Path → Option (List Char)) :
    phpEngine.reported t probe dir = Engine.versionOf t probe dir (dir ++ fpmRel) := by
  simp [Engine.reported, phpEngine]

/-- **Every discovered major is a version that a site takes** exactly if no formula directory
reports one that is too long. -/
theorem majors_valid_iff (t : Tree) (root : PackagesRoot) (prefixes : List Path)
    (stdout : Path → Option (List UInt8)) :
    (∀ rt ∈ (discoverPhp t root prefixes (probePhpFpmVersion stdout)).runtimes,
        ∃ v, PhpVersion.parse rt.major = .ok v) ↔
      ReportsBounded t prefixes (probePhpFpmVersion stdout) := by
  simp only [parse_ok_iff]
  constructor
  · intro hall pre hpre dir hdir hcomplete m hm
    have hreports : phpEngine.Reports t (probePhpFpmVersion stdout) pre dir m :=
      ⟨hdir, hcomplete, (reported_eq _).trans hm⟩
    -- a runtime of this major is discovered, from one source or the other
    obtain ⟨rt, hrt, hmajor⟩ : ∃ rt ∈ (discoverPhp t root prefixes (probePhpFpmVersion stdout)).runtimes,
        rt.major = m := by
      cases hp : phpEngine.packaged t root m with
      | some rt =>
          exact ⟨rt, (phpEngine.mem_discover t root prefixes _).mpr (.packaged hp),
            phpEngine.major_packaged hp⟩
      | none =>
          obtain ⟨i, pre', dir', h⟩ := phpEngine.exists_fromHomebrew t prefixes _ hpre hreports
          exact ⟨phpEngine.brew m dir', (phpEngine.mem_discover t root prefixes _).mpr (.homebrew hp h),
            rfl⟩
    rw [← hmajor]
    exact (validPhpVersion_iff.mp (hall rt hrt)).1
  · intro hbounded rt hrt
    have hprovided := (phpEngine.mem_discover t root prefixes _).mp hrt
    cases hprovided with
    | packaged h => exact valid_of_packaged h
    | homebrew hnone h =>
        have hreported := h.reports.reported
        refine validPhpVersion_iff.mpr ⟨?_, majorMinor_of_reported hreported⟩
        rw [reported_eq] at hreported
        exact hbounded _ (List.mem_of_getElem? h.index) _ h.reports.candidate h.reports.complete _
          hreported

/-- A keg whose version begins with a date. -/
def datedKeg : Tree :=
  Tree.ofNodes [(["b".toList], .dir none), (["b".toList, "opt".toList], .dir none),
    (["b".toList, "Cellar".toList], .dir none), (["b".toList, "Cellar".toList, "php".toList], .dir none),
    (["b".toList, "Cellar".toList, "php".toList, "20260101.10".toList], .dir none),
    (["b".toList, "Cellar".toList, "php".toList, "20260101.10".toList, "sbin".toList], .dir none),
    (["b".toList, "Cellar".toList, "php".toList, "20260101.10".toList, "sbin".toList,
      "php-fpm".toList], .file [] none),
    (["b".toList, "opt".toList, "php".toList], .symlink "../Cellar/php/20260101.10".toList)]

/-- **The runtime of such a keg cannot be selected by a site.** -/
theorem dated_keg_not_valid :
    ∃ rt ∈ (discoverPhp datedKeg ⟨["h".toList, "packages".toList]⟩ [["b".toList]]
        (probePhpFpmVersion fun _ => none)).runtimes, ¬ ∃ v, PhpVersion.parse rt.major = .ok v := by
  have hfound : (discoverPhp datedKeg ⟨["h".toList, "packages".toList]⟩ [["b".toList]]
      (probePhpFpmVersion fun _ => none)).runtimes =
        [⟨"20260101.10".toList, ["b".toList, "opt".toList, "php".toList] ++ fpmRel, .homebrew⟩] := by
    decide +kernel
  rw [hfound]
  refine ⟨_, List.mem_singleton_self _, ?_⟩
  rw [parse_ok_iff]
  decide

end Php

end OpenVHost.Runtime
