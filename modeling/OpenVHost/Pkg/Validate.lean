/-
# Entry names, collisions, the root strip and symlink targets

The extractor's trusted core, without any I/O: which entry names an archive may
use, when two of them are the same file on a case-folding volume, when the
shared top-level directory is stripped, and how far a symlink's target may
ascend. Unicode normalisation and lower-casing are parameters.

* `validateEntryName_eq_ok` — the name rules as one condition; a name that is
  accepted is accepted unchanged (`ValidName.validate`).
* `ValidName.plain` — an accepted name walks down, one entry a component.
* `strippedRel_valid` — the strip keeps an accepted name acceptable.
* `shouldStrip_spec` — when the root is stripped, every entry that names it is a
  directory and every other entry lies beneath it.
* `upAtMost_of_validateSymlink` — an accepted target goes up only at its front,
  no further than the link sits deep.
-/

import OpenVHost.FileTree.Walk
import Mathlib.Algebra.GroupWithZero.Nat

namespace OpenVHost.Pkg

open FileTree

/-- Text, as its characters. -/
abbrev Str := List Char

/-- The length of a text in bytes. -/
def utf8Len (s : Str) : Nat := (s.map Char.utf8Size).sum

/-- The errors of the package pipeline. -/
inductive PkgError where
  | invalidComponent (value : Str) (reason : String)
  | network (reason : String)
  | downloadStalled (received : Nat) (expected : Option Nat)
  | tooLarge (cap : Nat)
  | hashMismatch (expected actual : Str)
  | unsafeArchive (reason : String)
  | alreadyInstalled (name version : Str)
  | io (op : String) (path : Path) (source : Errno)
  | unsupported (reason : String)
  deriving DecidableEq, Repr

def maxDepth : Nat := 32
def maxRelBytes : Nat := 240
def maxEntries : Nat := 100000
def maxTotalBytes : Nat := 4 * 1024 * 1024 * 1024

/-- `saturating_add` on 64-bit counts. -/
def saturatingAdd (a b : Nat) : Nat := min (a + b) (2 ^ 64 - 1)

def reject (reason : String) : PkgError := .unsafeArchive reason

/-- `if bad { return Err(reject(reason)) }` -/
def rejectIf (bad : Prop) [Decidable bad] (reason : String) : Except PkgError Unit :=
  if bad then .error (reject reason) else .ok ()

theorem rejectIf_bind_eq_ok {α : Type} {bad : Prop} [Decidable bad] {reason : String}
    {f : Unit → Except PkgError α} {a : α} :
    (rejectIf bad reason >>= f) = .ok a ↔ ¬ bad ∧ f () = .ok a := by
  unfold rejectIf
  by_cases h : bad <;> simp [h, bind, Except.bind]

/-! ### Entry names -/

/-- Device names no component may have as its stem, whatever follows the dot. -/
def reserved : List Str :=
  ["con", "prn", "aux", "nul", "com0", "com1", "com2", "com3", "com4", "com5", "com6", "com7",
    "com8", "com9", "lpt0", "lpt1", "lpt2", "lpt3", "lpt4", "lpt5", "lpt6", "lpt7", "lpt8",
    "lpt9"].map String.toList

/-- `strip_suffix('/')`, the text itself where there is none. -/
def trimSlash (s : Str) : Str := if s.getLast? = some '/' then s.dropLast else s

/-- Why one component of an entry name is refused. An empty component has been
dealt with before, so it is skipped here. -/
def componentReason (c : Str) : Option String :=
  if c.isEmpty then none
  else if c = ['.', '.'] then some "'..' path component"
  else if ':' ∈ c then some "':' in path (drive/ADS)"
  else if c.getLast? = some '.' ∨ c.getLast? = some ' ' then
    some "component ends with dot or space"
  else if ((c.splitOn '.').headD c).map Char.toLower ∈ reserved then
    some "reserved device name component"
  else none

/-- Validate a raw archive entry name: a relative path with `/` separators, one
trailing `/` dropped. -/
def validateEntryName (raw : Str) : Except PkgError Str := do
  rejectIf (raw = []) "empty entry name"
  rejectIf (utf8Len raw > maxRelBytes) "entry path too long"
  rejectIf ('\x00' ∈ raw) "entry name contains NUL"
  rejectIf ('\\' ∈ raw) "entry name contains backslash"
  rejectIf (raw.head? = some '/') "absolute entry path"
  let comps := (splitPath raw).filter fun c => !(c.isEmpty || c == ['.'])
  -- one trailing slash is a directory's; any other empty component is refused
  rejectIf ([] ∈ splitPath raw ∧ [] ∈ splitPath (trimSlash raw)) "empty path component"
  rejectIf (['.'] ∈ splitPath raw) "'.' path component"
  rejectIf (comps.length > maxDepth) "entry nesting too deep"
  match (splitPath raw).findSome? componentReason with
  | some reason => .error (reject reason)
  | none => .ok (trimSlash raw)

/-- The names `validateEntryName` hands back. -/
structure ValidName (rel : Str) : Prop where
  length : utf8Len rel ≤ maxRelBytes
  nul : '\x00' ∉ rel
  backslash : '\\' ∉ rel
  depth : (splitPath rel).length ≤ maxDepth
  comps : ∀ c ∈ splitPath rel, c ≠ [] ∧ c ≠ ['.'] ∧ componentReason c = none

section Names

variable {raw rel s : Str}

theorem splitPath_ne_nil (s : Str) : splitPath s ≠ [] := List.splitOn_ne_nil '/' s

theorem splitPath_concat_slash (s : Str) : splitPath (s ++ ['/']) = splitPath s ++ [[]] := by
  rw [splitPath, List.splitOn_append_cons_self, List.splitOn_nil]
  rfl

theorem splitPath_append_slash (s s' : Str) :
    splitPath (s ++ '/' :: s') = splitPath s ++ splitPath s' :=
  List.splitOn_append_cons_self s s'

/-- Text that is cut into the same components is the same text. -/
theorem splitPath_injective : Function.Injective splitPath := by
  intro a b h
  have ha : ['/'].intercalate (a.splitOn '/') = a := List.intercalate_splitOn '/'
  have hb : ['/'].intercalate (b.splitOn '/') = b := List.intercalate_splitOn '/'
  unfold splitPath at h
  rw [← ha, ← hb, h]

theorem eq_concat_of_getLast? {c : Char} (h : s.getLast? = some c) : s = s.dropLast ++ [c] :=
  (List.dropLast_append_getLast? c h).symm

theorem trimSlash_cases (raw : Str) :
    (raw.getLast? ≠ some '/' ∧ trimSlash raw = raw) ∨ raw = trimSlash raw ++ ['/'] := by
  unfold trimSlash
  split
  next h => exact .inr (eq_concat_of_getLast? h)
  next h => exact .inl ⟨h, rfl⟩

theorem utf8Len_append (s s' : Str) : utf8Len (s ++ s') = utf8Len s + utf8Len s' := by
  simp [utf8Len]

namespace ValidName

theorem ne_nil (h : ValidName rel) : rel ≠ [] := by
  rintro rfl
  exact (h.comps [] (by simp [splitPath])).1 rfl

theorem trim_eq (h : ValidName rel) : trimSlash rel = rel := by
  rcases trimSlash_cases rel with ⟨-, heq⟩ | heq
  · exact heq
  · have hm : ([] : Str) ∈ splitPath rel := by
      rw [heq, splitPath_concat_slash]
      simp
    exact absurd rfl (h.comps [] hm).1

theorem componentReason_ne_dots : componentReason ['.', '.'] ≠ none := by
  decide

/-- **An accepted name walks down**, one entry a component. -/
theorem plain (h : ValidName rel) : Plain (splitPath rel) := by
  intro c hc
  obtain ⟨h₁, h₂, h₃⟩ := h.comps c hc
  rw [special_eq_false]
  refine ⟨h₁, h₂, ?_⟩
  rintro rfl
  exact componentReason_ne_dots h₃

theorem head_ne_slash (h : ValidName rel) : rel.head? ≠ some '/' := by
  intro hh
  obtain ⟨s, rfl⟩ : ∃ s, rel = '/' :: s := by
    cases rel with
    | nil => simp at hh
    | cons c s => exact ⟨s, by simp_all⟩
  refine (h.comps [] ?_).1 rfl
  have := splitPath_append_slash [] s
  rw [List.nil_append] at this
  rw [this]
  simp [splitPath]

theorem filter_eq (h : ValidName rel) :
    (splitPath rel).filter (fun c => !(c.isEmpty || c == ['.'])) = splitPath rel := by
  rw [List.filter_eq_self]
  intro c hc
  obtain ⟨h₁, h₂, -⟩ := h.comps c hc
  simp [h₁, h₂]

/-- What follows a root is a name of its own. -/
theorem of_append {root : Str} (h : ValidName (root ++ '/' :: rel)) : ValidName rel := by
  obtain ⟨hl, hn, hb, hd, hc⟩ := h
  rw [splitPath_append_slash] at hd hc
  rw [utf8Len_append] at hl
  refine ⟨?_, fun hm => hn (by simp [hm]), fun hm => hb (by simp [hm]), ?_, fun c hm => hc c ?_⟩
  · have : utf8Len ('/' :: rel) = utf8Len ['/'] + utf8Len rel := utf8Len_append ['/'] rel
    omega
  · rw [List.length_append] at hd
    omega
  · exact List.mem_append_right _ hm

end ValidName

/-- **The name rules as one condition**: the trimmed name is a valid one, and the
raw name is no longer than allowed. -/
theorem validateEntryName_eq_ok :
    validateEntryName raw = .ok rel ↔
      rel = trimSlash raw ∧ utf8Len raw ≤ maxRelBytes ∧ ValidName rel := by
  unfold validateEntryName
  simp only [rejectIf_bind_eq_ok, Nat.not_lt]
  constructor
  · rintro ⟨hne, hlen, hnul, hbs, habs, hempty, hdot, hdepth, hrest⟩
    split at hrest
    · cases hrest
    next hcomp =>
      cases hrest
      rw [List.findSome?_eq_none_iff] at hcomp
      rcases trimSlash_cases raw with ⟨-, heq⟩ | heq
      · rw [heq] at hempty ⊢
        have hemp : [] ∉ splitPath raw := fun h => hempty ⟨h, h⟩
        have hcs : ∀ c ∈ splitPath raw, c ≠ [] ∧ c ≠ ['.'] ∧ componentReason c = none :=
          fun c hc => ⟨fun h => hemp (h ▸ hc), fun h => hdot (h ▸ hc), hcomp c hc⟩
        refine ⟨rfl, hlen, hlen, hnul, hbs, ?_, hcs⟩
        rwa [List.filter_eq_self.mpr] at hdepth
        intro c hc
        obtain ⟨h₁, h₂, -⟩ := hcs c hc
        simp [h₁, h₂]
      · generalize hs : trimSlash raw = s at *
        subst heq
        rw [splitPath_concat_slash] at hempty hdot hcomp hdepth
        have hemp : [] ∉ splitPath s := fun h => hempty ⟨by simp, h⟩
        have hcs : ∀ c ∈ splitPath s, c ≠ [] ∧ c ≠ ['.'] ∧ componentReason c = none :=
          fun c hc => ⟨fun h => hemp (h ▸ hc), fun h => hdot (by simp [h ▸ hc]),
            hcomp c (by simp [hc])⟩
        rw [utf8Len_append] at hlen
        refine ⟨rfl, by rwa [utf8Len_append], by omega, fun h => hnul (by simp [h]),
          fun h => hbs (by simp [h]), ?_, hcs⟩
        rw [List.filter_append, List.filter_eq_self.mpr] at hdepth
        · simpa using hdepth
        · intro c hc
          obtain ⟨h₁, h₂, -⟩ := hcs c hc
          simp [h₁, h₂]
  · rintro ⟨rfl, hlen, hv⟩
    have hmem : ∀ c ∈ splitPath raw, c ∈ splitPath (trimSlash raw) ∨ c = [] := by
      intro c hc
      rcases trimSlash_cases raw with ⟨-, heq⟩ | heq
      · exact .inl (heq.symm ▸ hc)
      · rw [heq, splitPath_concat_slash, List.mem_append, List.mem_singleton] at hc
        exact hc
    have hchar : ∀ c : Char, c ≠ '/' → c ∉ trimSlash raw → c ∉ raw := by
      intro c hc hn hm
      rcases trimSlash_cases raw with ⟨-, heq⟩ | heq
      · exact hn (heq.symm ▸ hm)
      · rw [heq, List.mem_append, List.mem_singleton] at hm
        exact hm.elim hn hc
    refine ⟨?_, hlen, hchar _ (by decide) hv.nul, hchar _ (by decide) hv.backslash, ?_, ?_, ?_, ?_, ?_⟩
    · rintro rfl
      exact hv.ne_nil rfl
    · intro hh
      rcases trimSlash_cases raw with ⟨-, heq⟩ | heq
      · exact hv.head_ne_slash (heq.symm ▸ hh)
      · refine hv.head_ne_slash ?_
        rw [heq, List.head?_append] at hh
        cases hc : trimSlash raw with
        | nil => exact absurd hc hv.ne_nil
        | cons c s => simpa [hc] using hh
    · rintro ⟨-, hm⟩
      exact (hv.comps _ hm).1 rfl
    · intro hm
      rcases hmem _ hm with hm | hm
      · exact (hv.comps _ hm).2.1 rfl
      · simp at hm
    · have hd := hv.depth
      rcases trimSlash_cases raw with ⟨-, heq⟩ | heq
      · rw [heq] at hd hv
        rwa [hv.filter_eq]
      · rw [heq, splitPath_concat_slash, List.filter_append, hv.filter_eq]
        simpa using hd
    · have : (splitPath raw).findSome? componentReason = none := by
        rw [List.findSome?_eq_none_iff]
        intro c hc
        rcases hmem c hc with hm | rfl
        · exact (hv.comps c hm).2.2
        · rfl
      rw [this]

theorem validName_of_ok (h : validateEntryName raw = .ok rel) : ValidName rel :=
  (validateEntryName_eq_ok.mp h).2.2

/-- **An accepted name is accepted unchanged.** -/
theorem ValidName.validate (h : ValidName rel) : validateEntryName rel = .ok rel :=
  validateEntryName_eq_ok.mpr ⟨h.trim_eq.symm, h.length, h⟩

end Names

/-! ### Joining a name to a directory -/

/-- `Path::join`: an absolute name replaces the base, and empty and `.`
components are dropped. -/
def join (base : Path) (rel : Str) : Path :=
  let parts := (splitPath rel).filter fun c => !(c.isEmpty || c == ['.'])
  if isAbsolute rel then parts else base ++ parts

theorem join_valid (base : Path) {rel : Str} (h : ValidName rel) :
    join base rel = base ++ splitPath rel := by
  have habs : isAbsolute rel = false := by
    unfold isAbsolute
    simpa using h.head_ne_slash
  rw [join, h.filter_eq, habs]
  rfl

/-! ### Collisions -/

/-- What the extractor takes from outside: the two Unicode functions the
collision key is made of, and the text of an operating system's error. -/
structure Platform where
  nfc : Str → Str
  toLowercase : Str → Str
  errorText : Errno → String

/-- Case-folded and normalised key for collision detection. -/
def collisionKey (pf : Platform) (rel : Str) : Str := pf.toLowercase (pf.nfc rel)

inductive EntryClass where
  | directory
  | nonDirectory
  deriving DecidableEq, Repr

def EntryClass.isDir : EntryClass → Bool
  | directory => true
  | nonDirectory => false

/-- A destination path already claimed, in its original spelling. -/
structure ClaimedPath where
  rel : Str
  cls : EntryClass
  deriving DecidableEq, Repr

inductive Admission where
  | fresh
  | repeatedDirHeader
  deriving DecidableEq, Repr

/-- The destination paths an archive has claimed, by collision key. -/
structure SeenPaths where
  claimed : List (Str × ClaimedPath)

namespace SeenPaths

def new : SeenPaths := ⟨[]⟩

/-- Offer a validated, stripped path. The one repeat that is not a collision is
a directory entry of the exact same name as a directory entry before it. -/
def admitRel (pf : Platform) (seen : SeenPaths) (rel : Str) (cls : EntryClass) :
    Except PkgError (Admission × SeenPaths) :=
  let key := collisionKey pf rel
  match seen.claimed.lookup key with
  | none => .ok (.fresh, ⟨(key, ⟨rel, cls⟩) :: seen.claimed⟩)
  | some prior =>
      match prior.cls, cls with
      | .directory, .directory =>
          if prior.rel = rel then .ok (.repeatedDirHeader, seen)
          else .error (reject ("path collision: " ++ String.ofList rel))
      | .directory, .nonDirectory | .nonDirectory, .directory | .nonDirectory, .nonDirectory =>
          .error (reject ("path collision: " ++ String.ofList rel))

variable {pf : Platform} {seen seen' : SeenPaths} {rel : Str} {cls : EntryClass}

/-- **What `admitRel` can answer**: a fresh key is claimed, and a repeat is a
directory under its own name. -/
theorem admitRel_cases {a : Admission} (h : seen.admitRel pf rel cls = .ok (a, seen')) :
    (a = .fresh ∧ seen.claimed.lookup (collisionKey pf rel) = none ∧
      seen' = ⟨(collisionKey pf rel, ⟨rel, cls⟩) :: seen.claimed⟩) ∨
    (a = .repeatedDirHeader ∧ cls = .directory ∧ seen' = seen ∧
      seen.claimed.lookup (collisionKey pf rel) = some ⟨rel, .directory⟩) := by
  unfold admitRel at h
  cases hl : seen.claimed.lookup (collisionKey pf rel) with
  | none =>
      simp only [hl] at h
      cases h
      exact .inl ⟨rfl, rfl, rfl⟩
  | some prior =>
      obtain ⟨r, c⟩ := prior
      simp only [hl] at h
      cases c <;> cases cls <;> simp only [reduceCtorEq] at h
      split at h
      next heq =>
        cases h
        exact .inr ⟨rfl, rfl, rfl, by rw [heq]⟩
      next => cases h

end SeenPaths

/-! ### The single-root strip -/

structure RawEntry where
  rel : Str
  isDir : Bool
  deriving DecidableEq, Repr

/-- What the entries say about the top-level component they share. -/
inductive RootShape where
  | explicitDir
  | impliedByChildren
  | notADirectory
  deriving DecidableEq, Repr

/-- The strip decision: whether the leading component goes, and which it is. -/
structure StripInfo where
  stripped : Bool
  root : Str
  deriving DecidableEq, Repr

def top (rel : Str) : Str := (splitPath rel).headD rel

/-- `trim_end_matches('/')` -/
def trimEndSlashes (s : Str) : Str := (s.reverse.dropWhile (· == '/')).reverse

/-- The loop of `root_shape`, from the shape found so far. -/
def rootShapeFrom (root : Str) : RootShape → List RawEntry → RootShape
  | shape, [] => shape
  | shape, e :: es =>
      if trimEndSlashes e.rel ≠ root then rootShapeFrom root shape es
      else if !e.isDir then .notADirectory
      else rootShapeFrom root .explicitDir es

def rootShape (entries : List RawEntry) (root : Str) : RootShape :=
  rootShapeFrom root .impliedByChildren entries

def shouldStrip (entries : List RawEntry) (root : Str) : Bool :=
  if entries.isEmpty || root.isEmpty then false
  else if !entries.all (fun e => top e.rel == root) then false
  else
    match rootShape entries root with
    | .explicitDir | .impliedByChildren => true
    | .notADirectory => false

/-- `strip_prefix` -/
def stripPrefix (lead s : Str) : Option Str :=
  if lead.isPrefixOf s then some (s.drop lead.length) else none

/-- Apply the strip decision to a validated name: the root itself and a name
that is not beneath it have no stripped form. -/
def strippedRel (validated : Str) (strip : StripInfo) : Option Str :=
  if !strip.stripped then some validated
  else if validated = strip.root then none
  else stripPrefix (strip.root ++ ['/']) validated

/-- Decide the strip, and rewrite the entries by it. -/
def stripSingleRoot (entries : List RawEntry) : List RawEntry × StripInfo :=
  let root := ((entries.head?).map fun e => top e.rel).getD []
  let info : StripInfo := ⟨shouldStrip entries root, root⟩
  if info.stripped then
    (entries.map fun e => { e with rel := (strippedRel e.rel info).getD [] }, info)
  else (entries, info)

section Strip

variable {entries : List RawEntry} {root rel out : Str} {strip : StripInfo}

theorem stripPrefix_eq_some {lead s : Str} : stripPrefix lead s = some out ↔ s = lead ++ out := by
  unfold stripPrefix
  split
  next h =>
    obtain ⟨t, rfl⟩ := List.isPrefixOf_iff_prefix.mp h
    simp [eq_comm]
  next h =>
    simp only [reduceCtorEq, false_iff]
    rintro rfl
    exact h (List.isPrefixOf_iff_prefix.mpr (List.prefix_append _ _))

/-- **The forms of a stripped name.** -/
theorem strippedRel_eq_some :
    strippedRel rel strip = some out ↔
      (strip.stripped = false ∧ out = rel) ∨
        (strip.stripped = true ∧ rel ≠ strip.root ∧ rel = strip.root ++ '/' :: out) := by
  unfold strippedRel
  cases hs : strip.stripped with
  | false => simp [eq_comm]
  | true =>
      by_cases hr : rel = strip.root
      · simp [hr]
      · simp [hr, stripPrefix_eq_some]

theorem strippedRel_of_stripped (hs : strip.stripped = true) :
    strippedRel (strip.root ++ '/' :: out) strip = some out := by
  rw [strippedRel_eq_some]
  exact .inr ⟨hs, by simp, rfl⟩

/-- **The strip keeps a name acceptable.** -/
theorem strippedRel_valid (hv : ValidName rel) (h : strippedRel rel strip = some out) :
    ValidName out := by
  rcases strippedRel_eq_some.mp h with ⟨-, rfl⟩ | ⟨-, -, rfl⟩
  · exact hv
  · exact hv.of_append

/-- Two names with one stripped form are one name. -/
theorem strippedRel_inj {rel' : Str} (h : strippedRel rel strip = some out)
    (h' : strippedRel rel' strip = some out) : rel = rel' := by
  rcases strippedRel_eq_some.mp h with ⟨hs, rfl⟩ | ⟨hs, -, rfl⟩
  · rcases strippedRel_eq_some.mp h' with ⟨-, rfl⟩ | ⟨hs', -, -⟩
    · rfl
    · rw [hs] at hs'
      cases hs'
  · rcases strippedRel_eq_some.mp h' with ⟨hs', -⟩ | ⟨-, -, rfl⟩
    · rw [hs] at hs'
      cases hs'
    · rfl

theorem trimEndSlashes_valid (hv : ValidName rel) : trimEndSlashes rel = rel := by
  unfold trimEndSlashes
  rcases List.eq_nil_or_concat' rel with rfl | ⟨s, c, rfl⟩
  · rfl
  · have hc : c ≠ '/' := by
      rintro rfl
      exact (hv.comps [] (by simp [splitPath_concat_slash])).1 rfl
    simp [hc]

theorem rootShapeFrom_notADirectory (shape : RootShape) (hshape : shape ≠ .notADirectory) :
    rootShapeFrom root shape entries ≠ .notADirectory ↔
      ∀ e ∈ entries, trimEndSlashes e.rel = root → e.isDir = true := by
  induction entries generalizing shape with
  | nil => simp [rootShapeFrom, hshape]
  | cons e es ih =>
      rw [rootShapeFrom, List.forall_mem_cons]
      by_cases hr : trimEndSlashes e.rel = root
      · cases hd : e.isDir with
        | false => simp [hr]
        | true => simpa [hr] using ih .explicitDir (by simp)
      · simpa [hr] using ih shape hshape

theorem top_cases (rel : Str) : rel = top rel ∨ ∃ rest, rel = top rel ++ '/' :: rest := by
  unfold top splitPath
  by_cases h : '/' ∈ rel
  · obtain ⟨s, rest, rfl, hs⟩ := List.eq_append_cons_of_mem h
    rw [List.splitOn_append_cons_self_of_not_mem hs]
    exact .inr ⟨rest, rfl⟩
  · rw [List.splitOn_eq_singleton h]
    exact .inl rfl

/-- **When the root goes**: every entry is the root or lies beneath it, and
every entry that names it is a directory. -/
theorem shouldStrip_spec (hv : ∀ e ∈ entries, ValidName e.rel)
    (h : shouldStrip entries root = true) :
    ∀ e ∈ entries, (e.rel = root ∧ e.isDir = true) ∨ ∃ rest, e.rel = root ++ '/' :: rest := by
  unfold shouldStrip at h
  split at h
  · cases h
  · split at h
    · cases h
    next hall =>
      have hall' : ∀ e ∈ entries, top e.rel = root := by simpa using hall
      have hshape : rootShape entries root ≠ .notADirectory := by
        intro hc
        simp [hc] at h
      rw [rootShape, rootShapeFrom_notADirectory _ (by simp)] at hshape
      intro e he
      rcases top_cases e.rel with htop | ⟨rest, htop⟩
      · have heq : e.rel = root := htop.trans (hall' e he)
        exact .inl ⟨heq, hshape e he (by rw [trimEndSlashes_valid (hv e he), heq])⟩
      · rw [hall' e he] at htop
        exact .inr ⟨rest, htop⟩

theorem stripSingleRoot_snd (entries : List RawEntry) :
    (stripSingleRoot entries).2 =
      ⟨shouldStrip entries (((entries.head?).map fun e => top e.rel).getD []),
        ((entries.head?).map fun e => top e.rel).getD []⟩ := by
  unfold stripSingleRoot
  simp only []
  split <;> rfl

end Strip

/-! ### Symlink targets -/

/-- The longest target that is split at all. -/
def maxTargetBytes : Nat := maxRelBytes + maxDepth * 3

/-- Validate a symlink by its final path and its target together. -/
def validateSymlink (linkRel target : Str) : Except PkgError Unit := do
  rejectIf (linkRel = []) "empty symlink path"
  rejectIf (target = []) "empty symlink target"
  rejectIf (target.head? = some '/' ∨ '\\' ∈ target ∨ ':' ∈ target)
    "absolute or non-relative symlink target"
  rejectIf (utf8Len target > maxTargetBytes) "symlink target too long"
  let raw := splitPath target
  rejectIf ([] ∈ raw) "empty component in symlink target"
  let comps := raw.filter (· ≠ ['.'])
  rejectIf (comps = []) "symlink target resolves to its own directory"
  let k := (comps.takeWhile (· = ['.', '.'])).length
  rejectIf (['.', '.'] ∈ comps.drop k) "'..' after a named component"
  let linkDir := (splitPath linkRel).dropLast
  let d := linkDir.length
  rejectIf (k > d) "symlink target ascends past the package root"
  rejectIf (d - k > linkDir.length) "symlink target could not be resolved"
  let resolved := linkDir.take (d - k) ++ comps.drop k
  rejectIf (resolved = []) "symlink target resolves to the package root itself"
  rejectIf (utf8Len (['/'].intercalate resolved) > maxRelBytes) "symlink target path too long"
  rejectIf (resolved.length > maxDepth) "symlink target nesting too deep"

/-- A list is its leading run of `a` and what follows that run. -/
theorem replicate_append_drop {α : Type} [DecidableEq α] (a : α) (xs : List α) :
    List.replicate (xs.takeWhile (· = a)).length a ++ xs.drop (xs.takeWhile (· = a)).length
      = xs := by
  induction xs with
  | nil => rfl
  | cons x xs ih =>
      by_cases hx : x = a
      · subst hx
        simpa [List.replicate_succ] using ih
      · simp [hx]

/-- **An accepted target** is relative and not empty, and goes up only at its
front, no further than the link sits deep. -/
theorem upAtMost_of_validateSymlink {linkRel target : Str}
    (h : validateSymlink linkRel target = .ok ()) :
    isAbsolute target = false ∧ target ≠ [] ∧
      Tree.UpAtMost (splitPath linkRel).dropLast.length (splitPath target) := by
  unfold validateSymlink at h
  simp only [rejectIf_bind_eq_ok, Nat.not_lt] at h
  obtain ⟨-, hne, hrel, -, hempty, -, hdots, hk, -⟩ := h
  have hmoving : Tree.moving (splitPath target) = (splitPath target).filter (· ≠ ['.']) := by
    apply List.filter_congr
    intro c hc
    have hc' : c.isEmpty = false := by
      rw [List.isEmpty_eq_false_iff]
      exact fun h => hempty (h ▸ hc)
    by_cases hdot : c = ['.'] <;> simp [hc', hdot]
  refine ⟨?_, hne, _, _, ?_, hdots, hk⟩
  · unfold isAbsolute
    have hh : target.head? ≠ some '/' := fun hh => hrel (.inl hh)
    simpa using hh
  · rw [hmoving]
    exact (replicate_append_drop ['.', '.'] _).symm

end OpenVHost.Pkg
