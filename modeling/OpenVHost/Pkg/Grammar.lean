/-
# The names and the symlink targets that the extractor accepts

Both rules as a reader would state them, next to the functions that scan for each
violation in turn.

* `EntryName` — the grammar of entry names.
* `validateEntryName_grammar` — these names are accepted and no others, and what is accepted
  is accepted again, with any of its leading components dropped.
* `Lands` — where a symlink's target leads, without its `.` components.
* `validateSymlink_rule` — these targets are accepted within the bound on what is split, `.`
  components do not matter, and the bound refuses nothing else.
-/

import OpenVHost.Pkg.Validate
import Mathlib.Data.List.TakeWhile

namespace OpenVHost.Pkg

open FileTree

/-! ### Paths and their components -/

/-- Components joined with `/`. -/
def joinPath (comps : List Str) : Str := ['/'].intercalate comps

section Join

variable {s : Str} {c : Str} {comps more : List Str}

theorem joinPath_splitPath (s : Str) : joinPath (splitPath s) = s := List.intercalate_splitOn '/'

theorem splitPath_joinPath (hne : comps ≠ []) (h : ∀ c ∈ comps, '/' ∉ c) :
    splitPath (joinPath comps) = comps :=
  List.splitOn_intercalate '/' h hne

theorem joinPath_cons (c : Str) (hne : comps ≠ []) :
    joinPath (c :: comps) = c ++ '/' :: joinPath comps := by
  rw [joinPath, List.intercalate_cons_of_ne_nil hne, List.append_assoc]
  rfl

theorem joinPath_append (hcomps : comps ≠ []) (hmore : more ≠ []) :
    joinPath (comps ++ more) = joinPath comps ++ '/' :: joinPath more := by
  induction comps with
  | nil => exact absurd rfl hcomps
  | cons c rest ih =>
      cases rest with
      | nil => simpa [joinPath] using joinPath_cons c hmore
      | cons d rest =>
          rw [List.cons_append, joinPath_cons c (by simp), ih (by simp), joinPath_cons c (by simp)]
          simp

theorem slash_notMem_of_mem_splitPath (h : c ∈ splitPath s) : '/' ∉ c := by
  unfold splitPath at h
  induction s generalizing c with
  | nil =>
      rw [List.splitOn_nil, List.mem_singleton] at h
      simp [h]
  | cons x rest ih =>
      rw [List.splitOn_cons_eq_if_modifyHead] at h
      by_cases hx : x = '/'
      · rw [if_pos (beq_iff_eq.mpr hx), List.mem_cons] at h
        rcases h with rfl | hrest
        · exact List.not_mem_nil
        · exact ih hrest
      · rw [if_neg (mt beq_iff_eq.mp hx)] at h
        cases hparts : rest.splitOn '/' with
        | nil => exact absurd hparts (List.splitOn_ne_nil '/' rest)
        | cons first others =>
            rw [hparts] at h ih
            rcases List.mem_cons.mp h with rfl | hothers
            · have hfirst : '/' ∉ first := ih List.mem_cons_self
              simp [Ne.symm hx, hfirst]
            · exact ih (List.mem_cons_of_mem _ hothers)

/-- A character that is in no component, and is not the separator, is not in the path. -/
theorem mem_joinPath {x : Char} (hx : x ≠ '/') : x ∈ joinPath comps ↔ ∃ c ∈ comps, x ∈ c := by
  induction comps with
  | nil => simp [joinPath]
  | cons c rest ih =>
      cases rest with
      | nil => simp [joinPath]
      | cons d rest => rw [joinPath_cons c (by simp), List.mem_append, List.mem_cons, ih]; simp [hx]

end Join

/-! ### Entry names -/

/-- The part of a component before its first dot. -/
def stem (c : Str) : Str := c.takeWhile (· != '.')

/-- A component that an entry name may have. -/
structure Component (c : Str) : Prop where
  ne_nil : c ≠ []
  slash : '/' ∉ c
  ne_dot : c ≠ ['.']
  ne_dots : c ≠ ['.', '.']
  not_dot_last : c.getLast? ≠ some '.'
  not_space_last : c.getLast? ≠ some ' '
  /-- A device name is refused in any letter case. -/
  not_reserved : ∀ r ∈ reserved, (stem c).map Char.toLower ≠ r.map Char.toLower

/-- The raw name `s`, with at most one `/` at its end, names `p`. -/
structure EntryName (s p : Str) : Prop where
  length : utf8Len s ≤ maxRelBytes
  nul : '\x00' ∉ s
  backslash : '\\' ∉ s
  colon : ':' ∉ s
  trailing : s = p ∨ s = p ++ ['/']
  comps : ∃ comps, 1 ≤ comps.length ∧ comps.length ≤ maxDepth ∧ (∀ c ∈ comps, Component c) ∧
    p = joinPath comps

section Names

variable {s p c : Str}

theorem splitOn_headD (c : Str) : (c.splitOn '.').headD c = stem c := by
  by_cases h : '.' ∈ c
  · obtain ⟨first, rest, rfl, hfirst⟩ := List.eq_append_cons_of_mem h
    rw [List.splitOn_append_cons_self_of_not_mem hfirst, stem, List.takeWhile_append_of_pos]
    · simp
    · intro x hx
      rw [bne_iff_ne]
      rintro rfl
      exact hfirst hx
  · rw [List.splitOn_eq_singleton h, stem, List.takeWhile_eq_self_iff.mpr]
    · rfl
    · intro x hx
      rw [bne_iff_ne]
      rintro rfl
      exact h hx

theorem map_toLower_reserved : ∀ r ∈ reserved, r.map Char.toLower = r := by
  decide

theorem stem_reserved_iff :
    (stem c).map Char.toLower ∈ reserved ↔
      ∃ r ∈ reserved, (stem c).map Char.toLower = r.map Char.toLower := by
  constructor
  · exact fun h => ⟨_, h, (map_toLower_reserved _ h).symm⟩
  · rintro ⟨r, hr, heq⟩
    rw [heq, map_toLower_reserved r hr]
    exact hr

/-- The checks of one component. -/
theorem componentReason_eq_none_iff (hne : c ≠ []) :
    componentReason c = none ↔
      c ≠ ['.', '.'] ∧ ':' ∉ c ∧ ¬ (c.getLast? = some '.' ∨ c.getLast? = some ' ') ∧
        (stem c).map Char.toLower ∉ reserved := by
  unfold componentReason
  rw [splitOn_headD, if_neg (by simpa using hne)]
  split_ifs with hdots hcolon hlast hreserved <;> simp [*]

theorem component_iff (hne : c ≠ []) (hdot : c ≠ ['.']) (hslash : '/' ∉ c) :
    componentReason c = none ↔ Component c ∧ ':' ∉ c := by
  rw [componentReason_eq_none_iff hne, stem_reserved_iff, not_or]
  constructor
  · rintro ⟨hdots, hcolon, ⟨hd, hs⟩, hstem⟩
    exact ⟨⟨hne, hslash, hdot, hdots, hd, hs, fun r hr heq => hstem ⟨r, hr, heq⟩⟩, hcolon⟩
  · rintro ⟨h, hcolon⟩
    refine ⟨h.ne_dots, hcolon, ⟨h.not_dot_last, h.not_space_last⟩, ?_⟩
    rintro ⟨r, hr, heq⟩
    exact h.not_reserved r hr heq

/-- **The names that are handed back**, as joined components. -/
theorem validName_iff :
    ValidName p ↔ utf8Len p ≤ maxRelBytes ∧ '\x00' ∉ p ∧ '\\' ∉ p ∧ ':' ∉ p ∧
      ∃ comps, 1 ≤ comps.length ∧ comps.length ≤ maxDepth ∧ (∀ c ∈ comps, Component c) ∧
        p = joinPath comps := by
  constructor
  · rintro ⟨hlen, hnul, hbackslash, hdepth, hcomps⟩
    have hcomponent : ∀ c ∈ splitPath p, Component c ∧ ':' ∉ c := by
      intro c hc
      obtain ⟨hne, hdot, hreason⟩ := hcomps c hc
      exact (component_iff hne hdot (slash_notMem_of_mem_splitPath hc)).mp hreason
    refine ⟨hlen, hnul, hbackslash, ?_, splitPath p, ?_, hdepth, fun c hc => (hcomponent c hc).1,
      (joinPath_splitPath p).symm⟩
    · rw [← joinPath_splitPath p, mem_joinPath (by decide)]
      rintro ⟨c, hc, hcolon⟩
      exact (hcomponent c hc).2 hcolon
    · exact List.length_pos_iff.mpr (splitPath_ne_nil p)
  · rintro ⟨hlen, hnul, hbackslash, hcolon, comps, hone, hdepth, hcomps, rfl⟩
    have hsplit : splitPath (joinPath comps) = comps :=
      splitPath_joinPath (List.length_pos_iff.mp hone) fun c hc => (hcomps c hc).slash
    refine ⟨hlen, hnul, hbackslash, by rwa [hsplit], ?_⟩
    rw [hsplit]
    intro c hc
    have hcomp := hcomps c hc
    have hno : ':' ∉ c := fun hm => hcolon ((mem_joinPath (by decide)).mpr ⟨c, hc, hm⟩)
    exact ⟨hcomp.ne_nil, hcomp.ne_dot,
      (component_iff hcomp.ne_nil hcomp.ne_dot hcomp.slash).mpr ⟨hcomp, hno⟩⟩

theorem ValidName.last_ne_slash (h : ValidName p) : p.getLast? ≠ some '/' := by
  intro hlast
  have htrim := h.trim_eq
  rw [trimSlash, if_pos hlast] at htrim
  have hlen := congrArg List.length htrim
  rw [List.length_dropLast] at hlen
  have hpos : 0 < p.length := List.length_pos_iff.mpr h.ne_nil
  omega

/-- At most one `/` is taken off the end. -/
theorem trimSlash_eq_iff (h : ValidName p) : p = trimSlash s ↔ s = p ∨ s = p ++ ['/'] := by
  constructor
  · rintro rfl
    rcases trimSlash_cases s with ⟨-, heq⟩ | heq
    · exact .inl heq.symm
    · exact .inr heq
  · rintro (rfl | rfl)
    · exact h.trim_eq.symm
    · simp [trimSlash]

theorem entryName_iff : EntryName s p ↔ p = trimSlash s ∧ utf8Len s ≤ maxRelBytes ∧ ValidName p := by
  constructor
  · rintro ⟨hlen, hnul, hbackslash, hcolon, htrailing, hcomps⟩
    have hsub : ∀ x ∈ p, x ∈ s := by
      rcases htrailing with rfl | rfl
      · exact fun x hx => hx
      · exact fun x hx => List.mem_append_left _ hx
    have hle : utf8Len p ≤ utf8Len s := by
      rcases htrailing with rfl | rfl
      · exact le_rfl
      · rw [utf8Len_append]
        exact Nat.le_add_right _ _
    have hv : ValidName p := validName_iff.mpr ⟨hle.trans hlen, mt (hsub _) hnul,
      mt (hsub _) hbackslash, mt (hsub _) hcolon, hcomps⟩
    exact ⟨(trimSlash_eq_iff hv).mpr htrailing, hlen, hv⟩
  · rintro ⟨htrim, hlen, hv⟩
    obtain ⟨-, hnul, hbackslash, hcolon, hcomps⟩ := validName_iff.mp hv
    have htrailing := (trimSlash_eq_iff hv).mp htrim
    have hchar : ∀ x : Char, x ≠ '/' → x ∉ p → x ∉ s := by
      intro x hx hp hs
      rcases htrailing with rfl | rfl
      · exact hp hs
      · simp [hx, hp] at hs
    exact ⟨hlen, hchar _ (by decide) hnul, hchar _ (by decide) hbackslash,
      hchar _ (by decide) hcolon, htrailing, hcomps⟩

end Names

/-- **`validate_entry_name` accepts its grammar**: a name is accepted as `p` exactly when it
names `p`. Then `p` has no `/` at either end, it is accepted again unchanged, and so is what
follows any `/` in it. -/
theorem validateEntryName_grammar (s p : Str) :
    (validateEntryName s = .ok p ↔ EntryName s p) ∧
    (validateEntryName s = .ok p →
      p.head? ≠ some '/' ∧ p.getLast? ≠ some '/' ∧ validateEntryName p = .ok p ∧
        ∀ lead q, p = lead ++ '/' :: q → validateEntryName q = .ok q) := by
  constructor
  · rw [validateEntryName_eq_ok, entryName_iff]
  · intro hok
    have hv := validName_of_ok hok
    refine ⟨hv.head_ne_slash, hv.last_ne_slash, hv.validate, ?_⟩
    rintro lead q rfl
    exact hv.of_append.validate

/-! ### Symlink targets -/

/-- The directories above a link. -/
def dirsAbove (link : Str) : List Str := (splitPath link).dropLast

/-- The components of a target that move. -/
def withoutDots (target : Str) : List Str := (splitPath target).filter (· ≠ ['.'])

/-- The target of the link at `link` leads to the path `resolved`: up at its front, and then
down. -/
structure LandsAt (link target : Str) (resolved : List Str) : Prop where
  relative : target.head? ≠ some '/'
  backslash : '\\' ∉ target
  colon : ':' ∉ target
  no_empty : [] ∉ splitPath target
  moves : withoutDots target ≠ []
  walk : ∃ k rest, withoutDots target = List.replicate k ['.', '.'] ++ rest ∧ ['.', '.'] ∉ rest ∧
    k ≤ (dirsAbove link).length ∧
    resolved = (dirsAbove link).take ((dirsAbove link).length - k) ++ rest

/-- The rule for targets, without the bound on what is split. -/
def Lands (link target : Str) : Prop :=
  ∃ resolved, LandsAt link target resolved ∧ resolved ≠ [] ∧
    utf8Len (joinPath resolved) ≤ maxRelBytes ∧ resolved.length ≤ maxDepth

section Symlinks

variable {link target : Str}

theorem rejectIf_eq_ok {bad : Prop} [Decidable bad] {reason : String} :
    rejectIf bad reason = .ok () ↔ ¬ bad := by
  unfold rejectIf
  by_cases h : bad <;> simp [h]

/-- A leading run is what `take_while` counts. -/
theorem leading_run {α : Type} [DecidableEq α] {a : α} {rest : List α} (k : Nat) (h : a ∉ rest) :
    ((List.replicate k a ++ rest).takeWhile (· = a)).length = k := by
  induction k with
  | zero =>
      cases rest with
      | nil => rfl
      | cons b rest =>
          have hb : b ≠ a := fun heq => h (heq ▸ List.mem_cons_self)
          simp [hb]
  | succ k ih => simpa [List.replicate_succ] using ih

/-- The run of `..` that a target begins with. -/
def leadingRun (target : Str) : Nat :=
  ((withoutDots target).takeWhile (· = ['.', '.'])).length

/-- **The clauses of `validate_symlink`.** -/
theorem validateSymlink_eq_ok (hlink : link ≠ []) :
    validateSymlink link target = .ok () ↔ utf8Len target ≤ maxTargetBytes ∧ Lands link target := by
  unfold validateSymlink
  simp only [rejectIf_bind_eq_ok, rejectIf_eq_ok, Nat.not_lt, not_or]
  constructor
  · rintro ⟨-, -, ⟨hrel, hbackslash, hcolon⟩, hlen, hempty, hmoves, hdots, hk, -, hroot, hbytes, hdepth⟩
    refine ⟨hlen, _, ⟨hrel, hbackslash, hcolon, hempty, hmoves, leadingRun target, _, ?_, hdots, hk, rfl⟩,
      hroot, hbytes, hdepth⟩
    exact (replicate_append_drop ['.', '.'] (withoutDots target)).symm
  · rintro ⟨hlen, resolved, ⟨hrel, hbackslash, hcolon, hempty, hmoves, k, rest, hrun, hdots, hk, rfl⟩,
      hroot, hbytes, hdepth⟩
    have htarget : target ≠ [] := by
      rintro rfl
      exact hempty (by simp [splitPath])
    have hcount : ((withoutDots target).takeWhile (· = ['.', '.'])).length = k := by
      rw [hrun]
      exact leading_run k hdots
    have hdrop : (withoutDots target).drop k = rest := by
      rw [hrun, List.drop_left' List.length_replicate]
    unfold withoutDots at hcount hdrop hmoves
    unfold dirsAbove at hk hroot hbytes hdepth
    rw [hcount, hdrop]
    exact ⟨hlink, htarget, ⟨hrel, hbackslash, hcolon⟩, hlen, hempty, hmoves, hdots, hk,
      Nat.sub_le _ _, hroot, hbytes, hdepth⟩

/-! #### Components that stay where they are -/

/-- `.` has no character of interest. -/
theorem mem_target_iff {x : Char} (hslash : x ≠ '/') (hdot : x ≠ '.') :
    x ∈ target ↔ ∃ c ∈ withoutDots target, x ∈ c := by
  rw [← joinPath_splitPath target, mem_joinPath hslash, joinPath_splitPath]
  constructor
  · rintro ⟨c, hc, hx⟩
    refine ⟨c, List.mem_filter.mpr ⟨hc, decide_eq_true ?_⟩, hx⟩
    rintro rfl
    exact hdot (List.mem_singleton.mp hx)
  · rintro ⟨c, hc, hx⟩
    exact ⟨c, List.mem_of_mem_filter hc, hx⟩

theorem empty_mem_iff : [] ∈ splitPath target ↔ [] ∈ withoutDots target := by
  simp [withoutDots]

/-- What begins with `/` has an empty component. -/
theorem head_ne_slash_of_no_empty (h : [] ∉ splitPath target) : target.head? ≠ some '/' := by
  intro hhead
  obtain ⟨rest, rfl⟩ := List.head?_eq_some_iff.mp hhead
  have hsplit : splitPath ([] ++ '/' :: rest) = splitPath [] ++ splitPath rest :=
    splitPath_append_slash [] rest
  rw [List.nil_append] at hsplit
  rw [hsplit] at h
  exact h (List.mem_append_left _ (by simp [splitPath]))

theorem LandsAt.congr {target' : Str} {resolved : List Str}
    (hsame : withoutDots target = withoutDots target') (h : LandsAt link target resolved) :
    LandsAt link target' resolved := by
  have hempty : [] ∉ splitPath target' := by
    rw [empty_mem_iff, ← hsame, ← empty_mem_iff]
    exact h.no_empty
  have hchar : ∀ x : Char, x ≠ '/' → x ≠ '.' → x ∉ target → x ∉ target' := by
    intro x hslash hdot hx
    rw [mem_target_iff hslash hdot, ← hsame, ← mem_target_iff hslash hdot]
    exact hx
  exact
    { relative := head_ne_slash_of_no_empty hempty
      backslash := hchar _ (by decide) (by decide) h.backslash
      colon := hchar _ (by decide) (by decide) h.colon
      no_empty := hempty
      moves := hsame ▸ h.moves
      walk := hsame ▸ h.walk }

/-- Where a target leads does not depend on its `.` components. -/
theorem lands_congr {target' : Str} (hsame : withoutDots target = withoutDots target') :
    Lands link target ↔ Lands link target' := by
  constructor
  · rintro ⟨resolved, hlands, hwithin⟩
    exact ⟨resolved, hlands.congr hsame, hwithin⟩
  · rintro ⟨resolved, hlands, hwithin⟩
    exact ⟨resolved, hlands.congr hsame.symm, hwithin⟩

/-! #### The bound on what is split -/

theorem utf8Len_slash (s : Str) : utf8Len ('/' :: s) = 1 + utf8Len s := utf8Len_append ['/'] s

/-- A path is no longer for its last components alone. -/
theorem utf8Len_joinPath_le (comps more : List Str) :
    utf8Len (joinPath more) ≤ utf8Len (joinPath (comps ++ more)) := by
  by_cases hcomps : comps = []
  · rw [hcomps, List.nil_append]
  · by_cases hmore : more = []
    · subst hmore
      exact Nat.zero_le _
    · rw [joinPath_append hcomps hmore, utf8Len_append, utf8Len_slash]
      omega

/-- Each `..` takes three bytes, its separator included. -/
theorem utf8Len_ups (k : Nat) (rest : List Str) :
    utf8Len (joinPath (List.replicate k ['.', '.'] ++ rest)) ≤ 3 * k + utf8Len (joinPath rest) := by
  have hdots : utf8Len ['.', '.'] = 2 := by decide
  induction k with
  | zero => simp
  | succ k ih =>
      rw [List.replicate_succ, List.cons_append]
      by_cases hlast : List.replicate k ['.', '.'] ++ rest = []
      · rw [hlast, joinPath, List.intercalate_singleton, hdots]
        omega
      · rw [joinPath_cons _ hlast, utf8Len_append, utf8Len_slash, hdots]
        omega

/-- **The bound is redundant** for a target without `.` components. -/
theorem Lands.within_bound (hv : ValidName link) (hdot : ['.'] ∉ splitPath target)
    (h : Lands link target) : utf8Len target ≤ maxTargetBytes := by
  obtain ⟨resolved, hlands, -, hbytes, -⟩ := h
  obtain ⟨k, rest, hrun, -, hk, rfl⟩ := hlands.walk
  have hall : withoutDots target = splitPath target := by
    refine List.filter_eq_self.mpr fun c hc => decide_eq_true ?_
    rintro rfl
    exact hdot hc
  have htarget : target = joinPath (List.replicate k ['.', '.'] ++ rest) := by
    rw [← hrun, hall, joinPath_splitPath]
  have hrest : utf8Len (joinPath rest) ≤ maxRelBytes :=
    (utf8Len_joinPath_le _ rest).trans hbytes
  have hdepth : k ≤ maxDepth := by
    have hdirs : (dirsAbove link).length ≤ (splitPath link).length := by
      rw [dirsAbove, List.length_dropLast]
      exact Nat.sub_le _ _
    exact hk.trans (hdirs.trans hv.depth)
  have hups : utf8Len (joinPath (List.replicate k ['.', '.'] ++ rest)) ≤
      3 * k + utf8Len (joinPath rest) := utf8Len_ups k rest
  rw [← htarget] at hups
  have hbound : maxTargetBytes = maxRelBytes + maxDepth * 3 := rfl
  omega

end Symlinks

/-- **`validate_symlink` accepts its rule**, for a link whose name was accepted, stripped or
not: within the bound on what is split, the targets that land inside; `.` components do not
change the verdict; and the bound refuses no target without them that lands inside. -/
theorem validateSymlink_rule {raw name link : Str} {strip : StripInfo}
    (hname : validateEntryName raw = .ok name) (hstrip : strippedRel name strip = some link) :
    (∀ target, validateSymlink link target = .ok () ↔
      utf8Len target ≤ maxTargetBytes ∧ Lands link target) ∧
    (∀ target target', withoutDots target = withoutDots target' →
      utf8Len target ≤ maxTargetBytes → utf8Len target' ≤ maxTargetBytes →
      (validateSymlink link target = .ok () ↔ validateSymlink link target' = .ok ())) ∧
    ∀ target, ['.'] ∉ splitPath target → Lands link target → utf8Len target ≤ maxTargetBytes := by
  have hv : ValidName link := strippedRel_valid (validName_of_ok hname) hstrip
  refine ⟨fun target => validateSymlink_eq_ok hv.ne_nil, ?_, ?_⟩
  · intro target target' hsame hlen hlen'
    rw [validateSymlink_eq_ok hv.ne_nil, validateSymlink_eq_ok hv.ne_nil, lands_congr hsame]
    simp only [hlen, hlen', true_and]
  · exact fun target hdot hlands => hlands.within_bound hv hdot

/-- A link below a root that is stripped, and two spellings of one target. -/
theorem validateSymlink_dotted :
    validateSymlink ['b', '/', 'l'] ['.', '/', 'x'] = .ok () ↔
      validateSymlink ['b', '/', 'l'] ['x'] = .ok () := by
  have hname : validateEntryName ['a', '/', 'b', '/', 'l'] = .ok ['a', '/', 'b', '/', 'l'] := by
    decide
  have hstrip : strippedRel ['a', '/', 'b', '/', 'l'] ⟨true, ['a']⟩ = some ['b', '/', 'l'] := by
    decide
  exact (validateSymlink_rule hname hstrip).2.1 _ _ (by decide) (by decide) (by decide)

end OpenVHost.Pkg
