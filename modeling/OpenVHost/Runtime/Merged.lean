/-
# What discovery finds

* `mem_discoverPackaged` — the package tree gives the majors whose `current` link selects
  an install.
* `mem_discoverBrew` — Homebrew gives a major the earliest prefix's first formula directory,
  an alias only where the prefix has no other.
* `discoveries_merge` — the runtimes that the walks over both sources return, and what they
  list as unidentified.
-/

import OpenVHost.Runtime.Discover

namespace OpenVHost.Runtime

open FileTree

namespace Engine

variable {ρ κ : Type} [DecidableEq κ] (E : Engine ρ κ) (t : Tree)

/-! ### What a merged result is -/

/-- A formula directory of a prefix holds the binaries and reports the major. -/
structure Reports (probe : Path → Option (List Char)) (pre dir : Path) (m : κ) : Prop where
  candidate : dir ∈ E.candidates t pre
  complete : E.complete t dir = true
  reported : E.reported t probe dir = some m

/-- The directory is the formula's unversioned name. -/
def unversioned (dir : Path) : Bool := dir.getLast? == some E.formula

/-- Where Homebrew's runtime of a major comes from. -/
structure FromHomebrew (prefixes : List Path) (probe : Path → Option (List Char)) (i : Nat)
    (pre dir : Path) (m : κ) : Prop where
  index : prefixes[i]? = some pre
  reports : E.Reports t probe pre dir m
  earliest : ∀ j pre', prefixes[j]? = some pre' → ∀ dir', E.Reports t probe pre' dir' m → i ≤ j
  versioned : E.unversioned dir = false → ∀ dir', E.Reports t probe pre dir' m →
    E.unversioned dir' = false → dir ≤ dir'
  unversioned : E.unversioned dir = true → ∀ dir', E.Reports t probe pre dir' m →
    E.unversioned dir' = true

/-- Where the runtime of a major comes from. -/
inductive Provided (root : PackagesRoot) (prefixes : List Path)
    (probe : Path → Option (List Char)) : ρ → Prop
  | packaged {m : κ} {rt : ρ} (h : E.packaged t root m = some rt) : Provided root prefixes probe rt
  | homebrew {m : κ} {i : Nat} {pre dir : Path} (hnone : E.packaged t root m = none)
      (h : E.FromHomebrew t prefixes probe i pre dir m) :
      Provided root prefixes probe (E.brew m dir)

/-- A directory that holds something that no runtime could be made of. -/
inductive Unidentified (root : PackagesRoot) (prefixes : List Path)
    (probe : Path → Option (List Char)) : Path → Prop
  | packaged {names : List Name} {m : κ} (hdir : t.readDir (root.asPath ++ [E.package]) = .ok names)
      (hmem : E.asStr m ∈ names) (hname : E.ofName (E.asStr m) = some m)
      (hnone : E.packaged t root m = none)
      (h : looksLikeABrokenInstall t (root.asPath ++ [E.package, E.asStr m]) = true) :
      Unidentified root prefixes probe (root.asPath ++ [E.package, E.asStr m])
  | homebrew {pre dir : Path} (hpre : pre ∈ prefixes) (hmem : dir ∈ E.candidates t pre)
      (hc : E.complete t dir = true) (hnone : E.reported t probe dir = none) :
      Unidentified root prefixes probe dir

/-- The result of merging two sources. -/
structure Merged (root : PackagesRoot) (prefixes : List Path)
    (probe : Path → Option (List Char)) (d : Discovery ρ) : Prop where
  ascending : d.runtimes.Pairwise fun a b => E.asStr (E.major a) < E.asStr (E.major b)
  runtimes : ∀ rt, rt ∈ d.runtimes ↔ E.Provided t root prefixes probe rt
  unidentified : ∀ dir, dir ∈ d.unidentified ↔ E.Unidentified t root prefixes probe dir
  /-- No formula directory with the binaries goes unmentioned. -/
  mentioned : ∀ pre ∈ prefixes, ∀ dir ∈ E.candidates t pre, E.complete t dir = true →
    (∃ rt ∈ d.runtimes, E.reported t probe dir = some (E.major rt)) ∨ dir ∈ d.unidentified

/-! ### The package tree -/

section Packaged

variable (root : PackagesRoot)

def packagedOf (name : Name) : Option ρ := (E.ofName name).bind (E.packaged t root)

def brokenOf (name : Name) : Option Path :=
  if (E.ofName name).any (fun m => (E.packaged t root m).isNone) &&
      looksLikeABrokenInstall t (root.asPath ++ [E.package, name])
  then some (root.asPath ++ [E.package, name]) else none

omit [DecidableEq κ] in
theorem visitMajor_eq (d : Discovery ρ) (name : Name) :
    E.visitMajor t root d name = ⟨d.runtimes ++ (E.packagedOf t root name).toList,
      d.unidentified ++ (E.brokenOf t root name).toList⟩ := by
  unfold visitMajor packagedOf brokenOf
  cases hm : E.ofName name with
  | none => simp
  | some m =>
      cases hp : E.packaged t root m with
      | some rt => simp [hp]
      | none =>
          cases hb : looksLikeABrokenInstall t (root.asPath ++ [E.package, name]) <;>
            simp [hp, hb]

omit [DecidableEq κ] in
theorem foldl_visitMajor (names : List Name) : ∀ d : Discovery ρ,
    names.foldl (E.visitMajor t root) d =
      ⟨d.runtimes ++ names.filterMap (E.packagedOf t root),
        d.unidentified ++ names.filterMap (E.brokenOf t root)⟩ := by
  induction names with
  | nil => simp
  | cons name names ih =>
      intro d
      rw [List.foldl_cons, ih, visitMajor_eq]
      congr 1
      · cases h : E.packagedOf t root name <;> simp [h]
      · cases h : E.brokenOf t root name <;> simp [h]

omit [DecidableEq κ] in
theorem mem_candidates {pre dir : Path} :
    dir ∈ E.candidates t pre ↔ ∃ name, E.isFormula name = true ∧
      (∃ names, t.readDir (pre ++ ["opt".toList]) = .ok names ∧ name ∈ names) ∧
      dir = pre ++ ["opt".toList, name] := by
  unfold candidates
  cases t.readDir (pre ++ ["opt".toList]) with
  | error e => simp
  | ok names =>
      dsimp only
      rw [sortPaths, (List.perm_insertionSort _ _).mem_iff, List.mem_map]
      constructor
      · rintro ⟨name, hname, rfl⟩
        obtain ⟨hmem, hformula⟩ := List.mem_filter.mp hname
        exact ⟨name, hformula, ⟨names, rfl, hmem⟩, rfl⟩
      · rintro ⟨name, hformula, ⟨names', hnames, hmem⟩, rfl⟩
        cases hnames
        exact ⟨name, List.mem_filter.mpr ⟨hmem, hformula⟩, rfl⟩

theorem mem_sortNames {name : Name} {names : List Name} :
    name ∈ sortNames names ↔ name ∈ names :=
  (List.perm_insertionSort _ names).mem_iff

omit [DecidableEq κ] in
/-- The package tree gives the majors whose `current` link selects an install. -/
theorem mem_discoverPackaged {rt : ρ} :
    rt ∈ (E.discoverPackaged t root).runtimes ↔ ∃ m, E.packaged t root m = some rt := by
  constructor
  · intro h
    unfold discoverPackaged at h
    split at h
    · cases h
    · rw [foldl_visitMajor] at h
      obtain ⟨name, -, hname⟩ := List.mem_filterMap.mp (by simpa using h)
      obtain ⟨m, -, hm⟩ := Option.bind_eq_some_iff.mp hname
      exact ⟨m, hm⟩
  · rintro ⟨m, hm⟩
    obtain ⟨hname, names, hnames, hmem⟩ := E.listed hm
    rw [discoverPackaged, hnames]
    dsimp only
    rw [foldl_visitMajor]
    refine List.mem_append_right _ (List.mem_filterMap.mpr ⟨E.asStr m, mem_sortNames.mpr hmem, ?_⟩)
    rw [packagedOf, hname]
    exact hm

omit [DecidableEq κ] in
theorem nodup_discoverPackaged :
    ((E.discoverPackaged t root).runtimes.map E.major).Nodup := by
  unfold discoverPackaged
  split
  · exact List.nodup_nil
  next names hnames =>
    rw [foldl_visitMajor, List.nil_append, List.Nodup, List.pairwise_map, List.pairwise_filterMap]
    have hn : (sortNames names).Nodup :=
      (List.perm_insertionSort _ names).nodup_iff.mpr (Tree.nodup_of_readDir hnames)
    refine hn.imp fun {a b} hab rt hrt rt' hrt' heq => hab ?_
    -- the major of a runtime spells the name it was found under
    obtain ⟨m, hm, hp⟩ := Option.bind_eq_some_iff.mp hrt
    obtain ⟨m', hm', hp'⟩ := Option.bind_eq_some_iff.mp hrt'
    rw [← E.asStr_of_ofName hm, ← E.asStr_of_ofName hm', ← E.major_packaged hp, heq,
      E.major_packaged hp']

omit [DecidableEq κ] in
theorem mem_unidentified_packaged {dir : Path} :
    dir ∈ (E.discoverPackaged t root).unidentified ↔
      ∃ names m, t.readDir (root.asPath ++ [E.package]) = .ok names ∧ E.asStr m ∈ names ∧
        E.ofName (E.asStr m) = some m ∧ E.packaged t root m = none ∧
        looksLikeABrokenInstall t (root.asPath ++ [E.package, E.asStr m]) = true ∧
        dir = root.asPath ++ [E.package, E.asStr m] := by
  unfold discoverPackaged
  cases hdir : t.readDir (root.asPath ++ [E.package]) with
  | error e => simp
  | ok names =>
      simp only [foldl_visitMajor, List.nil_append, List.mem_filterMap, mem_sortNames]
      constructor
      · rintro ⟨name, hname, h⟩
        unfold brokenOf at h
        split at h
        next hc =>
          obtain ⟨hany, hb⟩ := Bool.and_eq_true_iff.mp hc
          obtain ⟨m, hm, hp⟩ := (Option.any_eq_true _ _).mp hany
          have heq := E.asStr_of_ofName hm
          subst heq
          cases h
          exact ⟨names, m, rfl, hname, hm, Option.isNone_iff_eq_none.mp hp, hb, rfl⟩
        next => cases h
      · rintro ⟨names', m, hnames, hmem, hname, hp, hb, rfl⟩
        cases hnames
        exact ⟨E.asStr m, hmem, by simp [brokenOf, hname, hp, hb]⟩

end Packaged

/-! ### The Homebrew prefixes -/

section Homebrew

variable (prefixes : List Path) (probe : Path → Option (List Char))

/-- The formula directories in the order of the walk, each with its prefix's index. -/
def visited : List (Nat × Path) :=
  prefixes.zipIdx.flatMap fun (pre, i) => (E.candidates t pre).map fun dir => (i, dir)

def report (e : Nat × Path) : Option (κ × (Nat × Path)) :=
  if E.complete t e.2 then (E.reported t probe e.2).map fun m => (m, e) else none

def unread (e : Nat × Path) : Option Path :=
  if E.complete t e.2 && (E.reported t probe e.2).isNone then some e.2 else none

def key (known : Nat × ρ) : κ := E.major known.2

def update (_ : κ) (e : Nat × Path) (known : Nat × ρ) : Nat × ρ := E.override e.1 e.2 known

def fresh (m : κ) (e : Nat × Path) : Nat × ρ := (e.1, E.brew m e.2)

/-- The found runtimes after one more report. -/
def add (found : List (Nat × ρ)) (r : κ × (Nat × Path)) : List (Nat × ρ) :=
  Merge.place E.key (E.update r.1 r.2) (E.fresh r.1 r.2) r.1 found

omit [DecidableEq κ] in
theorem key_fresh (m : κ) (e : Nat × Path) : E.key (E.fresh m e) = m := E.major_brew m e.2

omit [DecidableEq κ] in
theorem key_update (m : κ) (e : Nat × Path) (known : Nat × ρ) :
    E.key (E.update m e known) = E.key known := by
  unfold key update override
  split
  · exact E.major_rebind _ _
  · rfl

theorem visit_eq (w : Walk ρ) (e : Nat × Path) :
    E.visit t probe e.1 w e.2 = ⟨(E.report t probe e).toList.foldl E.add w.found,
      w.unidentified ++ (E.unread t probe e).toList⟩ := by
  unfold visit report unread
  cases hc : E.complete t e.2 with
  | false => simp
  | true =>
      cases hr : E.reported t probe e.2 with
      | none => simp
      | some m =>
          have hadd : Merge.place (fun known => E.major known.2) (E.override e.1 e.2)
              (e.1, E.brew m e.2) m w.found = E.add w.found (m, e) := rfl
          simp [hadd]

theorem foldl_visit (es : List (Nat × Path)) : ∀ w : Walk ρ,
    es.foldl (fun w e => E.visit t probe e.1 w e.2) w =
      ⟨(es.filterMap (E.report t probe)).foldl E.add w.found,
        w.unidentified ++ es.filterMap (E.unread t probe)⟩ := by
  induction es with
  | nil => simp
  | cons e es ih =>
      intro w
      rw [List.foldl_cons, ih, visit_eq]
      congr 1
      · cases h : E.report t probe e <;> simp [h]
      · cases h : E.unread t probe e <;> simp [h]

/-- The found runtimes of the whole walk. -/
def foundIn : List (Nat × ρ) :=
  ((E.visited t prefixes).filterMap (E.report t probe)).foldl E.add []

theorem discoverBrew_eq :
    E.discoverBrew t prefixes probe =
      ⟨E.sortRuntimes ((E.foundIn t prefixes probe).map Prod.snd),
        (E.visited t prefixes).filterMap (E.unread t probe)⟩ := by
  have hwalk : prefixes.zipIdx.foldl
      (fun w (pre, i) => (E.candidates t pre).foldl (E.visit t probe i) w) (⟨[], []⟩ : Walk ρ) =
      (E.visited t prefixes).foldl (fun w e => E.visit t probe e.1 w e.2) ⟨[], []⟩ := by
    rw [visited, List.foldl_flatMap]
    simp only [List.foldl_map]
  rw [discoverBrew, hwalk, foldl_visit]
  rfl

omit [DecidableEq κ] in
theorem mem_visited {e : Nat × Path} :
    e ∈ E.visited t prefixes ↔ ∃ pre, prefixes[e.1]? = some pre ∧ e.2 ∈ E.candidates t pre := by
  unfold visited
  rw [List.mem_flatMap]
  constructor
  · rintro ⟨⟨pre, i⟩, hpre, he⟩
    obtain ⟨dir, hdir, rfl⟩ := List.mem_map.mp he
    exact ⟨pre, List.mem_zipIdx_iff_getElem?.mp hpre, hdir⟩
  · rintro ⟨pre, hpre, hdir⟩
    exact ⟨(pre, e.1), List.mem_zipIdx_iff_getElem?.mpr hpre, List.mem_map.mpr ⟨e.2, hdir, rfl⟩⟩

theorem pairwise_sortPaths (paths : List Path) : (sortPaths paths).Pairwise (· ≤ ·) := by
  have : Std.Total fun a b : Path => a ≤ b := ⟨fun a b => le_total _ _⟩
  have : IsTrans Path fun a b => a ≤ b := ⟨fun a b c => le_trans⟩
  exact List.pairwise_insertionSort _ _

omit [DecidableEq κ] in
theorem pairwise_candidates (pre : Path) : (E.candidates t pre).Pairwise (· ≤ ·) := by
  unfold candidates
  split
  · exact List.Pairwise.nil
  · exact pairwise_sortPaths _

omit [DecidableEq κ] in
theorem ordered_visited : Merge.Ordered (· ≤ ·) (E.visited t prefixes) := by
  have hidx : prefixes.zipIdx.Pairwise fun a b => a.2 < b.2 := by
    rw [← List.pairwise_map (f := Prod.snd), List.zipIdx_map_snd]
    exact List.pairwise_lt_range'
  unfold Merge.Ordered visited
  rw [List.pairwise_flatMap]
  constructor
  · intro (pre, i) _
    rw [List.pairwise_map]
    exact (E.pairwise_candidates t pre).imp fun h => .inr ⟨rfl, h⟩
  · refine hidx.imp fun {a b} hab x hx y hy => .inl ?_
    obtain ⟨dir, -, rfl⟩ := List.mem_map.mp hx
    obtain ⟨dir', -, rfl⟩ := List.mem_map.mp hy
    exact hab

/-- The formula directories that report a major, in the order of the walk. -/
def reporting (m : κ) : List (Nat × Path) :=
  (E.visited t prefixes).filter fun e =>
    E.complete t e.2 && decide (E.reported t probe e.2 = some m)

theorem reporting_eq (m : κ) (es : List (Nat × Path)) :
    (((es.filterMap (E.report t probe)).filter fun r => decide (r.1 = m)).map Prod.snd) =
      es.filter fun e => E.complete t e.2 && decide (E.reported t probe e.2 = some m) := by
  induction es with
  | nil => rfl
  | cons e es ih =>
      cases hc : E.complete t e.2 with
      | false => simpa [report, hc] using ih
      | true =>
          cases hr : E.reported t probe e.2 with
          | none => simpa [report, hc, hr] using ih
          | some m' =>
              by_cases hm : m' = m
              · simpa [report, hc, hr, hm] using ih
              · simpa [report, hc, hr, hm] using ih

theorem mem_reporting {m : κ} {e : Nat × Path} :
    e ∈ E.reporting t prefixes probe m ↔
      ∃ pre, prefixes[e.1]? = some pre ∧ E.Reports t probe pre e.2 m := by
  rw [reporting, List.mem_filter, mem_visited]
  constructor
  · rintro ⟨⟨pre, hpre, hdir⟩, h⟩
    obtain ⟨hc, hr⟩ : E.complete t e.2 = true ∧ E.reported t probe e.2 = some m := by
      simpa using h
    exact ⟨pre, hpre, hdir, hc, hr⟩
  · rintro ⟨pre, hpre, hdir, hc, hr⟩
    exact ⟨⟨pre, hpre, hdir⟩, by simp [hc, hr]⟩

omit [DecidableEq κ] in
theorem update_fresh (m : κ) (held e : Nat × Path) :
    E.update m e (E.fresh m held) = E.fresh m (Merge.turn E.unversioned held e) := by
  unfold update fresh override Merge.turn isAlias unversioned
  simp only [E.dir_of_bin, E.rebind_brew]
  split <;> rfl

omit [DecidableEq κ] in
/-- What the reports of one major make of its entry. -/
theorem foldl_arrive (m : κ) (es : List (Nat × Path)) : ∀ held : Nat × Path,
    es.foldl (Merge.arrive E.update E.fresh m) (some (E.fresh m held)) =
      some (E.fresh m (es.foldl (Merge.turn E.unversioned) held)) := by
  induction es with
  | nil => exact fun held => rfl
  | cons e es ih =>
      intro held
      have hstep : Merge.arrive E.update E.fresh m (some (E.fresh m held)) e =
          some (E.fresh m (Merge.turn E.unversioned held e)) :=
        congrArg some (E.update_fresh m held e)
      rw [List.foldl_cons, hstep, ih]
      rfl

theorem nodup_foundIn : ((E.foundIn t prefixes probe).map E.key).Nodup :=
  Merge.nodup_foldl_place E.key_fresh E.key_update _ (by simp)

/-- The entry of a major is made of the best of its reports. -/
theorem entry_foundIn (m : κ) :
    (E.reporting t prefixes probe m = [] ∧
      Merge.entry E.key m (E.foundIn t prefixes probe) = none) ∨
    ∃ e, Merge.Best E.unversioned (· ≤ ·) (E.reporting t prefixes probe m) e ∧
      Merge.entry E.key m (E.foundIn t prefixes probe) = some (E.fresh m e) := by
  have hentry : Merge.entry E.key m (E.foundIn t prefixes probe) =
      (E.reporting t prefixes probe m).foldl (Merge.arrive E.update E.fresh m) none := by
    have h := Merge.entry_foldl_place E.key_fresh E.key_update m
      ((E.visited t prefixes).filterMap (E.report t probe)) []
    rw [reporting_eq] at h
    exact h
  rw [hentry]
  have hord : Merge.Ordered (· ≤ ·) (E.reporting t prefixes probe m) :=
    (E.ordered_visited t prefixes).filter _
  cases hown : E.reporting t prefixes probe m with
  | nil => exact .inl ⟨rfl, rfl⟩
  | cons e es =>
      rw [hown] at hord
      exact .inr ⟨_, Merge.best_of_cons (fun d => le_refl d) hord, E.foldl_arrive m es e⟩

theorem fromHomebrew_iff {m : κ} {e : Nat × Path} :
    Merge.Best E.unversioned (· ≤ ·) (E.reporting t prefixes probe m) e ↔
      ∃ pre, E.FromHomebrew t prefixes probe e.1 pre e.2 m := by
  constructor
  · intro h
    obtain ⟨pre, hpre, hrep⟩ := (E.mem_reporting t prefixes probe).mp h.mem
    refine ⟨pre, hpre, hrep, fun j pre' hpre' dir' hdir' => ?_, fun hu dir' hdir' => ?_,
      fun hu dir' hdir' => ?_⟩
    · exact h.earliest (j, dir') ((E.mem_reporting t prefixes probe).mpr ⟨pre', hpre', hdir'⟩)
    · exact h.plain hu (e.1, dir') ((E.mem_reporting t prefixes probe).mpr ⟨pre, hpre, hdir'⟩) rfl
    · exact h.standIn hu (e.1, dir') ((E.mem_reporting t prefixes probe).mpr ⟨pre, hpre, hdir'⟩)
        rfl
  · rintro ⟨pre, h⟩
    refine ⟨(E.mem_reporting t prefixes probe).mpr ⟨pre, h.index, h.reports⟩, fun c hc => ?_,
      fun hu c hc hi => ?_, fun hu c hc hi => ?_⟩
    · obtain ⟨pre', hpre', hrep⟩ := (E.mem_reporting t prefixes probe).mp hc
      exact h.earliest c.1 pre' hpre' c.2 hrep
    · obtain ⟨pre', hpre', hrep⟩ := (E.mem_reporting t prefixes probe).mp hc
      rw [hi, h.index] at hpre'
      cases hpre'
      exact h.versioned hu c.2 hrep
    · obtain ⟨pre', hpre', hrep⟩ := (E.mem_reporting t prefixes probe).mp hc
      rw [hi, h.index] at hpre'
      cases hpre'
      exact h.unversioned hu c.2 hrep

omit [DecidableEq κ] in
/-- A prefix has at most one formula directory of the unversioned name. -/
theorem candidates_unversioned {pre dir dir' : Path} (h : dir ∈ E.candidates t pre)
    (h' : dir' ∈ E.candidates t pre) (hu : E.unversioned dir = true)
    (hu' : E.unversioned dir' = true) : dir = dir' := by
  obtain ⟨name, -, -, rfl⟩ := (E.mem_candidates t).mp h
  obtain ⟨name', -, -, rfl⟩ := (E.mem_candidates t).mp h'
  have hname : name = E.formula := by simpa [unversioned] using hu
  have hname' : name' = E.formula := by simpa [unversioned] using hu'
  rw [hname, hname']

omit [DecidableEq κ] in
/-- Homebrew has one place for a major. -/
theorem FromHomebrew.unique {i i' : Nat} {pre pre' dir dir' : Path} {m : κ}
    (h : E.FromHomebrew t prefixes probe i pre dir m)
    (h' : E.FromHomebrew t prefixes probe i' pre' dir' m) : i = i' ∧ dir = dir' := by
  have hi : i = i' := Nat.le_antisymm (h.earliest i' pre' h'.index dir' h'.reports)
    (h'.earliest i pre h.index dir h.reports)
  subst hi
  obtain rfl : pre = pre' := Option.some.inj (h.index.symm.trans h'.index)
  refine ⟨rfl, ?_⟩
  cases hu : E.unversioned dir with
  | true =>
      exact E.candidates_unversioned t h.reports.candidate h'.reports.candidate hu
        (h.unversioned hu dir' h'.reports)
  | false =>
      cases hu' : E.unversioned dir' with
      | true =>
          rw [h'.unversioned hu' dir h.reports] at hu
          cases hu
      | false =>
          exact le_antisymm (h.versioned hu dir' h'.reports hu')
            (h'.versioned hu' dir h.reports hu)

omit [DecidableEq κ] in
theorem mem_sortRuntimes {rt : ρ} {runtimes : List ρ} :
    rt ∈ E.sortRuntimes runtimes ↔ rt ∈ runtimes :=
  (List.perm_insertionSort _ runtimes).mem_iff

theorem mem_discoverBrew {rt : ρ} :
    rt ∈ (E.discoverBrew t prefixes probe).runtimes ↔
      ∃ m i pre dir, E.FromHomebrew t prefixes probe i pre dir m ∧ rt = E.brew m dir := by
  rw [discoverBrew_eq, mem_sortRuntimes, List.mem_map]
  constructor
  · rintro ⟨known, hknown, rfl⟩
    have hentry := (Merge.entry_eq_some (E.nodup_foundIn t prefixes probe)).mpr ⟨hknown, rfl⟩
    rcases E.entry_foundIn t prefixes probe (E.key known) with ⟨-, hnone⟩ | ⟨e, hbest, he⟩
    · rw [hnone] at hentry
      cases hentry
    · obtain ⟨pre, h⟩ := (E.fromHomebrew_iff t prefixes probe).mp hbest
      rw [he] at hentry
      refine ⟨E.key known, e.1, pre, e.2, h, ?_⟩
      exact congrArg Prod.snd (Option.some.inj hentry).symm
  · rintro ⟨m, i, pre, dir, h, rfl⟩
    have hbest := (E.fromHomebrew_iff t prefixes probe (e := (i, dir))).mpr ⟨pre, h⟩
    rcases E.entry_foundIn t prefixes probe m with ⟨hnil, -⟩ | ⟨e, hbest', he⟩
    · have hmem := hbest.mem
      rw [hnil] at hmem
      cases hmem
    · obtain ⟨pre', h'⟩ := (E.fromHomebrew_iff t prefixes probe).mp hbest'
      obtain ⟨-, rfl⟩ := h.unique E t prefixes probe h'
      exact ⟨_, ((Merge.entry_eq_some (E.nodup_foundIn t prefixes probe)).mp he).1, rfl⟩

theorem nodup_discoverBrew :
    ((E.discoverBrew t prefixes probe).runtimes.map E.major).Nodup := by
  rw [discoverBrew_eq]
  have hperm : (E.sortRuntimes ((E.foundIn t prefixes probe).map Prod.snd)).Perm _ :=
    List.perm_insertionSort _ _
  rw [(hperm.map E.major).nodup_iff, List.map_map]
  exact E.nodup_foundIn t prefixes probe

/-- Each formula directory with the binaries is reported or listed. -/
theorem mem_unidentified_brew {dir : Path} :
    dir ∈ (E.discoverBrew t prefixes probe).unidentified ↔
      ∃ pre ∈ prefixes, dir ∈ E.candidates t pre ∧ E.complete t dir = true ∧
        E.reported t probe dir = none := by
  rw [discoverBrew_eq, List.mem_filterMap]
  constructor
  · rintro ⟨e, he, h⟩
    obtain ⟨pre, hpre, hdir⟩ := (E.mem_visited t prefixes).mp he
    unfold unread at h
    split at h
    next hc =>
      cases h
      obtain ⟨hc, hr⟩ := Bool.and_eq_true_iff.mp hc
      exact ⟨pre, List.mem_of_getElem? hpre, hdir, hc, Option.isNone_iff_eq_none.mp hr⟩
    next => cases h
  · rintro ⟨pre, hpre, hdir, hc, hr⟩
    obtain ⟨i, hi⟩ := List.mem_iff_getElem?.mp hpre
    exact ⟨(i, dir), (E.mem_visited t prefixes).mpr ⟨pre, hi, hdir⟩, by simp [unread, hc, hr]⟩

/-- A major that is reported has a place. -/
theorem exists_fromHomebrew {m : κ} {pre dir : Path} (hpre : pre ∈ prefixes)
    (h : E.Reports t probe pre dir m) :
    ∃ i pre' dir', E.FromHomebrew t prefixes probe i pre' dir' m := by
  obtain ⟨i, hi⟩ := List.mem_iff_getElem?.mp hpre
  have hmem : (i, dir) ∈ E.reporting t prefixes probe m :=
    (E.mem_reporting t prefixes probe).mpr ⟨pre, hi, h⟩
  rcases E.entry_foundIn t prefixes probe m with ⟨hnil, -⟩ | ⟨e, hbest, -⟩
  · rw [hnil] at hmem
    cases hmem
  · obtain ⟨pre', h'⟩ := (E.fromHomebrew_iff t prefixes probe).mp hbest
    exact ⟨e.1, pre', e.2, h'⟩

end Homebrew

/-! ### Both sources -/

section Both

variable (root : PackagesRoot) (prefixes : List Path) (probe : Path → Option (List Char))

theorem mem_discover {rt : ρ} :
    rt ∈ (E.discover t root prefixes probe).runtimes ↔ E.Provided t root prefixes probe rt := by
  have hkeys : E.major rt ∈ (E.discoverPackaged t root).runtimes.map E.major ↔
      (E.packaged t root (E.major rt)).isSome := by
    constructor
    · intro h
      obtain ⟨rt', hrt', heq⟩ := List.mem_map.mp h
      obtain ⟨m, hm⟩ := (E.mem_discoverPackaged t root).mp hrt'
      rw [← heq, E.major_packaged hm, hm]
      rfl
    · intro h
      obtain ⟨rt', hrt'⟩ := Option.isSome_iff_exists.mp h
      exact List.mem_map.mpr ⟨rt', (E.mem_discoverPackaged t root).mpr ⟨_, hrt'⟩,
        E.major_packaged hrt'⟩
  unfold discover
  dsimp only
  rw [mem_sortRuntimes, Merge.mem_foldl_addMissing _ (E.nodup_discoverBrew t prefixes probe),
    hkeys, mem_discoverPackaged, mem_discoverBrew]
  constructor
  · rintro (⟨m, hm⟩ | ⟨⟨m, i, pre, dir, h, rfl⟩, hk⟩)
    · exact .packaged hm
    · rw [E.major_brew] at hk
      exact .homebrew (Option.not_isSome_iff_eq_none.mp hk) h
  · intro h
    cases h with
    | packaged hm => exact .inl ⟨_, hm⟩
    | homebrew hnone h =>
        refine .inr ⟨⟨_, _, _, _, h, rfl⟩, ?_⟩
        rw [E.major_brew, hnone]
        simp

theorem ascending_discover :
    (E.discover t root prefixes probe).runtimes.Pairwise
      fun a b => E.asStr (E.major a) < E.asStr (E.major b) := by
  unfold discover
  dsimp only
  set merged := (E.discoverBrew t prefixes probe).runtimes.foldl (Merge.addMissing E.major)
    (E.discoverPackaged t root).runtimes
  have hnodup : (merged.map E.major).Nodup :=
    Merge.nodup_foldl_addMissing _ (E.nodup_discoverPackaged t root)
  have hperm : (E.sortRuntimes merged).Perm merged := List.perm_insertionSort _ _
  have hle : (E.sortRuntimes merged).Pairwise
      fun a b => E.asStr (E.major a) ≤ E.asStr (E.major b) := by
    have : Std.Total fun a b : ρ => E.asStr (E.major a) ≤ E.asStr (E.major b) :=
      ⟨fun a b => le_total _ _⟩
    have : IsTrans ρ fun a b => E.asStr (E.major a) ≤ E.asStr (E.major b) :=
      ⟨fun a b c => le_trans⟩
    exact List.pairwise_insertionSort _ _
  have hne := List.pairwise_map.mp ((hperm.map E.major).nodup_iff.mpr hnodup)
  refine (hle.and hne).imp fun {a b} h => ?_
  by_contra hlt
  exact h.2 (E.asStr_inj (le_antisymm h.1 (not_lt.mp hlt)))

/-- **The result of discovery.** -/
theorem merged_discover :
    E.Merged t root prefixes probe (E.discover t root prefixes probe) where
  ascending := E.ascending_discover t root prefixes probe
  runtimes _ := E.mem_discover t root prefixes probe
  unidentified dir := by
    unfold discover
    rw [List.mem_append, mem_unidentified_packaged, mem_unidentified_brew]
    constructor
    · rintro (⟨names, m, hdir, hmem, hname, hnone, hb, rfl⟩ | ⟨pre, hpre, hdir, hc, hr⟩)
      · exact .packaged hdir hmem hname hnone hb
      · exact .homebrew hpre hdir hc hr
    · intro h
      cases h with
      | packaged hdir hmem hname hnone hb => exact .inl ⟨_, _, hdir, hmem, hname, hnone, hb, rfl⟩
      | homebrew hpre hdir hc hr => exact .inr ⟨_, hpre, hdir, hc, hr⟩
  mentioned pre hpre dir hdir hc := by
    cases hr : E.reported t probe dir with
    | none =>
        refine .inr (List.mem_append_right _ ?_)
        exact (E.mem_unidentified_brew t prefixes probe).mpr ⟨pre, hpre, hdir, hc, hr⟩
    | some m =>
        left
        cases hp : E.packaged t root m with
        | some rt =>
            exact ⟨rt, (E.mem_discover t root prefixes probe).mpr (.packaged hp),
              congrArg some (E.major_packaged hp).symm⟩
        | none =>
            obtain ⟨i, pre', dir', h⟩ := E.exists_fromHomebrew t prefixes probe hpre ⟨hdir, hc, hr⟩
            exact ⟨E.brew m dir', (E.mem_discover t root prefixes probe).mpr (.homebrew hp h),
              congrArg some (E.major_brew m dir').symm⟩

end Both

end Engine

/-- **Discovery merges its two sources**, for PHP and for MySQL. -/
theorem discoveries_merge (t : Tree) (root : PackagesRoot) (prefixes : List Path)
    (probe : Path → Option (List Char)) :
    Php.phpEngine.Merged t root prefixes probe (Php.discoverPhp t root prefixes probe) ∧
    Mysql.mysqlEngine.Merged t root prefixes probe (Mysql.discoverMysql t root prefixes probe) :=
  ⟨Php.phpEngine.merged_discover t root prefixes probe,
    Mysql.mysqlEngine.merged_discover t root prefixes probe⟩

end OpenVHost.Runtime
