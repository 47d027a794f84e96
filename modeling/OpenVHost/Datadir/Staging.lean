/-
# What staging can lose

* `isStaleStagingName_stagingName`, `not_staging_of_shape` — a staged name has the staging
  shape, and no major has it.
* `wp_sweepStaleStaging`, `wp_removeStagingDir` — a clean-up takes real directories of the
  staging shape, with what is in them.
* `wp_finalize` — a finalization that fails has deleted clutter at most; one that succeeds
  has moved an initialized directory to where there was nothing but clutter.
-/

import OpenVHost.Datadir.Model

namespace OpenVHost.Datadir

open FileTree FileTree.Io
open OpenVHost.Runtime (digits majorMinorShape majorMinor_of_shape not_mem_of_digits
  not_special_of_shape)
open OpenVHost.Runtime.Mysql (MysqlMajor)

/-! ### Names -/

theorem span_append {p : Char → Bool} {s : List Char} {c : Char} (rest : List Char)
    (hs : ∀ x ∈ s, p x = true) (hc : p c = false) : (s ++ c :: rest).span p = (s, c :: rest) := by
  rw [List.span_eq_takeWhile_dropWhile, List.takeWhile_append_of_pos hs,
    List.dropWhile_append_of_pos hs]
  simp [hc]

theorem splitn_three {p₁ p₂ : List Char} (rest : List Char) (h₁ : '-' ∉ p₁) (h₂ : '-' ∉ p₂) :
    splitn '-' 3 (p₁ ++ '-' :: (p₂ ++ '-' :: rest)) = [p₁, p₂, rest] := by
  have hspan : ∀ {p : List Char} (more : List Char), '-' ∉ p →
      (p ++ '-' :: more).span (· != '-') = (p, '-' :: more) := fun more hp =>
    span_append more (fun x hx => bne_iff_ne.mpr fun h => hp (h ▸ hx)) (by decide)
  simp only [splitn, hspan _ h₁, hspan _ h₂]

/-- **What the path builders name has the staging shape.** -/
theorem isStaleStagingName_stagingName {major : Name} (h : majorMinorShape major = true)
    (suffix : UuidHex) : isStaleStagingName (stagingName major suffix) = true := by
  obtain ⟨p₁, p₂, h₁, h₂, rfl⟩ := majorMinor_of_shape h
  have hkeep : ∀ {p : List Char}, digits p = true →
      p.map (fun c => if c = '.' then '-' else c) = p := by
    intro p hp
    refine (List.map_congr_left fun c hc => ?_).trans (List.map_id p)
    have hne : c ≠ '.' := by
      rintro rfl
      exact not_mem_of_digits hp (by decide) hc
    exact if_neg hne
  have hsuffix : suffix.chars ≠ [] := by
    intro hnil
    have := suffix.length
    rw [hnil] at this
    cases this
  have hname : stagingName (p₁ ++ '.' :: p₂) suffix =
      "init-".toList ++ (p₁ ++ '-' :: (p₂ ++ '-' :: suffix.chars)) := by
    simp [stagingName, hkeep h₁, hkeep h₂]
  have hmajor : MysqlMajor.fromProbe (p₁ ++ '.' :: p₂) = some ⟨p₁ ++ '.' :: p₂, h⟩ := dif_pos h
  have hpre : ∀ rest : Name, "init-".toList.isPrefixOf? ("init-".toList ++ rest) = some rest := by
    intro rest
    show ['i', 'n', 'i', 't', '-'].isPrefixOf? ('i' :: 'n' :: 'i' :: 't' :: '-' :: rest) = _
    simp [List.isPrefixOf?]
  unfold isStaleStagingName
  rw [hname, hpre]
  dsimp only
  rw [splitn_three _ (not_mem_of_digits h₁ (by decide)) (not_mem_of_digits h₂ (by decide))]
  simpa [hmajor] using hsuffix

/-- **No major has the staging shape.** -/
theorem not_staging_of_shape {major : Name} (h : majorMinorShape major = true) :
    isStaleStagingName major = false := by
  obtain ⟨p₁, p₂, h₁, -, rfl⟩ := majorMinor_of_shape h
  cases p₁ with
  | nil => cases h₁
  | cons c p₁ =>
      have hc : c ≠ 'i' := by
        rintro rfl
        exact not_mem_of_digits h₁ (by decide) List.mem_cons_self
      have hpre : "init-".toList.isPrefixOf? (c :: p₁ ++ '.' :: p₂) = none := by
        show ('i' :: "nit-".toList).isPrefixOf? (c :: (p₁ ++ '.' :: p₂)) = none
        simp [List.isPrefixOf?, hc.symm]
      unfold isStaleStagingName
      rw [hpre]

theorem not_special_of_staging {name : Name} (h : isStaleStagingName name = true) :
    special name = false := by
  rw [special_eq_false]
  refine ⟨?_, ?_, ?_⟩ <;>
    · rintro rfl
      revert h
      decide

theorem settle_of_wp {α : Type} {x : Io Empty α} {Q : α → Disk → Prop} {d : Disk}
    (h : wp x Q (fun _ _ => False) d) : Q (settle x d).1 (settle x d).2 := by
  unfold settle
  unfold wp at h
  cases hx : x d with
  | ok a d' => simpa [hx] using h
  | error e d' => exact e.elim

/-! ### Clean-up -/

/-- A real directory whose name has the staging shape. -/
def StagingDir (t : Tree) (s : Path) : Prop :=
  t.isDir s = true ∧ s.getLast?.any isStaleStagingName = true

/-- What is at or beneath a staging directory that sits in `parent`. -/
def InStaging (t : Tree) (parent q : Path) : Prop :=
  ∃ s, StagingDir t s ∧ t.resolve parent = .ok s.dropLast ∧ s <+: q

theorem InStaging.of_trimmed {R : Path → Prop} {t t' : Tree} {parent q : Path}
    (h : Trimmed R t t') (hq : InStaging t' parent q) : InStaging t parent q := by
  obtain ⟨s, ⟨hd, hname⟩, hparent, hs⟩ := hq
  obtain ⟨m, hm⟩ := Tree.isDir_iff.mp hd
  have hgrows : Tree.Grows t' t := fun q x hx => ⟨x, h.node hx, rfl⟩
  exact ⟨s, ⟨Tree.isDir_iff.mpr ⟨m, h.node hm⟩, hname⟩, hgrows.resolveFrom hparent, hs⟩

theorem trimmed_staging_trans {t t' t'' : Tree} {parent : Path}
    (h : Trimmed (InStaging t parent) t t') (h' : Trimmed (InStaging t' parent) t' t'') :
    Trimmed (InStaging t parent) t t'' :=
  h.trans (h'.mono fun _ hq => InStaging.of_trimmed h hq)

section Cleanup

variable {d : Disk} {p parent : Path}

/-- A recursive removal takes what is at and beneath a real directory, unless the path
itself is a link. -/
theorem wp_removeTree_dir (os : Os)
    (hsolid : ∀ q target, d.tree.locate p = .ok q → d.tree.node q ≠ some (.symlink target)) :
    wp (removeTree os.toInterruption p)
      (fun _ d' => Trimmed (fun r => ∃ q, d.tree.locate p = .ok q ∧ d.tree.isDir q = true ∧
        q <+: r) d.tree d'.tree)
      (fun _ d' => Trimmed (fun r => ∃ q, d.tree.locate p = .ok q ∧ d.tree.isDir q = true ∧
        q <+: r) d.tree d'.tree) d := by
  refine wp_call (fun a d' hf _ _ => ?_) (fun e d' hk _ => Trimmed.of_eq hk.tree)
    fun fault d' _ ht _ => ?_
  · cases hr : d.tree.removeDirAll p with
    | error e => simp [hr, Except.map] at hf
    | ok t' =>
        simp only [hr, Except.map, Except.ok.injEq, Prod.mk.injEq, true_and] at hf
        subst hf
        cases hl : d.tree.locate p with
        | error e => simp [Tree.removeDirAll, hl] at hr
        | ok q =>
            have hd : d.tree.isDir q = true := by
              unfold Tree.removeDirAll at hr
              simp only [hl] at hr
              cases hx : d.tree.node q with
              | none => simp [hx] at hr
              | some x =>
                  cases x with
                  | dir m => simp [Tree.isDir, hx, Node.isDir]
                  | file content m => simp [hx] at hr
                  | symlink target => exact absurd hx (hsolid q target hl)
            exact (Tree.removeDirAll_trimmed hl hr).1.mono fun r hr => ⟨q, rfl, hd, hr⟩
  · cases hl : d.tree.locate p with
    | error e =>
        rw [hl] at ht
        exact Trimmed.of_eq ht
    | ok q =>
        rw [hl] at ht
        dsimp only at ht
        cases hd : d.tree.isDir q with
        | false => exact Trimmed.of_eq (ht.trans (os.whole fault q d.tree hd))
        | true =>
            rw [ht]
            exact (os.below fault q d.tree).mono fun r hr => ⟨q, rfl, hd, hr⟩

theorem dropLast_of_locate {t : Tree} {name : Name} {q : Path} (hn : special name = false)
    (hl : t.locate (parent ++ [name]) = .ok q) : t.resolve parent = .ok q.dropLast := by
  rw [Tree.locate_concat hn] at hl
  cases hr : t.resolve parent with
  | error e => simp [hr] at hl
  | ok r =>
      cases hd : t.isDir r with
      | false => simp [hr, hd] at hl
      | true =>
          simp only [hr, hd, if_true, Except.ok.injEq] at hl
          rw [← hl, List.dropLast_concat]

theorem stagingDir_of_locate {name : Name} {q : Path} (hn : isStaleStagingName name = true)
    (hl : d.tree.locate (parent ++ [name]) = .ok q) (hd : d.tree.isDir q = true) :
    StagingDir d.tree q := by
  obtain ⟨r, rfl, -⟩ := Tree.locate_ok List.getLast?_concat (not_special_of_staging hn) hl
  exact ⟨hd, by simp [hn]⟩

/-- **The removal of a staging path takes a staging directory at most**, unless the path
itself is a link. -/
theorem wp_removeTree_staging (os : Os) {name : Name} (hn : isStaleStagingName name = true)
    (hsolid : ∀ q target, d.tree.locate (parent ++ [name]) = .ok q →
      d.tree.node q ≠ some (.symlink target)) :
    wp (removeTree os.toInterruption (parent ++ [name]))
      (fun _ d' => Trimmed (InStaging d.tree parent) d.tree d'.tree)
      (fun _ d' => Trimmed (InStaging d.tree parent) d.tree d'.tree) d := by
  have hmono : ∀ d' : Disk, Trimmed (fun r => ∃ q, d.tree.locate (parent ++ [name]) = .ok q ∧
      d.tree.isDir q = true ∧ q <+: r) d.tree d'.tree →
      Trimmed (InStaging d.tree parent) d.tree d'.tree := by
    intro d' ht
    refine ht.mono fun r hr => ?_
    obtain ⟨q, hl, hd, hq⟩ := hr
    exact ⟨q, stagingDir_of_locate hn hl hd, dropLast_of_locate (not_special_of_staging hn) hl, hq⟩
  exact wp_mono (wp_removeTree_dir os hsolid) (fun _ d' => hmono d') fun _ d' => hmono d'

theorem wp_sweepEntries (os : Os) : ∀ (names : List Name) {d : Disk},
    wp (sweepEntries os parent names) (fun _ d' => Trimmed (InStaging d.tree parent) d.tree d'.tree)
      (fun _ d' => Trimmed (InStaging d.tree parent) d.tree d'.tree) d
  | [], _ => Trimmed.refl _ _
  | name :: rest, d => by
      have hrest : ∀ {d₁ : Disk}, Trimmed (InStaging d.tree parent) d.tree d₁.tree →
          wp (sweepEntries os parent rest)
            (fun _ d' => Trimmed (InStaging d.tree parent) d.tree d'.tree)
            (fun _ d' => Trimmed (InStaging d.tree parent) d.tree d'.tree) d₁ := fun ht =>
        wp_mono (wp_sweepEntries os rest) (fun _ _ h => trimmed_staging_trans ht h)
          fun _ _ h => trimmed_staging_trans ht h
      unfold sweepEntries
      cases hn : isStaleStagingName name with
      | false => exact hrest (Trimmed.refl _ _)
      | true =>
          simp only [Bool.not_true, Bool.false_eq_true, if_false, wp_bind]
          refine wp_query (fun x d₁ hk hx => ?_) fun e d₁ hk _ => Trimmed.of_eq hk.tree
          cases hd : x.isDir with
          | false => exact hrest (Trimmed.of_eq hk.tree)
          | true =>
              simp only [Bool.not_true, Bool.false_eq_true, if_false, wp_bind]
              have hsolid : ∀ q target, d₁.tree.locate (parent ++ [name]) = .ok q →
                  d₁.tree.node q ≠ some (.symlink target) := by
                intro q target hl hlink
                rw [← hk.tree, Tree.lstat, hl] at hx
                simp only [hlink, Except.ok.injEq] at hx
                subst hx
                cases hd
              have hkept := Trimmed.of_eq (R := InStaging d.tree parent) hk.tree
              refine wp_mono (wp_removeTree_staging os hn hsolid) (fun _ d₂ ht => ?_)
                fun _ d₂ ht => trimmed_staging_trans hkept ht
              refine wp_mono (hrest (trimmed_staging_trans hkept ht)) (fun _ _ h => h) ?_
              exact fun _ _ h => h

theorem wp_readEntries (os : Os) {E : Errno → Disk → Prop} {Q : List Name → Disk → Prop}
    (hok : ∀ names d', Kept d d' → d.tree.readDir p = .ok names → Q (os.order names) d')
    (herr : ∀ e d', Kept d d' → E e d') : wp (readEntries os p) Q E d := by
  rw [readEntries, wp_bind]
  exact wp_query hok fun e d' hk _ => herr e d' hk

/-- **A sweep takes staging directories only.** -/
theorem wp_sweepStaleStaging (os : Os) :
    wp (sweepStaleStaging os parent) (fun _ d' => Trimmed (InStaging d.tree parent) d.tree d'.tree)
      (fun _ d' => Trimmed (InStaging d.tree parent) d.tree d'.tree) d := by
  rw [sweepStaleStaging, wp_bind, wp_attempt]
  refine wp_readEntries os (fun names d₁ hk _ => ?_) fun e d₁ hk => ?_
  · have hkept := Trimmed.of_eq (R := InStaging d.tree parent) hk.tree
    simp only [wp_pure, wp_bind]
    exact wp_mono (wp_sweepEntries os (os.order names))
      (fun _ _ ht => trimmed_staging_trans hkept ht) fun _ _ ht => trimmed_staging_trans hkept ht
  · cases e <;> exact Trimmed.of_eq hk.tree

/-- **The removal of one staging directory takes that directory at most**, unless a link
sits at its path. -/
theorem wp_removeStagingDir (os : Os) {name : Name} (hn : isStaleStagingName name = true)
    (hsolid : ∀ q target, d.tree.locate (parent ++ [name]) = .ok q →
      d.tree.node q ≠ some (.symlink target)) :
    wp (removeStagingDir os (parent ++ [name]))
      (fun _ d' => Trimmed (InStaging d.tree parent) d.tree d'.tree)
      (fun _ d' => Trimmed (InStaging d.tree parent) d.tree d'.tree) d := by
  have hshape : (parent ++ [name]).getLast?.any isStaleStagingName = true := by simp [hn]
  unfold removeStagingDir
  simp only [hshape, Bool.not_true, Bool.false_eq_true, if_false, wp_bind, wp_attempt]
  refine wp_mono (wp_removeTree_staging os hn hsolid) (fun _ _ ht => ht) fun e _ ht => ?_
  cases e <;> exact ht

end Cleanup

/-! ### Classification -/

/-- The two entries that an initialized directory has. -/
structure Sentinels (sentinelFile : Name) (t : Tree) (dir : Path) : Prop where
  folder : ∃ x, t.lstat (dir ++ [sentinelDir]) = .ok x ∧ x.isDir = true
  file : ∃ x, t.lstat (dir ++ [sentinelFile]) = .ok x ∧ x.isFile = true

/-- The recorded version is of the series that is started. -/
def RecordedSeries (t : Tree) (dir : Path) : Prop :=
  ∃ bytes version, t.readFile (dir ++ [mariadbSentinelFile]) = .ok bytes ∧
    (Text.decodeUtf8 (bytes.take maxSentinelFileBytes)).bind parseVersion = some version ∧
    version.series = mariadbSeries

def MysqlReady : Tree → Path → Prop := Sentinels mysqlSentinelFile

def MariadbReady (t : Tree) (dir : Path) : Prop :=
  Sentinels mariadbSentinelFile t dir ∧ RecordedSeries t dir

section Classification

variable {d : Disk} {dir : Path} {sentinelFile : Name}

theorem wp_scanEntries : ∀ (names : List Name) {d : Disk},
    wp (scanEntries sentinelFile dir names) (fun seen d' => d'.tree = d.tree ∧
        (seen.hasSentinelDir = true →
          ∃ x, d.tree.lstat (dir ++ [sentinelDir]) = .ok x ∧ x.isDir = true) ∧
        (seen.hasSentinelFile = true →
          ∃ x, d.tree.lstat (dir ++ [sentinelFile]) = .ok x ∧ x.isFile = true))
      (fun _ d' => d'.tree = d.tree) d
  | [], _ => ⟨rfl, Bool.noConfusion, Bool.noConfusion⟩
  | name :: rest, d => by
      unfold scanEntries
      split
      next => exact wp_scanEntries rest
      next =>
        rw [wp_bind]
        refine wp_query (fun x d₁ hk hx => ?_) fun e d₁ hk _ => hk.tree
        rw [wp_bind]
        refine wp_mono (wp_scanEntries rest) (fun seen d₂ hseen => ?_) fun _ d₂ ht =>
          ht.trans hk.tree
        obtain ⟨ht, hdir, hfile⟩ := hseen
        rw [hk.tree] at hdir hfile ht
        refine ⟨ht, fun h => ?_, fun h => ?_⟩
        · rcases (Bool.or_eq_true _ _).mp h with h | h
          · exact hdir h
          · simp only [Bool.and_eq_true, beq_iff_eq] at h
            obtain ⟨rfl, hd⟩ := h
            exact ⟨x, hx, hd⟩
        · rcases (Bool.or_eq_true _ _).mp h with h | h
          · exact hfile h
          · simp only [Bool.and_eq_true, beq_iff_eq] at h
            obtain ⟨rfl, hf⟩ := h
            exact ⟨x, hx, hf⟩

theorem wp_scanDir (os : Os) :
    wp (scanDir os sentinelFile dir) (fun seen d' => d'.tree = d.tree ∧
        (seen.hasSentinelDir = true → seen.hasSentinelFile = true →
          Sentinels sentinelFile d.tree dir))
      (fun _ d' => d'.tree = d.tree) d := by
  rw [scanDir, wp_bind, wp_attempt]
  refine wp_readEntries os (fun names d₁ hk _ => ?_) fun e d₁ hk => ?_
  · refine wp_mono (wp_scanEntries (os.order names)) (fun seen d₂ hseen => ?_) fun _ d₂ ht =>
      ht.trans hk.tree
    obtain ⟨ht, hdir, hfile⟩ := hseen
    rw [hk.tree] at hdir hfile ht
    exact ⟨ht, fun hd hf => ⟨hdir hd, hfile hf⟩⟩
  · cases e with
    | notFound => exact ⟨hk.tree, Bool.noConfusion⟩
    | _ => exact hk.tree

theorem wp_classifyDatadir (os : Os) :
    wp (classifyDatadir os dir)
      (fun state d' => d'.tree = d.tree ∧ (state.isInitialized = true → MysqlReady d.tree dir))
      (fun _ d' => d'.tree = d.tree) d := by
  rw [classifyDatadir, wp_bind]
  refine wp_mono (wp_scanDir os) (fun seen d₁ hseen => ?_) fun _ _ h => h
  obtain ⟨ht, hboth⟩ := hseen
  split
  next => exact ⟨ht, fun h => by cases h⟩
  next =>
    split
    next hs =>
      rw [Bool.and_eq_true] at hs
      exact ⟨ht, fun _ => hboth hs.1 hs.2⟩
    next => exact ⟨ht, fun h => by cases h⟩

theorem series_of_verdict {recorded : Option (List Char)}
    (h : (mariadbVerdict dir recorded).isInitialized = true) :
    ∃ version, recorded.bind parseVersion = some version ∧ version.series = mariadbSeries := by
  unfold mariadbVerdict at h
  split at h
  next => cases h
  next version hversion =>
    split at h
    next => cases h
    next hs => exact ⟨version, hversion, by simpa using hs⟩

theorem wp_classifyMariadbDatadir (os : Os) :
    wp (classifyMariadbDatadir os dir)
      (fun state d' => d'.tree = d.tree ∧ (state.isInitialized = true → MariadbReady d.tree dir))
      (fun _ d' => d'.tree = d.tree) d := by
  rw [classifyMariadbDatadir, wp_bind]
  refine wp_mono (wp_scanDir os) (fun seen d₁ hseen => ?_) fun _ _ h => h
  obtain ⟨ht, hboth⟩ := hseen
  split
  next => exact ⟨ht, fun h => by cases h⟩
  next =>
    split
    next => exact ⟨ht, fun h => by cases h⟩
    next hs =>
      have hs : seen.hasSentinelDir = true ∧ seen.hasSentinelFile = true := by simpa using hs
      rw [wp_bind, readRecordedVersion, wp_bind]
      refine wp_query (fun bytes d₂ hk hbytes => ?_) fun _ d₂ hk _ => hk.tree.trans ht
      rw [ht] at hbytes
      refine ⟨hk.tree.trans ht, fun h => ⟨hboth hs.1 hs.2, ?_⟩⟩
      obtain ⟨version, hversion, hseries⟩ := series_of_verdict h
      exact ⟨bytes, version, hbytes, hversion, hseries⟩

end Classification

/-! ### Finalization -/

/-- A final directory that is missing or holds nothing but clutter. -/
def Vacant (t : Tree) (f : Path) : Prop :=
  t.node f = none ∨
    (t.isDir f = true ∧ ∀ n ∈ t.entries f, n = dsStore ∧ t.isDir (f ++ [n]) = false)

/-- The clutter in a final directory that holds nothing else. -/
def Clutter (t : Tree) (finalDir q : Path) : Prop :=
  ∃ f x, t.locate finalDir = .ok f ∧ t.resolve finalDir = .ok f ∧ Vacant t f ∧
    q = f ++ [dsStore] ∧ t.node q = some x ∧ x.isDir = false

/-- The staging directory `s` has become the final directory `f`. -/
structure Published (t t' : Tree) (s f : Path) : Prop where
  staged : StagingDir t s
  vacant : Vacant t f
  moved : ∀ r, t'.node (f ++ r) = t.node (s ++ r)
  gone : ∀ r, t'.node (s ++ r) = none
  rest : ∀ q, ¬ s <+: q → ¬ f <+: q → t'.node q = t.node q

section Finalize

variable {t t' : Tree} {d : Disk} {p : Path} {a b : Name}

theorem siblings_apart {r : Path} (h : a ≠ b) : ¬ r ++ [a] <+: r ++ [b] := by
  rw [List.prefix_append_right_inj]
  simpa using h

/-- **A rename beside itself is a move.** -/
theorem rename_beside (ha : special a = false) (hb : special b = false) (hne : a ≠ b)
    (h : t.rename (p ++ [a]) (p ++ [b]) = .ok t') :
    ∃ r x, t.resolve p = .ok r ∧ t.isDir r = true ∧ t.node (r ++ [a]) = some x ∧
      ∀ q, t'.node q = (Tree.movedFrom (r ++ [a]) (r ++ [b]) q).bind t.node := by
  unfold Tree.rename at h
  rw [Tree.locate_concat ha, Tree.locate_concat hb] at h
  cases hr : t.resolve p with
  | error e => simp [hr] at h
  | ok r =>
      cases hd : t.isDir r with
      | false => simp [hr, hd] at h
      | true =>
          simp only [hr, hd, if_true] at h
          cases hx : t.node (r ++ [a]) with
          | none => simp [hx] at h
          | some x =>
              refine ⟨r, x, rfl, hd, hx, ?_⟩
              have hab : ¬ r ++ [a] <+: r ++ [b] := siblings_apart hne
              have hba : ¬ r ++ [b] <+: r ++ [a] := siblings_apart hne.symm
              have hcan : t.CanMove (r ++ [a]) (r ++ [b]) :=
                ⟨Tree.has_of_node hx, by simp, by simp, by simpa using hd, hab, hba⟩
              have hself : r ++ [a] ≠ r ++ [b] := fun heq => hab (heq ▸ List.prefix_refl _)
              rw [← List.isPrefixOf_iff_prefix] at hab hba
              simp only [hx, hself, hab, hba, if_false] at h
              have hmove : t' = t.move (r ++ [a]) (r ++ [b]) := by
                repeat' split at h
                all_goals first
                  | exact (Except.ok.inj h).symm
                  | cases h
              rw [hmove]
              exact Tree.node_move hcan

/-- Where a path without a link at its end leads. -/
theorem located_of_sentinel {sentinelFile : Name} {s : Path} {x : Node}
    (h : Sentinels sentinelFile t p) (hl : t.locate p = .ok s) (hx : t.node s = some x)
    (hlink : x.isSymlink = false) : t.isDir s = true := by
  obtain ⟨y, hy, -⟩ := h.folder
  unfold Tree.lstat at hy
  rw [Tree.locate_concat (by decide)] at hy
  cases hr : t.resolve p with
  | error e => simp [hr] at hy
  | ok q =>
      have hlstat : t.lstat p = .ok x := by simp [Tree.lstat, hl, hx]
      have hq := Tree.locate_of_resolve hlstat hlink hr
      rw [hl] at hq
      cases hq
      cases hd : t.isDir s with
      | true => rfl
      | false => simp [hr, hd] at hy

theorem wp_removeEach_clutter {f : Path} (hl : d.tree.locate (p ++ [b]) = .ok f)
    (hr : d.tree.resolve (p ++ [b]) = .ok f) (hd : d.tree.isDir f = true) {names : List Name}
    (hmem : ∀ n ∈ d.tree.entries f, n ∈ names) (hnodup : names.Nodup)
    (hall : ∀ n ∈ names, n = dsStore) :
    wp (removeEach (names.map fun n => p ++ [b] ++ [n]))
      (fun _ d' => Trimmed (Clutter d.tree (p ++ [b])) d.tree d'.tree ∧ Vacant d.tree f)
      (fun _ d' => Trimmed (Clutter d.tree (p ++ [b])) d.tree d'.tree) d := by
  match names, hmem, hnodup, hall with
  | [], hmem, _, _ =>
      exact ⟨Trimmed.refl _ _, .inr ⟨hd, fun n hn => by simpa using hmem n hn⟩⟩
  | [n], hmem, _, hall =>
      obtain rfl : n = dsStore := hall n List.mem_cons_self
      simp only [List.map_cons, List.map_nil, removeEach, wp_bind, wp_mapErr, wp_pure]
      refine wp_update (fun d' hf _ _ => ?_) fun e d' hk _ => Trimmed.of_eq hk.tree
      obtain ⟨-, htrim, x, hx, hxd⟩ := Tree.removeFile_trimmed (by decide) hr hf
      have hv : Vacant d.tree f := by
        refine .inr ⟨hd, fun n hn => ?_⟩
        obtain rfl : n = dsStore := by simpa using hmem n hn
        exact ⟨rfl, by simp [Tree.isDir, hx, hxd]⟩
      refine ⟨htrim.mono fun q hq => ?_, hv⟩
      exact ⟨f, x, hl, hr, hv, hq, hq ▸ hx, hxd⟩
  | n :: m :: rest, _, hnodup, hall =>
      have hn := hall n List.mem_cons_self
      have hm := hall m (List.mem_cons_of_mem _ List.mem_cons_self)
      simp [hn, hm] at hnodup

/-- **What clears a final directory deletes clutter at most**, and leaves the directory
missing or empty. -/
theorem wp_clearIgnorableClutter (os : Os) :
    wp (clearIgnorableClutter os (p ++ [b]))
      (fun _ d' => Trimmed (Clutter d.tree (p ++ [b])) d.tree d'.tree ∧
        ∀ f, d.tree.locate (p ++ [b]) = .ok f → Vacant d.tree f)
      (fun _ d' => Trimmed (Clutter d.tree (p ++ [b])) d.tree d'.tree) d := by
  rw [clearIgnorableClutter, wp_bind, wp_attempt]
  refine wp_query (fun x d₁ hk hx => ?_) fun e d₁ hk he => ?_
  · dsimp only
    split
    next => exact Trimmed.of_eq hk.tree
    next hlink =>
      split
      next => exact Trimmed.of_eq hk.tree
      next hdir =>
        rw [clearListed, wp_bind, wp_mapErr]
        refine wp_readEntries os (fun names d₂ hk₂ hread => ?_) fun e d₂ hk₂ =>
          Trimmed.of_eq (hk.trans hk₂).tree
        have hkept := (hk.trans hk₂).tree
        rw [hk.tree] at hread
        cases hfind : (os.order names).find? (· != dsStore) with
        | some name => exact Trimmed.of_eq hkept
        | none =>
            have hall : ∀ n ∈ os.order names, n = dsStore := by simpa using hfind
            have hnodup := ((os.perm names).nodup_iff).mpr (Tree.nodup_of_readDir hread)
            unfold Tree.readDir at hread
            cases hr : d.tree.resolve (p ++ [b]) with
            | error e => simp [hr] at hread
            | ok f =>
                have hl := Tree.locate_of_resolve hx (by simpa using hlink) hr
                cases hd : d.tree.isDir f with
                | false => simp [hr, hd] at hread
                | true =>
                    simp only [hr, hd, if_true, Except.ok.injEq] at hread
                    have hmem : ∀ n ∈ d.tree.entries f, n ∈ os.order names := fun n hn =>
                      (os.perm names).mem_iff.mpr (hread ▸ hn)
                    rw [← hkept] at hl hr hd hmem ⊢
                    refine wp_mono (wp_removeEach_clutter hl hr hd hmem hnodup hall)
                      (fun _ d₃ h => ⟨h.1, fun f' hf' => ?_⟩) fun _ _ h => h
                    rw [hl] at hf'
                    cases hf'
                    exact h.2
  · cases e with
    | notFound =>
        have hnone : d.tree.lstat (p ++ [b]) = .error .notFound :=
          he.own (.inr fun code hc => by cases hc)
        refine ⟨Trimmed.of_eq hk.tree, fun f hf => .inl ?_⟩
        simp only [Tree.lstat, hf] at hnone
        cases hx : d.tree.node f with
        | none => rfl
        | some x => simp [hx] at hnone
    | _ => exact Trimmed.of_eq hk.tree

theorem node_movedFrom_below {s f : Path} (h : ∀ q, t'.node q = (Tree.movedFrom s f q).bind t.node)
    (r : Path) : t'.node (f ++ r) = t.node (s ++ r) := by
  rw [h, Tree.movedFrom, if_pos (List.prefix_append f r), List.drop_left]
  rfl

/-- Two paths of which neither is above the other have nothing beneath both. -/
theorem not_prefix_append {s f : Path} (hsf : ¬ s <+: f) (hfs : ¬ f <+: s) (r : Path) :
    ¬ f <+: s ++ r := by
  intro h
  rcases prefix_append_cases h with h | ⟨more, h, -⟩
  · exact hfs h
  · exact hsf ⟨more, h.symm⟩

/-- **A finalization that fails has deleted clutter at most, and one that succeeds has moved
an initialized directory to where there was nothing else.** -/
theorem wp_finalize {σ : Type} (os : Os) {classify : Path → Io Errno σ} {isReady : σ → Bool}
    {Ready : Tree → Path → Prop} {sentinelFile : Name} (ha : isStaleStagingName a = true)
    (hb : special b = false) (hne : a ≠ b)
    (hclassify : wp (classify (p ++ [a]))
      (fun state d' => d'.tree = d.tree ∧ (isReady state = true → Ready d.tree (p ++ [a])))
      (fun _ d' => d'.tree = d.tree) d)
    (hready : Ready d.tree (p ++ [a]) → Sentinels sentinelFile d.tree (p ++ [a]))
    (hsolid : ∀ q target, d.tree.locate (p ++ [a]) = .ok q →
      d.tree.node q ≠ some (.symlink target)) :
    wp (finalize os classify isReady (p ++ [a]) (p ++ [b]))
      (fun _ d' => ∃ s f, d.tree.locate (p ++ [a]) = .ok s ∧ d.tree.locate (p ++ [b]) = .ok f ∧
        Ready d.tree (p ++ [a]) ∧ Published d.tree d'.tree s f)
      (fun _ d' => Trimmed (Clutter d.tree (p ++ [b])) d.tree d'.tree) d := by
  rw [finalize, wp_bind, wp_mapErr]
  refine wp_mono hclassify (fun state d₁ hstate => ?_) fun _ _ ht => Trimmed.of_eq ht
  obtain ⟨ht₁, hstate⟩ := hstate
  split
  next => exact Trimmed.of_eq ht₁
  next hs =>
    have hs : Ready d.tree (p ++ [a]) := hstate (by simpa using hs)
    rw [wp_bind, wp_mapErr]
    rw [← ht₁] at hs hready hsolid ⊢
    refine wp_mono (wp_clearIgnorableClutter os) (fun _ d₂ hclear => ?_) fun _ _ ht => ht
    obtain ⟨htrim, hvacant⟩ := hclear
    rw [wp_mapErr]
    refine wp_update (fun d₃ hf _ _ => ?_) fun e d₃ hk _ => hk.tree ▸ htrim
    have hspecial := not_special_of_staging ha
    obtain ⟨r, x, hr, hd, hx, hmove⟩ := rename_beside hspecial hb hne hf
    have hr₁ := htrim.resolve hr
    have hd₁ : d₁.tree.isDir r = true := by
      obtain ⟨m, hm⟩ := Tree.isDir_iff.mp hd
      exact Tree.isDir_iff.mpr ⟨m, htrim.node hm⟩
    have hls : d₁.tree.locate (p ++ [a]) = .ok (r ++ [a]) := by
      rw [Tree.locate_concat hspecial, hr₁]
      simp [hd₁]
    have hlf : d₁.tree.locate (p ++ [b]) = .ok (r ++ [b]) := by
      rw [Tree.locate_concat hb, hr₁]
      simp [hd₁]
    have hx₁ := htrim.node hx
    have hlink : x.isSymlink = false := by
      cases x with
      | symlink target => exact absurd hx₁ (hsolid _ target hls)
      | _ => rfl
    have hdir := located_of_sentinel (hready hs) hls hx₁ hlink
    have hsf : ¬ r ++ [a] <+: r ++ [b] := siblings_apart hne
    have hfs : ¬ r ++ [b] <+: r ++ [a] := siblings_apart hne.symm
    -- the clutter that was deleted is beneath the final directory
    have houter : ∀ q, ¬ r ++ [b] <+: q → d₂.tree.node q = d₁.tree.node q := by
      intro q hq
      refine htrim.outside fun hclutter => hq ?_
      obtain ⟨f, y, hf, -, -, hclutter, -⟩ := hclutter
      rw [hlf] at hf
      cases hf
      rw [hclutter]
      exact List.prefix_append _ _
    refine ⟨r ++ [a], r ++ [b], hls, hlf, hs, ?_⟩
    refine ⟨⟨hdir, by simp [ha]⟩, hvacant _ hlf, fun q => ?_, fun q => ?_, fun q hqs hqf => ?_⟩
    · rw [node_movedFrom_below hmove]
      exact houter _ (not_prefix_append hsf hfs q)
    · rw [hmove, Tree.movedFrom, if_neg (not_prefix_append hsf hfs q),
        if_pos (List.prefix_append _ _)]
      rfl
    · rw [hmove, Tree.movedFrom, if_neg hqf, if_neg hqs]
      exact houter q hqf

end Finalize

end OpenVHost.Datadir
