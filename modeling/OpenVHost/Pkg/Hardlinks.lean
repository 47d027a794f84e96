/-
# What a hard link means after the root is stripped

In an archive a hard link means the bytes of the entry its target names
(`Denotes`), both names read as the archive writes them. Pass 1 strips names and
targets by different code: a target that does not lie beneath the stripped root
is left as it is, and may then name another file inside.

* `linksPreserved_of_stripped` — where every target has a stripped form, every
  hard link gets the bytes it means.
* `linksPreserved_iff` — pass 2 gives every hard link its bytes exactly when no
  target lies outside a root that all entries share.
-/

import OpenVHost.Pkg.Reread

namespace OpenVHost.Pkg

open FileTree FileTree.Tree FileTree.Io

/-- The bytes a name of the archive stands for: a regular entry's own, or those
its hard link's target stands for. -/
inductive Denotes (entries : List TarEntry) : Str → Bytes → Prop where
  | file {e name chunks} (he : e ∈ entries) (hf : e.isFile = true) (hn : tarName e = .ok name)
      (hr : readAll e.reads = some chunks) : Denotes entries name chunks.flatten
  | link {e name target content} (he : e ∈ entries) (hn : tarName e = .ok name)
      (hk : plannedKind e = .ok (.hardlink target)) (h : Denotes entries target content) :
      Denotes entries name content

/-- Every hard link of the archive has, at its planned path, the bytes of the
entry its target names. -/
def LinksPreserved (entries : List TarEntry) (strip : StripInfo) (dest : Path) (t : Tree) : Prop :=
  ∀ e ∈ entries, ∀ target, plannedKind e = .ok (.hardlink target) →
    ∃ rel content mode, finalRel strip e = some rel ∧ Denotes entries target content ∧
      t.node (dest ++ splitPath rel) = some (.file content mode)

/-- All entries lie beneath `root`, or are directory entries that name it. -/
structure RootOf (entries : List TarEntry) (root : Str) : Prop where
  single : '/' ∉ root
  beneath : ∀ e ∈ entries, e.entryType.isMetadata = false → ∀ name, tarName e = .ok name →
    (name = root ∧ e.entryType = .directory) ∨ ∃ rest, name = root ++ '/' :: rest

/-- No hard link leads out of a root that all entries share. -/
def TargetsBeneathRoot (entries : List TarEntry) : Prop :=
  ∀ root, RootOf entries root → ∀ e ∈ entries, ∀ target,
    plannedKind e = .ok (.hardlink target) → ∃ rest, target = root ++ '/' :: rest

section Hardlinks

variable {pf : Platform} {strip : StripInfo} {dest : Path} {archive : TarArchive}
  {plan : List PlannedEntry} {entries : List TarEntry} {d d' : Disk}

/-- Only link entries plan hard links. -/
theorem plannedKind_hardlink {e : TarEntry} {target : Str}
    (h : plannedKind e = .ok (.hardlink target)) : e.entryType = .link := by
  unfold plannedKind at h
  cases ht : e.entryType <;> simp only [ht, bind_eq_ok, reduceCtorEq, Except.ok.injEq] at h
  case symlink =>
    obtain ⟨-, -, h⟩ := h
    cases h
  case link => rfl

/-- A name with a meaning is the name of a file or a hard link. -/
theorem Denotes.exists_entry {name : Str} {content : Bytes} (h : Denotes entries name content) :
    ∃ e ∈ entries, tarName e = .ok name ∧ e.entryType.isMetadata = false ∧
      e.entryType ≠ .directory := by
  cases h with
  | @file e _ _ he hf hn _ =>
      refine ⟨e, he, hn, ?_⟩
      unfold TarEntry.isFile at hf
      cases ht : e.entryType <;> simp_all [EntryType.isRegular, EntryType.isMetadata]
  | @link e _ _ _ he hn hk _ =>
      have ht := plannedKind_hardlink hk
      exact ⟨e, he, hn, by simp [ht, EntryType.isMetadata], by simp [ht]⟩

/-- An item with a hard link's target comes from a link entry; its target is
the stripped one, where the entry's target has a stripped form. -/
theorem PlansAs.hardlink {e : TarEntry} {item : PlannedEntry} (h : PlansAs strip e item)
    (hs : ∀ target, plannedKind e = .ok (.hardlink target) →
      ∃ target', strippedRel target strip = some target') {target' : Str}
    (hk : item.kind = .hardlink target') :
    ∃ target, plannedKind e = .ok (.hardlink target) ∧
      strippedRel target strip = some target' := by
  obtain ⟨kind, hkind, hr⟩ := h.kind
  rw [hk] at hr
  cases kind with
  | dir => cases Except.ok.inj hr
  | file mode => cases Except.ok.inj hr
  | symlink t =>
      simp only [retarget, bind_eq_ok] at hr
      obtain ⟨-, -, hr⟩ := hr
      cases Except.ok.inj hr
  | hardlink t =>
      obtain ⟨t', ht'⟩ := hs t hkind
      refine ⟨t, hkind, ?_⟩
      simp only [retarget] at hr
      split at hr
      · rw [ht'] at hr
        cases Except.ok.inj hr
        exact ht'
      next hns =>
        cases Except.ok.inj hr
        rw [strippedRel_eq_some]
        exact .inl ⟨by simpa using hns, rfl⟩

/-- A link entry plans a hard link. -/
theorem PlansAs.kind_of_hardlink {e : TarEntry} {item : PlannedEntry} (h : PlansAs strip e item)
    {target : Str} (hk : plannedKind e = .ok (.hardlink target)) :
    ∃ target', item.kind = .hardlink target' := by
  obtain ⟨kind, hkind, hr⟩ := h.kind
  rw [hk] at hkind
  cases Except.ok.inj hkind
  simp only [retarget] at hr
  split at hr
  · exact ⟨_, (Except.ok.inj hr).symm⟩
  · exact ⟨_, (Except.ok.inj hr).symm⟩

/-- **Where every target has a stripped form, every hard link gets the bytes it
means.** -/
theorem linksPreserved_of_stripped (hacc : Accounts strip [] entries plan)
    (hkeys : plan.Pairwise (KeysDiffer pf)) (hentries : archive.entries = entries.map .ok)
    (he : EmptyDir dest d.tree) (hm : materialize pf archive plan strip dest d = .ok () d')
    (hs : ∀ e ∈ entries, ∀ target, plannedKind e = .ok (.hardlink target) →
      ∃ target', strippedRel target strip = some target') :
    LinksPreserved entries strip dest d'.tree := by
  -- the meaning of a planned path is that of the one name it is stripped from
  let D : Str → Bytes → Prop := fun rel content =>
    ∃ name, strippedRel name strip = some rel ∧ Denotes entries name content
  have hwp := wp_materialize archive strip D (fun _ => True) he hacc.valid hkeys ?_ ?_
  · obtain ⟨d₂, -, hfin⟩ := wp_ok hwp hm
    intro e hmem target hk
    have ht := plannedKind_hardlink hk
    obtain ⟨item, hitem, hp⟩ := hacc.exists_item e hmem (by simp [ht, EntryType.isMetadata])
      (by simp [ht])
    obtain ⟨target', hk'⟩ := hp.kind_of_hardlink hk
    obtain ⟨target₂, hk₂, hstrip⟩ := hp.hardlink (hs e hmem) hk'
    cases Except.ok.inj (hk.symm.trans hk₂)
    obtain ⟨content, mode, ⟨name, hname, hden⟩, hnode⟩ := hfin.copies item hitem target' hk'
    cases strippedRel_inj hname hstrip
    exact ⟨item.rel, content, mode, hp.rel, hden, hnode⟩
  · intro item hitem target' hk'
    refine ⟨hacc.target_valid hitem hk', ?_⟩
    rintro content ⟨name, hname, hden⟩
    obtain ⟨e, hmem, -, hp⟩ := hacc.exists_entry item hitem
    obtain ⟨target, hk, hstrip⟩ := hp.hardlink (hs e hmem) hk'
    cases strippedRel_inj hname hstrip
    obtain ⟨ename, hn, hrel⟩ := finalRel_eq_some.mp hp.rel
    exact ⟨ename, hrel, .link hmem hn hk hden⟩
  · intro items d₁ hr hl _
    have hitems : items = entries.map .ok := (rewind_ok hr).trans hentries
    apply wp_mono (wp_writeFiles he.plain hacc hkeys hitems hl)
    · intro _ d₂ h₂
      refine ⟨trivial, _, fileRels_items, fun r hr => ?_, h₂.laid⟩
      obtain ⟨records, hentry, hitem, -, hholds⟩ := h₂.records
      obtain ⟨item, hmem, rfl⟩ := List.mem_map.mp hr
      rw [← hitem] at hmem
      obtain ⟨rec, hrec, rfl⟩ := List.mem_map.mp hmem
      have hreg : rec.entry ∈ entries.filter TarEntry.isFile :=
        hentry ▸ List.mem_map_of_mem hrec
      obtain ⟨hin, hfile⟩ := List.mem_filter.mp hreg
      have h := hholds rec hrec
      obtain ⟨name, hn, hrel⟩ := finalRel_eq_some.mp h.planned.rel
      exact ⟨_, _, h.written, name, hrel, .file hin hfile hn h.read⟩
    · intro _ _ _
      trivial

/-- What staging says of the entries' names and kinds. -/
theorem beneath_iff {es : List TarEntry} {staged : List Staged}
    (hall : List.Forall₂ StagesAs es staged) {root : Str} :
    (∀ e ∈ es, ∀ name, tarName e = .ok name →
        (name = root ∧ e.entryType = .directory) ∨ ∃ rest, name = root ++ '/' :: rest) ↔
      ∀ s ∈ staged, (s.rel = root ∧ s.kind = .dir) ∨ ∃ rest, s.rel = root ++ '/' :: rest := by
  induction hall with
  | nil => simp
  | cons h _ ih =>
      rw [List.forall_mem_cons, List.forall_mem_cons, ih]
      refine and_congr_left fun _ => ?_
      rw [← plannedKind_dir h.kind]
      constructor
      · intro hh
        exact hh _ h.rel
      · intro hh name hn
        cases Except.ok.inj (hn.symm.trans h.rel)
        exact hh

/-- The root the strip finds is the root of the entries, and the other way round. -/
theorem rootOf_iff {staged : List Staged}
    (hall : List.Forall₂ StagesAs (entries.filter fun e => !e.entryType.isMetadata) staged)
    {root : Str} : RootOf entries root ↔ SharedRoot staged root := by
  have hb : (∀ e ∈ entries, e.entryType.isMetadata = false → ∀ name, tarName e = .ok name →
      (name = root ∧ e.entryType = .directory) ∨ ∃ rest, name = root ++ '/' :: rest) ↔
      ∀ e ∈ entries.filter fun e => !e.entryType.isMetadata, ∀ name, tarName e = .ok name →
        (name = root ∧ e.entryType = .directory) ∨ ∃ rest, name = root ++ '/' :: rest := by
    simp only [List.mem_filter, Bool.not_eq_true', and_imp]
  constructor
  · intro h
    exact ⟨h.single, (beneath_iff hall).mp (hb.mp h.beneath)⟩
  · intro h
    exact ⟨h.single, hb.mpr ((beneath_iff hall).mpr h.beneath)⟩

/-- **Hard links keep their meaning exactly when none leads out of a root that
all entries share.** -/
theorem linksPreserved_iff (hplan : planTargz pf archive = .ok (plan, strip))
    (he : EmptyDir dest d.tree) (hm : materialize pf archive plan strip dest d = .ok () d')
    (hentries : archive.entries = entries.map .ok) :
    LinksPreserved entries strip dest d'.tree ↔ TargetsBeneathRoot entries := by
  obtain ⟨entries', hentries', hacc, hkeys⟩ := accounts_of_planTargz hplan
  obtain ⟨entries'', staged, -, hentries'', -, hall, hstrip, -⟩ := planTargz_inv hplan
  have hinj : Function.Injective (Except.ok : TarEntry → Except String TarEntry) :=
    fun _ _ h => Except.ok.inj h
  cases List.map_injective_iff.mpr hinj (hentries.symm.trans hentries')
  cases List.map_injective_iff.mpr hinj (hentries.symm.trans hentries'')
  constructor
  · intro hpres root hroot e hmem target hk
    obtain ⟨-, content, -, -, hden, -⟩ := hpres e hmem target hk
    obtain ⟨e', he', hn, hmeta, hdir⟩ := hden.exists_entry
    rcases hroot.beneath e' he' hmeta target hn with ⟨-, hd⟩ | hrest
    · exact absurd hd hdir
    · exact hrest
  · intro hbeneath
    refine linksPreserved_of_stripped hacc hkeys hentries he hm fun e hmem target hk => ?_
    cases hs : strip.stripped with
    | false => exact ⟨target, strippedRel_eq_some.mpr (.inl ⟨hs, rfl⟩)⟩
    | true =>
        have hroot : RootOf entries strip.root := by
          rw [rootOf_iff hall, hstrip]
          exact sharedRoot_of_stripped hall (hstrip ▸ hs)
        obtain ⟨rest, rfl⟩ := hbeneath strip.root hroot e hmem target hk
        exact ⟨rest, strippedRel_of_stripped hs⟩

/-- A package whose hard link names a file beneath the root. -/
def linkedPackage : List TarEntry :=
  [tarEntry .regular "pkg/a" "" [1], tarEntry .link "pkg/h" "pkg/a" []]

theorem linksPreserved_linked :
    ∃ d', materialize asciiPlatform (tarArchive linkedPackage)
        [⟨"a".toList, .file 0o644⟩, ⟨"h".toList, .hardlink "a".toList⟩] sampleStrip
        ["out".toList] sampleDisk = .ok () d' ∧
      (LinksPreserved linkedPackage sampleStrip ["out".toList] d'.tree ↔
        TargetsBeneathRoot linkedPackage) := by
  obtain ⟨⟨⟩, d', hm⟩ := exists_of_returns (d := sampleDisk)
    (x := materialize asciiPlatform (tarArchive linkedPackage)
      [⟨"a".toList, .file 0o644⟩, ⟨"h".toList, .hardlink "a".toList⟩] sampleStrip ["out".toList])
    (by decide +kernel)
  exact ⟨d', hm, linksPreserved_iff rfl sampleDisk_emptyDir hm rfl⟩

/-- The same package, its hard link naming a file outside the root that no entry
is: `a`, where the archive has only `pkg/a`. -/
def strayPackage : List TarEntry :=
  [tarEntry .regular "pkg/a" "" [1], tarEntry .link "pkg/h" "a" []]

/-- **A target outside the root is taken for a file inside it.** -/
theorem stray_link_resolved :
    ¬ ∀ (archive : TarArchive) (entries : List TarEntry) (plan : List PlannedEntry)
      (strip : StripInfo) (d d' : Disk), archive.entries = entries.map .ok →
      planTargz asciiPlatform archive = .ok (plan, strip) → EmptyDir ["out".toList] d.tree →
      materialize asciiPlatform archive plan strip ["out".toList] d = .ok () d' →
      LinksPreserved entries strip ["out".toList] d'.tree := by
  intro h
  obtain ⟨⟨⟩, d', hm⟩ := exists_of_returns (d := sampleDisk)
    (x := materialize asciiPlatform (tarArchive strayPackage)
      [⟨"a".toList, .file 0o644⟩, ⟨"h".toList, .hardlink "a".toList⟩] sampleStrip ["out".toList])
    (by decide +kernel)
  have hpres := h (tarArchive strayPackage) strayPackage _ _ sampleDisk d' rfl rfl
    sampleDisk_emptyDir hm
  obtain ⟨-, content, -, -, hden, -⟩ :=
    hpres (tarEntry .link "pkg/h" "a" []) (by simp [strayPackage]) "a".toList rfl
  obtain ⟨e, he, hn, -⟩ := hden.exists_entry
  rcases List.mem_cons.mp he with rfl | he
  · exact absurd (Except.ok.inj hn) (by decide)
  · cases List.mem_singleton.mp he
    exact absurd (Except.ok.inj hn) (by decide)

end Hardlinks

end OpenVHost.Pkg
