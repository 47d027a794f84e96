/-
# Extraction stays inside its destination

A target is validated one link at a time and by its text alone, while the kernel
follows chains of links. The two meet because a link is created at a path made of
real directories: it sits exactly as deep as its name says, so a target that goes
up no further than that, and only at its front, leads to a place inside.

* `linksInside_of_materialize` — every link that pass 2 leaves beneath the
  destination is such a link, whatever the second reading of the archive gave.
* `extraction_contained` — no walk from the destination ever leaves it.
-/

import OpenVHost.Pkg.Reread

namespace OpenVHost.Pkg

open FileTree FileTree.Tree FileTree.Io

section Contained

variable {pf : Platform} {strip : StripInfo} {dest : Path} {archive : TarArchive}
  {plan : List PlannedEntry} {d d' : Disk}

/-- A mode found under a name is a planned file's. -/
theorem fileRel_of_lookup {rel : Str} {mode : Nat}
    (h : (fileModes plan).lookup rel = some mode) :
    ∃ item ∈ plan, item.rel = rel ∧ item.isFile = true := by
  obtain ⟨before, after, heq, -⟩ := List.lookup_eq_some_iff.mp h
  have hmem : (rel, mode) ∈ fileModes plan := by
    rw [heq]
    exact List.mem_append_right before List.mem_cons_self
  rw [fileModes, List.mem_reverse] at hmem
  obtain ⟨item, hitem, hmode⟩ := List.mem_filterMap.mp hmem
  refine ⟨item, hitem, ?_⟩
  unfold PlannedEntry.fileMode at hmode
  split at hmode
  next m hk =>
    cases hmode
    exact ⟨rfl, by simp [PlannedEntry.isFile, hk]⟩
  next => cases hmode

/-- Writing files from any archive at all keeps to the planned paths. -/
theorem wp_writeFiles_any {dirs : List Str} (hdest : Plain dest) :
    ∀ {items : List (Except String TarEntry)} {files : List Str} {written : Nat} {d : Disk},
      Laid dest dirs files d.tree → Means dest (fun _ _ => True) files d.tree →
      FileRels plan files →
      wp (writeFiles pf strip (fileModes plan) dest written items)
        (fun _ d' => ∃ files', FileRels plan files' ∧ Means dest (fun _ _ => True) files' d'.tree ∧
          Laid dest dirs files' d'.tree)
        (fun _ _ => True) d
  | [], files, written, d, hl, hmeans, hrels => ⟨files, hrels, hmeans, hl⟩
  | .error e :: rest, files, written, d, _, _, _ => trivial
  | .ok entry :: rest, files, written, d, hl, hmeans, hrels => by
      rw [writeFiles]
      split
      · exact wp_writeFiles_any hdest hl hmeans hrels
      · rw [wp_bind, wp_ofExcept]
        cases hrel : entryRel "path not utf-8" entry with
        | error e => trivial
        | ok cleaned =>
            have hclean : ValidName cleaned := by
              unfold entryRel at hrel
              split at hrel
              · cases hrel
              · cases hrel
              · exact validName_of_ok hrel
            cases hs : strippedRel cleaned strip with
            | none =>
                simp only [hs]
                exact wp_writeFiles_any hdest hl hmeans hrels
            | some rel =>
                simp only [hs]
                cases hmode : (fileModes plan).lookup rel with
                | none => exact wp_writeFiles_any hdest hl hmeans hrels
                | some mode =>
                    simp only [wp_bind]
                    have hv := strippedRel_valid hclean hs
                    apply wp_mono (wp_writeFile hdest hl hv entry.reads mode written)
                    · intro w d₁ h₁
                      obtain ⟨chunks, -, hnode, -, -⟩ := h₁.chunks
                      have hmeans₁ : Means dest (fun _ _ => True) (files ++ [rel]) d₁.tree := by
                        intro r hr
                        rcases List.mem_append.mp hr with hr | hr
                        · obtain ⟨content, m, hn, -⟩ := hmeans r hr
                          exact ⟨content, m, h₁.stays _ _ hn, trivial⟩
                        · cases List.mem_singleton.mp hr
                          exact ⟨_, _, hnode, trivial⟩
                      have hrels₁ : FileRels plan (files ++ [rel]) := by
                        intro f hf
                        rcases List.mem_append.mp hf with hf | hf
                        · exact hrels f hf
                        · cases List.mem_singleton.mp hf
                          exact fileRel_of_lookup hmode
                      exact wp_writeFiles_any hdest h₁.laid hmeans₁ hrels₁
                    · intro _ _ _
                      trivial

/-- A planned symlink's target was validated against its final path. -/
theorem Accounts.symlink_valid {before : List PlannedEntry} {entries : List TarEntry}
    (h : Accounts strip before entries plan) {item : PlannedEntry} (hitem : item ∈ plan)
    {target : Str} (hk : item.kind = .symlink target) :
    validateSymlink item.rel target = .ok () := by
  obtain ⟨e, -, -, hp⟩ := h.exists_entry item hitem
  obtain ⟨kind, -, hr⟩ := hp.kind
  rw [hk] at hr
  cases kind with
  | dir => cases Except.ok.inj hr
  | file mode => cases Except.ok.inj hr
  | hardlink t =>
      simp only [retarget] at hr
      split at hr <;> cases Except.ok.inj hr
  | symlink t =>
      simp only [retarget, bind_eq_ok] at hr
      obtain ⟨⟨⟩, hv, hr⟩ := hr
      cases Except.ok.inj hr
      exact hv

/-- **Every link stays inside**, whatever the second reading gave. -/
theorem linksInside_of_materialize {archive' : TarArchive}
    (hplan : planTargz pf archive = .ok (plan, strip)) (he : EmptyDir dest d.tree)
    (hm : materialize pf archive' plan strip dest d = .ok () d') :
    d'.tree.LinksInside dest := by
  obtain ⟨entries, -, hacc, hkeys⟩ := accounts_of_planTargz hplan
  have hwp := wp_materialize archive' strip (fun _ _ => True) (fun _ => True) he hacc.valid hkeys
    (fun item hitem target hk => ⟨hacc.target_valid hitem hk, fun _ _ => trivial⟩)
    (fun items d₁ _ hl _ => wp_mono
      (wp_writeFiles_any he.plain hl (by simp [Means]) (by simp [FileRels]))
      (fun _ _ h => ⟨trivial, h⟩) fun _ _ h => h)
  obtain ⟨d₂, -, hfin⟩ := wp_ok hwp hm
  intro s n target hn
  rw [List.append_assoc] at hn
  obtain ⟨item, hitem, hk, heq⟩ := hfin.links _ _ hn
  obtain ⟨habs, -, hup⟩ := upAtMost_of_validateSymlink (hacc.symlink_valid hitem hk)
  rw [← heq, List.dropLast_concat] at hup
  exact ⟨habs, hup⟩

/-- **Containment**: a walk that starts at the destination, by names none of
which is `..`, never stands outside it, through any links and any number of
them; and so nothing it resolves to is outside. -/
theorem extraction_contained {archive' : TarArchive}
    (hplan : planTargz pf archive = .ok (plan, strip)) (he : EmptyDir dest d.tree)
    (hm : materialize pf archive' plan strip dest d = .ok () d')
    {names : List Name} (hnames : ['.', '.'] ∉ names) :
    (∀ w, d'.tree.Walks (dest, names) w → dest <+: w.1) ∧
      ∀ links q, d'.tree.resolveFrom false links dest names = .ok q → dest <+: q := by
  have hl := linksInside_of_materialize hplan he hm
  have hstart : Inside dest (dest, names) := by
    refine ⟨[], by simp, .of_not_mem (fun h => hnames ?_) 0⟩
    exact List.mem_of_mem_filter h
  have hwalk : ∀ w, d'.tree.Walks (dest, names) w → dest <+: w.1 := fun w hw =>
    (inside_of_walks hl hstart hw).below
  constructor
  · exact hwalk
  · intro links q hq
    exact hwalk _ (walks_of_resolveFrom hq)

theorem extraction_contained_sample :
    ∃ d', materialize asciiPlatform samplePackage samplePlan sampleStrip ["out".toList] sampleDisk
        = .ok () d' ∧
      ∀ w, d'.tree.Walks (["out".toList], ["lib".toList, "tool".toList]) w →
        ["out".toList] <+: w.1 := by
  obtain ⟨⟨⟩, d', hm⟩ := exists_of_returns (d := sampleDisk)
    (x := materialize asciiPlatform samplePackage samplePlan sampleStrip ["out".toList])
    (by decide +kernel)
  exact ⟨d', hm,
    (extraction_contained planTargz_sample sampleDisk_emptyDir hm (by decide)).1⟩

end Contained

end OpenVHost.Pkg
