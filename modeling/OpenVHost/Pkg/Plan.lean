/-
# What a plan is

`planTargz` accepts an archive only with a plan that accounts for it, entry for
entry: `Accounts` walks the archive and the plan together and lists the only
entries that have no item of their own.

* `planTargz_inv` — what acceptance says: the archive has no error in it, and
  the strip, the staged entries and the plan are what the loops compute.
* `planTargz_wellFormed` — the planned paths are valid names, no two of them
  collide, nothing but metadata, the stripped root and repeated directory
  headers is left out, and no non-directory shares its path.
* `planTargz_sharedRoot` — when the root is stripped, and which entries it has.
-/

import OpenVHost.Pkg.Targz
import Mathlib.Data.List.Pairwise

namespace OpenVHost.Pkg

open FileTree

/-! ### One entry -/

/-- An entry's validated name. -/
def tarName (entry : TarEntry) : Except PkgError Str := entryRel "entry path not utf-8" entry

/-- An entry's final path, where it has one. -/
def finalRel (strip : StripInfo) (entry : TarEntry) : Option Str :=
  match tarName entry with
  | .ok name => strippedRel name strip
  | .error _ => none

/-- The plan item of an entry. -/
structure PlansAs (strip : StripInfo) (entry : TarEntry) (item : PlannedEntry) : Prop where
  rel : finalRel strip entry = some item.rel
  kind : ∃ kind, plannedKind entry = .ok kind ∧ retarget strip item.rel kind = .ok item.kind

theorem classify_eq_directory {kind : PlannedKind} : classify kind = .directory ↔ kind = .dir := by
  cases kind <;> simp [classify]

/-- Retargeting keeps what kind of thing an entry is. -/
theorem retarget_classify {strip : StripInfo} {rel : Str} {kind kind' : PlannedKind}
    (h : retarget strip rel kind = .ok kind') : classify kind' = classify kind := by
  cases kind with
  | dir => exact congrArg classify (Except.ok.inj h).symm
  | file mode => exact congrArg classify (Except.ok.inj h).symm
  | symlink target =>
      simp only [retarget, bind_eq_ok] at h
      obtain ⟨-, -, h⟩ := h
      exact congrArg classify (Except.ok.inj h).symm
  | hardlink target =>
      simp only [retarget] at h
      split at h <;> exact (congrArg classify (Except.ok.inj h)).symm

/-- Only directory entries plan directories. -/
theorem plannedKind_dir {entry : TarEntry} {kind : PlannedKind} (h : plannedKind entry = .ok kind) :
    kind = .dir ↔ entry.entryType = .directory := by
  unfold plannedKind at h
  cases ht : entry.entryType <;> simp only [ht, bind_eq_ok, reduceCtorEq, Except.ok.injEq] at h
  case regular | continuous | directory => simp [← h]
  case symlink =>
    obtain ⟨-, -, rfl⟩ := h
    simp
  case link =>
    obtain ⟨-, -, -, -, rfl⟩ := h
    simp

namespace PlansAs

variable {strip : StripInfo} {entry : TarEntry} {item : PlannedEntry}

theorem dir_iff (h : PlansAs strip entry item) :
    item.kind = .dir ↔ entry.entryType = .directory := by
  obtain ⟨kind, hk, hr⟩ := h.kind
  rw [← classify_eq_directory, retarget_classify hr, classify_eq_directory, plannedKind_dir hk]

theorem valid (h : PlansAs strip entry item) : ValidName item.rel := by
  have hrel := h.rel
  unfold finalRel at hrel
  cases hn : tarName entry with
  | error e => simp [hn] at hrel
  | ok name =>
      rw [hn] at hrel
      refine strippedRel_valid ?_ hrel
      unfold tarName entryRel at hn
      split at hn
      · cases hn
      · cases hn
      · exact validName_of_ok hn

end PlansAs

/-! ### The two loops of pass 1 -/

/-- An entry and what it was staged as. -/
structure StagesAs (entry : TarEntry) (s : Staged) : Prop where
  rel : tarName entry = .ok s.rel
  kind : plannedKind entry = .ok s.kind
  cls : s.cls = classify s.kind

/-- One more staged entry. -/
theorem stageFrom_cons {count total : Nat} {item : Except String TarEntry}
    {rest : List (Except String TarEntry)} {staged : List Staged}
    (h : stageFrom count total (item :: rest) = .ok staged) :
    ∃ entry, item = .ok entry ∧ count + 1 ≤ maxEntries ∧
      ((entry.entryType.isMetadata = true ∧ stageFrom (count + 1) total rest = .ok staged) ∨
        (entry.entryType.isMetadata = false ∧ ∃ s staged', staged = s :: staged' ∧
          StagesAs entry s ∧ stageFrom (count + 1) (declare total entry) rest = .ok staged')) := by
  cases item with
  | error e => cases h
  | ok entry =>
      simp only [stageFrom, rejectIf_bind_eq_ok, Nat.not_lt] at h
      obtain ⟨hcount, h⟩ := h
      refine ⟨entry, rfl, hcount, ?_⟩
      cases hm : entry.entryType.isMetadata with
      | true => exact .inl ⟨rfl, by simpa [hm] using h⟩
      | false =>
          simp only [hm, Bool.false_eq_true, if_false, bind_eq_ok] at h
          obtain ⟨rel, hrel, -, -, kind, hkind, staged', hstaged, heq⟩ := h
          cases heq
          exact .inr ⟨rfl, ⟨rel, kind, classify kind⟩, staged', rfl, ⟨hrel, hkind, rfl⟩, hstaged⟩

/-- **Staging keeps every entry but the metadata**, in order. -/
theorem stageFrom_ok :
    ∀ {items : List (Except String TarEntry)} {count total : Nat} {staged : List Staged},
      stageFrom count total items = .ok staged →
      ∃ entries : List TarEntry, items = entries.map .ok ∧
        List.Forall₂ StagesAs (entries.filter fun e => !e.entryType.isMetadata) staged
  | [], _, _, _, h => by
      cases h
      exact ⟨[], rfl, .nil⟩
  | item :: rest, _, _, _, h => by
      obtain ⟨entry, rfl, -, ⟨hm, hrest⟩ | ⟨hm, s, staged', rfl, hs, hrest⟩⟩ := stageFrom_cons h
      · obtain ⟨entries, rfl, hall⟩ := stageFrom_ok hrest
        exact ⟨entry :: entries, rfl, by simpa [hm] using hall⟩
      · obtain ⟨entries, rfl, hall⟩ := stageFrom_ok hrest
        exact ⟨entry :: entries, rfl, by simpa [hm] using ⟨hs, hall⟩⟩

/-- One more entry planned: left out, a repeated header, or an item. -/
theorem planFrom_cons {pf : Platform} {strip : StripInfo} {seen : SeenPaths} {s : Staged}
    {rest : List Staged} {plan : List PlannedEntry}
    (h : planFrom pf strip seen (s :: rest) = .ok plan) :
    (strippedRel s.rel strip = none ∧ planFrom pf strip seen rest = .ok plan) ∨
      ∃ rel, strippedRel s.rel strip = some rel ∧
        ((s.cls = .directory ∧
            seen.claimed.lookup (collisionKey pf rel) = some ⟨rel, .directory⟩ ∧
            planFrom pf strip seen rest = .ok plan) ∨
          (seen.claimed.lookup (collisionKey pf rel) = none ∧
            ∃ kind plan', plan = ⟨rel, kind⟩ :: plan' ∧ retarget strip rel s.kind = .ok kind ∧
              planFrom pf strip ⟨(collisionKey pf rel, ⟨rel, s.cls⟩) :: seen.claimed⟩ rest
                = .ok plan')) := by
  rw [planFrom] at h
  cases hr : strippedRel s.rel strip with
  | none => exact .inl ⟨rfl, by simpa [hr] using h⟩
  | some rel =>
      simp only [hr, bind_eq_ok] at h
      obtain ⟨⟨admission, seen'⟩, hadm, h⟩ := h
      refine .inr ⟨rel, rfl, ?_⟩
      rcases SeenPaths.admitRel_cases hadm with ⟨rfl, hl, rfl⟩ | ⟨rfl, hc, rfl, hl⟩
      · simp only [bind_eq_ok] at h
        obtain ⟨kind, hk, plan', hp, heq⟩ := h
        cases heq
        exact .inr ⟨hl, kind, plan', rfl, hk, hp⟩
      · exact .inl ⟨hc, hl, h⟩

/-- **What acceptance says**, unfolded. -/
theorem planTargz_inv {pf : Platform} {archive : TarArchive} {plan : List PlannedEntry}
    {strip : StripInfo} (h : planTargz pf archive = .ok (plan, strip)) :
    ∃ (entries : List TarEntry) (staged : List Staged), archive.rewind "tar read: " = .ok (entries.map .ok) ∧
      archive.entries = entries.map .ok ∧ stageFrom 0 0 archive.entries = .ok staged ∧
      List.Forall₂ StagesAs (entries.filter fun e => !e.entryType.isMetadata) staged ∧
      strip = (stripSingleRoot (staged.map Staged.raw)).2 ∧
      planFrom pf strip .new staged = .ok plan := by
  simp only [planTargz, bind_eq_ok] at h
  obtain ⟨items, hitems, staged, hstaged, plan', hplan, heq⟩ := h
  cases heq
  have hitems' : items = archive.entries := by
    unfold TarArchive.rewind at hitems
    split at hitems
    · cases hitems
    · split at hitems
      · cases hitems
      · exact (Except.ok.inj hitems).symm
  obtain ⟨entries, rfl, hall⟩ := stageFrom_ok hstaged
  exact ⟨entries, staged, hitems, hitems'.symm, hitems' ▸ hstaged, hall, rfl, hplan⟩

/-! ### The shared root -/

/-- Every entry lies beneath `root`, a single component, unless it is a
directory entry that names `root` itself. -/
structure SharedRoot (staged : List Staged) (root : Str) : Prop where
  single : '/' ∉ root
  beneath : ∀ s ∈ staged, (s.rel = root ∧ s.kind = .dir) ∨ ∃ rest, s.rel = root ++ '/' :: rest

theorem staged_valid {entries : List TarEntry} {staged : List Staged}
    (h : List.Forall₂ StagesAs entries staged) : ∀ s ∈ staged, ValidName s.rel := by
  induction h with
  | nil => simp
  | cons hs _ ih =>
      rw [List.forall_mem_cons]
      refine ⟨?_, ih⟩
      have hrel := hs.rel
      unfold tarName entryRel at hrel
      split at hrel
      · cases hrel
      · cases hrel
      · exact validName_of_ok hrel

theorem staged_cls {entries : List TarEntry} {staged : List Staged}
    (h : List.Forall₂ StagesAs entries staged) : ∀ s ∈ staged, s.cls = classify s.kind := by
  induction h with
  | nil => simp
  | cons hs _ ih => exact List.forall_mem_cons.mpr ⟨hs.cls, ih⟩

theorem raw_isDir {s : Staged} (h : s.cls = classify s.kind) : s.raw.isDir = true ↔ s.kind = .dir := by
  rw [← classify_eq_directory, ← h]
  cases hc : s.cls <;> simp [Staged.raw, EntryClass.isDir, hc]

theorem not_mem_top (rel : Str) : '/' ∉ top rel := by
  unfold top splitPath
  by_cases h : '/' ∈ rel
  · obtain ⟨s, rest, rfl, hs⟩ := List.eq_append_cons_of_mem h
    rwa [List.splitOn_append_cons_self_of_not_mem hs]
  · rwa [List.splitOn_eq_singleton h]

section Root

variable {entries : List TarEntry} {staged : List Staged}

/-- **When the root is stripped, it is shared.** -/
theorem sharedRoot_of_stripped (hall : List.Forall₂ StagesAs entries staged)
    (h : (stripSingleRoot (staged.map Staged.raw)).2.stripped = true) :
    SharedRoot staged (stripSingleRoot (staged.map Staged.raw)).2.root := by
  rw [stripSingleRoot_snd] at h ⊢
  constructor
  · show '/' ∉ (Option.map _ _).getD []
    cases (staged.map Staged.raw).head? with
    | none => simp
    | some e => exact not_mem_top e.rel
  · have hv : ∀ e ∈ staged.map Staged.raw, ValidName e.rel := by
      intro e he
      obtain ⟨s, hs, rfl⟩ := List.mem_map.mp he
      exact staged_valid hall s hs
    intro s hs
    rcases shouldStrip_spec hv h s.raw (List.mem_map_of_mem hs) with ⟨hr, hd⟩ | hr
    · exact .inl ⟨hr, (raw_isDir (staged_cls hall s hs)).mp hd⟩
    · exact .inr hr

end Root

/-! ### The plan accounts for the archive -/

/-- The archive and its plan, read together; `before` is what is planned
already. An entry without an item of its own is metadata, a directory that is
the stripped root, or a directory under a name that is planned already. -/
inductive Accounts (strip : StripInfo) :
    List PlannedEntry → List TarEntry → List PlannedEntry → Prop where
  | nil {before} : Accounts strip before [] []
  | metadata {before e rest plan} (hm : e.entryType.isMetadata = true)
      (h : Accounts strip before rest plan) : Accounts strip before (e :: rest) plan
  | root {before e rest plan} (hd : e.entryType = .directory) (hs : strip.stripped = true)
      (hn : tarName e = .ok strip.root) (h : Accounts strip before rest plan) :
      Accounts strip before (e :: rest) plan
  | repeated {before e rest plan rel} (hd : e.entryType = .directory)
      (hr : finalRel strip e = some rel) (hb : ⟨rel, .dir⟩ ∈ before)
      (h : Accounts strip before rest plan) : Accounts strip before (e :: rest) plan
  | planned {before e rest plan item} (hm : e.entryType.isMetadata = false)
      (hi : PlansAs strip e item) (h : Accounts strip (before ++ [item]) rest plan) :
      Accounts strip before (e :: rest) (item :: plan)

/-- The claims of `seen` are the planned items. -/
def Claims (pf : Platform) (seen : SeenPaths) (before : List PlannedEntry) : Prop :=
  ∀ key claim, seen.claimed.lookup key = some claim ↔
    ∃ item ∈ before, collisionKey pf item.rel = key ∧ claim = ⟨item.rel, classify item.kind⟩

section Accounts

variable {pf : Platform} {strip : StripInfo} {seen : SeenPaths} {before plan : List PlannedEntry}

theorem Claims.new : Claims pf .new [] := by
  intro key claim
  simp [SeenPaths.new]

/-- A fresh claim is one more planned item. -/
theorem Claims.cons (h : Claims pf seen before) (item : PlannedEntry)
    (hfresh : seen.claimed.lookup (collisionKey pf item.rel) = none) :
    Claims pf ⟨(collisionKey pf item.rel, ⟨item.rel, classify item.kind⟩) :: seen.claimed⟩
      (before ++ [item]) := by
  intro key claim
  simp only [List.lookup_cons, List.mem_append, List.mem_singleton]
  by_cases hk : key = collisionKey pf item.rel
  · subst hk
    simp only [beq_self_eq_true]
    constructor
    · rintro heq
      exact ⟨item, .inr rfl, rfl, (Option.some.inj heq).symm⟩
    · rintro ⟨item', hmem | rfl, hkey, rfl⟩
      · have := (h (collisionKey pf item.rel) _).mpr ⟨item', hmem, hkey, rfl⟩
        rw [hfresh] at this
        cases this
      · rfl
  · have hk' : (key == collisionKey pf item.rel) = false := by simpa using hk
    simp only [hk']
    rw [h key claim]
    constructor
    · rintro ⟨item', hmem, hrest⟩
      exact ⟨item', .inl hmem, hrest⟩
    · rintro ⟨item', hmem | rfl, hkey, hrest⟩
      · exact ⟨item', hmem, hkey, hrest⟩
      · exact absurd hkey.symm hk

/-- Nothing planned has a key that is still fresh. -/
theorem Claims.key_ne (h : Claims pf seen before) {key : Str}
    (hfresh : seen.claimed.lookup key = none) :
    ∀ item ∈ before, collisionKey pf item.rel ≠ key := by
  intro item hitem hkey
  have := (h key _).mpr ⟨item, hitem, hkey, rfl⟩
  rw [hfresh] at this
  cases this

/-- Two items have different collision keys. -/
def KeysDiffer (pf : Platform) (a b : PlannedEntry) : Prop :=
  collisionKey pf a.rel ≠ collisionKey pf b.rel

instance (pf : Platform) : Std.Symm (KeysDiffer pf) := ⟨fun _ _ h => Ne.symm h⟩

/-- **The plan accounts for the archive**, and its keys are pairwise different. -/
theorem accounts_of_loops :
    ∀ {items : List (Except String TarEntry)} {count total : Nat} {staged : List Staged}
      {seen : SeenPaths} {before plan : List PlannedEntry},
      stageFrom count total items = .ok staged →
      planFrom pf strip seen staged = .ok plan →
      Claims pf seen before →
      (strip.stripped = true → SharedRoot staged strip.root) →
      before.Pairwise (KeysDiffer pf) →
      ∃ entries : List TarEntry, items = entries.map .ok ∧ Accounts strip before entries plan ∧
        (before ++ plan).Pairwise (KeysDiffer pf)
  | [], _, _, _, _, before, _, hst, hpl, _, _, hpw => by
      cases hst
      cases hpl
      exact ⟨[], rfl, .nil, by simpa using hpw⟩
  | item :: rest, _, _, _, seen, before, plan, hst, hpl, hcl, hroot, hpw => by
      obtain ⟨e, rfl, -, ⟨hm, hrest⟩ | ⟨hm, s, staged', rfl, hs, hrest⟩⟩ := stageFrom_cons hst
      · obtain ⟨entries, rfl, hacc, hkeys⟩ := accounts_of_loops hrest hpl hcl hroot hpw
        exact ⟨e :: entries, rfl, .metadata hm hacc, hkeys⟩
      · have hroot' : strip.stripped = true → SharedRoot staged' strip.root := fun h =>
          ⟨(hroot h).single, fun s' hs' => (hroot h).beneath s' (List.mem_cons_of_mem _ hs')⟩
        have hdir : s.cls = .directory → e.entryType = .directory := by
          intro hc
          rw [hs.cls, classify_eq_directory] at hc
          exact (plannedKind_dir hs.kind).mp hc
        rcases planFrom_cons hpl with ⟨hnone, hplan⟩ | ⟨rel, hrel, hcase⟩
        · -- the stripped root itself
          obtain ⟨entries, rfl, hacc, hkeys⟩ := accounts_of_loops hrest hplan hcl hroot' hpw
          have hstr : strip.stripped = true := by
            by_contra hc
            have hc' : strip.stripped = false := by simpa using hc
            simp [strippedRel, hc'] at hnone
          rcases (hroot hstr).beneath s (by simp) with ⟨hr, hk⟩ | ⟨tail, hr⟩
          · refine ⟨e :: entries, rfl, .root ((plannedKind_dir hs.kind).mp hk) hstr ?_ hacc, hkeys⟩
            rw [hs.rel, hr]
          · rw [hr, strippedRel_of_stripped hstr] at hnone
            cases hnone
        · have hfinal : finalRel strip e = some rel := by
            rw [finalRel, hs.rel]
            exact hrel
          rcases hcase with ⟨hcls, hl, hplan⟩ | ⟨hl, kind, plan', rfl, hkind, hplan⟩
          · -- a directory header that repeats one before it
            obtain ⟨entries, rfl, hacc, hkeys⟩ := accounts_of_loops hrest hplan hcl hroot' hpw
            obtain ⟨item, hmem, -, hclaim⟩ := (hcl _ _).mp hl
            refine ⟨e :: entries, rfl, .repeated (hdir hcls) hfinal ?_ hacc, hkeys⟩
            have hitem : item = ⟨rel, .dir⟩ := by
              obtain ⟨irel, ikind⟩ := item
              simp only [ClaimedPath.mk.injEq] at hclaim
              obtain ⟨rfl, hc⟩ := hclaim
              rw [classify_eq_directory.mp hc.symm]
            exact hitem ▸ hmem
          · -- a new item
            have hcls : s.cls = classify kind := by rw [hs.cls, retarget_classify hkind]
            rw [hcls] at hplan
            have hpw' : (before ++ [(⟨rel, kind⟩ : PlannedEntry)]).Pairwise (KeysDiffer pf) := by
              rw [List.pairwise_append]
              refine ⟨hpw, List.pairwise_singleton _ _, fun a ha b hb => ?_⟩
              cases List.mem_singleton.mp hb
              exact hcl.key_ne hl a ha
            obtain ⟨entries, rfl, hacc, hkeys⟩ :=
              accounts_of_loops hrest hplan (hcl.cons ⟨rel, kind⟩ hl) hroot' hpw'
            refine ⟨e :: entries, rfl, .planned hm ⟨hfinal, s.kind, hs.kind, hkind⟩ hacc, ?_⟩
            simpa using hkeys

/-- **What acceptance says of the plan.** -/
theorem accounts_of_planTargz {archive : TarArchive} (h : planTargz pf archive = .ok (plan, strip)) :
    ∃ entries : List TarEntry, archive.entries = entries.map .ok ∧
      Accounts strip [] entries plan ∧ plan.Pairwise (KeysDiffer pf) := by
  obtain ⟨entries, staged, -, -, hst, hall, rfl, hpl⟩ := planTargz_inv h
  obtain ⟨entries', heq, hacc, hpw⟩ :=
    accounts_of_loops hst hpl .new (sharedRoot_of_stripped hall) .nil
  exact ⟨entries', heq, hacc, by simpa using hpw⟩

namespace Accounts

variable {entries : List TarEntry}

/-- Every item comes from an entry. -/
theorem exists_entry (h : Accounts strip before entries plan) :
    ∀ item ∈ plan, ∃ e ∈ entries, e.entryType.isMetadata = false ∧ PlansAs strip e item := by
  induction h with
  | nil => simp
  | metadata _ _ ih | root _ _ _ _ ih | repeated _ _ _ _ ih =>
      intro item hitem
      obtain ⟨e, he, hrest⟩ := ih item hitem
      exact ⟨e, List.mem_cons_of_mem _ he, hrest⟩
  | @planned _ e _ _ item hm hi _ ih =>
      rw [List.forall_mem_cons]
      refine ⟨⟨e, List.mem_cons_self, hm, hi⟩, fun item' hitem' => ?_⟩
      obtain ⟨e', he', hrest⟩ := ih item' hitem'
      exact ⟨e', List.mem_cons_of_mem _ he', hrest⟩

/-- **No file and no link is dropped.** -/
theorem exists_item (h : Accounts strip before entries plan) :
    ∀ e ∈ entries, e.entryType.isMetadata = false → e.entryType ≠ .directory →
      ∃ item ∈ plan, PlansAs strip e item := by
  induction h with
  | nil => simp
  | metadata hm _ ih =>
      rw [List.forall_mem_cons]
      exact ⟨fun hm' => absurd (hm.symm.trans hm') (by simp), ih⟩
  | root hd _ _ _ ih | repeated hd _ _ _ ih =>
      rw [List.forall_mem_cons]
      exact ⟨fun _ hne => absurd hd hne, ih⟩
  | planned _ hi _ ih =>
      rw [List.forall_mem_cons]
      refine ⟨fun _ _ => ⟨_, List.mem_cons_self, hi⟩, fun e' he' hm' hd' => ?_⟩
      obtain ⟨item', hitem', hrest⟩ := ih e' he' hm' hd'
      exact ⟨item', List.mem_cons_of_mem _ hitem', hrest⟩

/-- An entry with a final path is a directory planned somewhere, or has an item. -/
theorem planned_cases (h : Accounts strip before entries plan) {e : TarEntry} (he : e ∈ entries)
    (hm : e.entryType.isMetadata = false) {rel : Str} (hr : finalRel strip e = some rel) :
    (e.entryType = .directory ∧ ⟨rel, .dir⟩ ∈ before ++ plan) ∨
      ∃ item ∈ plan, item.rel = rel ∧ PlansAs strip e item := by
  induction h with
  | nil => simp at he
  | metadata hm' _ ih =>
      rcases List.mem_cons.mp he with rfl | he
      · rw [hm] at hm'
        cases hm'
      · exact ih he
  | root _ hs hn _ ih =>
      rcases List.mem_cons.mp he with rfl | he
      · simp [finalRel, hn, strippedRel, hs] at hr
      · exact ih he
  | repeated hd hr' hb _ ih =>
      rcases List.mem_cons.mp he with rfl | he
      · rw [hr] at hr'
        cases hr'
        exact .inl ⟨hd, List.mem_append_left _ hb⟩
      · exact ih he
  | @planned before _ _ plan item _ hi _ ih =>
      rcases List.mem_cons.mp he with rfl | he
      · have heq : item.rel = rel := Option.some.inj (hi.rel.symm.trans hr)
        exact .inr ⟨item, List.mem_cons_self, heq, hi⟩
      · rcases ih he with ⟨hd, hmem⟩ | ⟨item', hmem, hrest⟩
        · exact .inl ⟨hd, by simpa using hmem⟩
        · exact .inr ⟨item', List.mem_cons_of_mem _ hmem, hrest⟩

/-- Two entries with final paths that collide are directories of one name. -/
def SharePath (pf : Platform) (strip : StripInfo) (a b : TarEntry) : Prop :=
  ∀ ra rb, finalRel strip a = some ra → finalRel strip b = some rb →
    collisionKey pf ra = collisionKey pf rb →
    a.entryType = .directory ∧ b.entryType = .directory ∧ ra = rb

theorem eq_of_key_eq {items : List PlannedEntry} (hpw : items.Pairwise (KeysDiffer pf))
    {a b : PlannedEntry} (ha : a ∈ items) (hb : b ∈ items)
    (hkey : collisionKey pf a.rel = collisionKey pf b.rel) : a = b := by
  by_contra hne
  exact hpw.forall ha hb hne hkey

/-- **No non-directory shares its path** with another entry. -/
theorem pairwise_sharePath (h : Accounts strip before entries plan)
    (hpw : (before ++ plan).Pairwise (KeysDiffer pf)) :
    (entries.filter fun e => !e.entryType.isMetadata).Pairwise (SharePath pf strip) := by
  induction h with
  | nil => simp
  | metadata hm _ ih => simpa [hm] using ih hpw
  | @root _ e _ _ hd hs hn _ ih =>
      have hm : e.entryType.isMetadata = false := by simp [hd, EntryType.isMetadata]
      rw [List.filter_cons_of_pos (by simp [hm]), List.pairwise_cons]
      refine ⟨fun b _ ra rb hra => ?_, ih hpw⟩
      simp [finalRel, hn, strippedRel, hs] at hra
  | @repeated before e rest plan rel hd hr hb hacc ih =>
      have hm : e.entryType.isMetadata = false := by simp [hd, EntryType.isMetadata]
      rw [List.filter_cons_of_pos (by simp [hm]), List.pairwise_cons]
      refine ⟨fun b hbm ra rb hra hrb hkey => ?_, ih hpw⟩
      cases hr.symm.trans hra
      obtain ⟨hbm, hbm'⟩ := List.mem_filter.mp hbm
      rcases hacc.planned_cases hbm (by simpa using hbm') hrb with ⟨hbd, hmem⟩ | ⟨item, hmem, rfl, -⟩
      · have := eq_of_key_eq hpw (List.mem_append_left _ hb) hmem hkey
        cases this
        exact ⟨hd, hbd, rfl⟩
      · exact absurd hkey ((List.pairwise_append.mp hpw).2.2 _ hb _ hmem)
  | @planned before e rest plan item hm hi hacc ih =>
      rw [List.filter_cons_of_pos (by simp [hm]), List.pairwise_cons]
      refine ⟨fun b hbm ra rb hra hrb hkey => ?_, ih (by simpa using hpw)⟩
      have hra' : ra = item.rel := Option.some.inj (hra.symm.trans hi.rel)
      subst hra'
      obtain ⟨hbm, hbm'⟩ := List.mem_filter.mp hbm
      rcases hacc.planned_cases hbm (by simpa using hbm') hrb with ⟨hbd, hmem⟩ | ⟨item', hmem, rfl, -⟩
      · have heq := eq_of_key_eq (a := item) hpw (by simp) (by simpa using hmem) hkey
        subst heq
        exact ⟨hi.dir_iff.mp rfl, hbd, rfl⟩
      · have hpw' := (List.pairwise_append.mp hpw).2.1
        exact absurd hkey ((List.pairwise_cons.mp hpw').1 _ hmem)

end Accounts

/-- **The plan is well formed and nothing is lost.** -/
theorem planTargz_wellFormed {archive : TarArchive} (h : planTargz pf archive = .ok (plan, strip)) :
    (∀ item ∈ plan, item.rel ≠ [] ∧ validateEntryName item.rel = .ok item.rel) ∧
    plan.Pairwise (KeysDiffer pf) ∧
    ∃ entries : List TarEntry, archive.entries = entries.map .ok ∧
      Accounts strip [] entries plan ∧
      (∀ e ∈ entries, e.entryType.isMetadata = false → e.entryType ≠ .directory →
        ∃ item ∈ plan, PlansAs strip e item) ∧
      (entries.filter fun e => !e.entryType.isMetadata).Pairwise (Accounts.SharePath pf strip) := by
  obtain ⟨entries, hentries, hacc, hkeys⟩ := accounts_of_planTargz h
  refine ⟨fun item hitem => ?_, hkeys, entries, hentries, hacc, hacc.exists_item,
    hacc.pairwise_sharePath (by simpa using hkeys)⟩
  obtain ⟨e, -, -, hp⟩ := hacc.exists_entry item hitem
  exact ⟨hp.valid.ne_nil, hp.valid.validate⟩

/-- The platform that folds ASCII only, for concrete archives. -/
def asciiPlatform : Platform :=
  { nfc := id, toLowercase := fun s => s.map Char.toLower, errorText := fun _ => "io error" }

/-- A well-behaved entry: a readable name, its bytes in one read. -/
def tarEntry (entryType : EntryType) (path target : String) (content : Bytes) : TarEntry :=
  { entryType := entryType
    path := .ok (some path.toList)
    linkName := .ok (some (some target.toList))
    size := content.length
    mode := some 0o644
    reads := [.ok content] }

def tarArchive (entries : List TarEntry) : TarArchive :=
  { seekError := none, entriesError := none, entries := entries.map .ok }

/-- A root that is declared after its first child, a repeated directory header,
and a link out of a nested directory. -/
def samplePackage : TarArchive :=
  tarArchive
    [tarEntry .regular "pkg/bin/tool" "" [1, 2], tarEntry .directory "pkg/" "" [],
      tarEntry .directory "pkg/lib/" "" [], tarEntry .directory "pkg/lib/" "" [],
      tarEntry .symlink "pkg/lib/tool" "../bin/tool" []]

def samplePlan : List PlannedEntry :=
  [⟨"bin/tool".toList, .file 0o644⟩, ⟨"lib".toList, .dir⟩,
    ⟨"lib/tool".toList, .symlink "../bin/tool".toList⟩]

def sampleStrip : StripInfo := ⟨true, "pkg".toList⟩

theorem planTargz_sample : planTargz asciiPlatform samplePackage = .ok (samplePlan, sampleStrip) := by
  rfl

theorem planTargz_wellFormed_sample :
    (∀ item ∈ samplePlan, item.rel ≠ [] ∧ validateEntryName item.rel = .ok item.rel) ∧
      samplePlan.Pairwise (KeysDiffer asciiPlatform) :=
  ⟨(planTargz_wellFormed planTargz_sample).1, (planTargz_wellFormed planTargz_sample).2.1⟩

end Accounts

end OpenVHost.Pkg
