/-
# The caps of the extraction

The bytes of an extraction are counted in three places: by the reader that the tar reader
reads from, while a file's content is copied, and after a hard link has been copied. Pass 2
stands here once more as a metered program, which puts down what it writes.

* `Accounted.materialize` — pass 2 with its account; without it, it is pass 2.
* `WithinCap` — what has been written is within the cap, up to the copy of one hard link.
* `extraction_capped` — the plan is within its cap, what is written within the other one at every
  point, and no counter wraps.
-/

import OpenVHost.FileTree.Metered
import OpenVHost.Pkg.Phases
import OpenVHost.Pkg.Plan

namespace OpenVHost.Pkg

open FileTree

/-! ### The reader below the tar reader -/

/-- `LimitedReader` over what the inner reader answers: what its reads return, and what then
remains. The subtraction is on 64-bit counts. -/
def limitedReads (remaining : Nat) : List (Except String Bytes) → List (Except String Bytes) × Nat
  | [] => ([], remaining)
  | .error e :: rest =>
      let more := limitedReads remaining rest
      (.error e :: more.1, more.2)
  | .ok bytes :: rest =>
      if remaining < bytes.length then
        let more := limitedReads remaining rest
        (.error "decompressed stream exceeds the total-bytes cap" :: more.1, more.2)
      else
        let more := limitedReads ((remaining + 2 ^ 64 - bytes.length) % 2 ^ 64) rest
        (.ok bytes :: more.1, more.2)

/-- The bytes of the reads that have gone well. -/
def delivered : List (Except String Bytes) → Nat
  | [] => 0
  | .error _ :: rest => delivered rest
  | .ok bytes :: rest => bytes.length + delivered rest

/-- **Nothing is lost in the count**: what was delivered and what remains are the cap. -/
theorem delivered_limitedReads {remaining : Nat} (h : remaining < 2 ^ 64)
    (reads : List (Except String Bytes)) :
    delivered (limitedReads remaining reads).1 + (limitedReads remaining reads).2 = remaining := by
  induction reads generalizing remaining with
  | nil => simp [limitedReads, delivered]
  | cons read rest ih =>
      cases read with
      | error e => simpa [limitedReads, delivered] using ih h
      | ok bytes =>
          rw [limitedReads]
          split_ifs with hover
          · simpa [delivered] using ih h
          · have hsub : (remaining + 2 ^ 64 - bytes.length) % 2 ^ 64 = remaining - bytes.length := by
              omega
            have hrest := @ih (remaining - bytes.length) (by omega)
            simp only [hsub, delivered]
            omega

/-! ### The counter of pass 1 -/

/-- `stageFrom` with a 64-bit counter of entries. -/
def stageFrom64 (count total : Nat) : List (Except String TarEntry) → Except PkgError (List Staged)
  | [] => .ok []
  | .error e :: _ => .error (reject ("tar entry: " ++ e))
  | .ok entry :: rest => do
      rejectIf ((count + 1) % 2 ^ 64 > maxEntries) "too many entries"
      if entry.entryType.isMetadata then stageFrom64 ((count + 1) % 2 ^ 64) total rest
      else
        let rel ← entryRel "entry path not utf-8" entry
        rejectIf (entry.entryType.isRegular ∧ declare total entry > maxTotalBytes)
          "declared size exceeds cap"
        let kind ← plannedKind entry
        let staged ← stageFrom64 ((count + 1) % 2 ^ 64) (declare total entry) rest
        .ok (⟨rel, kind, classify kind⟩ :: staged)

/-- **The counter does not wrap**: the loop stops before. -/
theorem stageFrom64_eq {count total : Nat} (h : count ≤ maxEntries)
    (entries : List (Except String TarEntry)) :
    stageFrom64 count total entries = stageFrom count total entries := by
  induction entries generalizing count total with
  | nil => rfl
  | cons item rest ih =>
      cases item with
      | error e => rfl
      | ok entry =>
          have hwrap : (count + 1) % 2 ^ 64 = count + 1 := by
            have hmax : maxEntries < 2 ^ 64 - 1 := by decide
            omega
          rw [stageFrom64, stageFrom, hwrap]
          by_cases hmany : count + 1 > maxEntries
          · simp [rejectIf, hmany, bind, Except.bind]
          · simp only [ih (Nat.not_lt.mp hmany)]

theorem length_stageFrom {entries : List (Except String TarEntry)} {count total : Nat}
    {staged : List Staged} (h : stageFrom count total entries = .ok staged)
    (hcount : count ≤ maxEntries) : count + staged.length ≤ maxEntries := by
  induction entries generalizing count total staged with
  | nil =>
      cases h
      exact hcount
  | cons item rest ih =>
      obtain ⟨entry, -, hnext, ⟨-, hrest⟩ | ⟨-, s, staged', rfl, -, hrest⟩⟩ := stageFrom_cons h
      · have hle := ih hrest hnext
        omega
      · have hle := ih hrest hnext
        rw [List.length_cons]
        omega

theorem length_planFrom {pf : Platform} {strip : StripInfo} {staged : List Staged}
    {seen : SeenPaths} {plan : List PlannedEntry} (h : planFrom pf strip seen staged = .ok plan) :
    plan.length ≤ staged.length := by
  induction staged generalizing seen plan with
  | nil =>
      cases h
      exact Nat.le_refl _
  | cons s rest ih =>
      rw [List.length_cons]
      rcases planFrom_cons h with ⟨-, hrest⟩ | ⟨rel, -, ⟨-, -, hrest⟩ | ⟨-, kind, plan', rfl, -, hrest⟩⟩
      · exact (ih hrest).trans (Nat.le_succ _)
      · exact (ih hrest).trans (Nat.le_succ _)
      · rw [List.length_cons]
        exact Nat.succ_le_succ (ih hrest)

/-- **The plan is within its cap.** -/
theorem length_planTargz {pf : Platform} {archive : TarArchive} {plan : List PlannedEntry}
    {strip : StripInfo} (h : planTargz pf archive = .ok (plan, strip)) :
    plan.length ≤ maxEntries := by
  obtain ⟨entries, staged, -, -, hstaged, -, -, hplan⟩ := planTargz_inv h
  have hlen := length_stageFrom hstaged (Nat.zero_le _)
  have hle := length_planFrom hplan
  omega

/-! ### Pass 2 with its account -/

namespace Accounted

def copyCapped (pf : Platform) (out : Path) (total : Nat) :
    List (Except String Bytes) → Metered PkgError Nat
  | [] => pure total
  | .error e :: _ => Metered.lift (Io.fail (reject ("read: " ++ e)))
  | .ok chunk :: rest => do
      if chunk.isEmpty then pure total
      else if saturatingAdd total chunk.length > maxTotalBytes then
        Metered.lift (Io.fail (reject "decompressed size exceeds cap"))
      else
        Metered.mapErr (fun e => reject ("write: " ++ pf.errorText e)) (Metered.append out chunk)
        copyCapped pf out (saturatingAdd total chunk.length) rest

def writeFile (pf : Platform) (out : Path) (reads : List (Except String Bytes))
    (mode written : Nat) : Metered PkgError Nat := do
  Metered.lift (ensureParent out)
  Metered.lift (Io.mapErr (.io "create_new" out) (Io.createNew out))
  let written ← copyCapped pf out written reads
  Metered.lift (setFileMode out mode)
  pure written

def writeFiles (pf : Platform) (strip : StripInfo) (modes : List (Str × Nat)) (dest : Path)
    (written : Nat) : List (Except String TarEntry) → Metered PkgError Nat
  | [] => pure written
  | .error e :: _ => Metered.lift (Io.fail (reject ("tar entry: " ++ e)))
  | .ok entry :: rest =>
      if !entry.entryType.isRegular then writeFiles pf strip modes dest written rest
      else do
        let cleaned ← Metered.lift (Io.ofExcept (entryRel "path not utf-8" entry))
        match strippedRel cleaned strip with
        | none => writeFiles pf strip modes dest written rest
        | some rel =>
            match modes.lookup rel with
            | none => writeFiles pf strip modes dest written rest
            | some mode => do
                let written ← writeFile pf (join dest rel) entry.reads mode written
                writeFiles pf strip modes dest written rest

def copyHardlink (dest : Path) (rel target : Str) (written : Nat) : Metered PkgError Nat := do
  let src := join dest target
  if ← Metered.lift (Io.isFile src) then
    let dst := join dest rel
    Metered.lift (ensureParent dst)
    let copied ← Metered.mapErr (.io "hardlink copy" dst) (Metered.copy src dst)
    if saturatingAdd written copied > maxTotalBytes then
      Metered.lift (Io.fail (reject "decompressed size exceeds cap"))
    else pure (saturatingAdd written copied)
  else Metered.lift (Io.fail (reject ("hardlink target missing: " ++ String.ofList target)))

def copyHardlinks (dest : Path) (written : Nat) : List PlannedEntry → Metered PkgError Nat
  | [] => pure written
  | ⟨rel, .hardlink target⟩ :: rest => do
      let written ← copyHardlink dest rel target written
      copyHardlinks dest written rest
  | _ :: rest => copyHardlinks dest written rest

def materialize (pf : Platform) (archive : TarArchive) (plan : List PlannedEntry)
    (strip : StripInfo) (dest : Path) : Metered PkgError Unit := do
  Metered.lift (createDirs dest (plan.filterMap PlannedEntry.dirRel))
  let entries ← Metered.lift (Io.ofExcept (archive.rewind "tar reread: "))
  let written ← writeFiles pf strip (fileModes plan) dest 0 entries
  let _ ← copyHardlinks dest written plan
  Metered.lift (createSymlinks dest plan)

/-! #### Without the account -/

section Erase

variable (pf : Platform) (strip : StripInfo) (dest out : Path)

theorem meters_copyCapped (reads : List (Except String Bytes)) (total : Nat) :
    Metered.Meters (copyCapped pf out total reads) (Pkg.copyCapped pf out total reads) := by
  induction reads generalizing total with
  | nil => exact .pure total
  | cons read rest ih =>
      cases read with
      | error e => exact .lift _
      | ok chunk =>
          rw [copyCapped, Pkg.copyCapped]
          split_ifs
          · exact .pure total
          · exact .lift _
          · exact .bind (.mapErr (.append out chunk)) fun _ => ih _

theorem meters_writeFile (reads : List (Except String Bytes)) (mode written : Nat) :
    Metered.Meters (writeFile pf out reads mode written) (Pkg.writeFile pf out reads mode written) :=
  .bind (.lift _) fun _ => .bind (.lift _) fun _ =>
    .bind (meters_copyCapped pf out reads written) fun _ => .bind (.lift _) fun _ => .pure _

theorem meters_writeFiles (modes : List (Str × Nat)) (entries : List (Except String TarEntry))
    (written : Nat) :
    Metered.Meters (writeFiles pf strip modes dest written entries)
      (Pkg.writeFiles pf strip modes dest written entries) := by
  induction entries generalizing written with
  | nil => exact .pure written
  | cons item rest ih =>
      cases item with
      | error e => exact .lift _
      | ok entry =>
          rw [writeFiles, Pkg.writeFiles]
          split_ifs
          · exact ih written
          · refine .bind (.lift _) fun cleaned => ?_
            cases strippedRel cleaned strip with
            | none => exact ih written
            | some rel =>
                dsimp only
                cases modes.lookup rel with
                | none => exact ih written
                | some mode =>
                    exact .bind (meters_writeFile pf _ _ _ _) fun written => ih written

theorem meters_copyHardlink (rel target : Str) (written : Nat) :
    Metered.Meters (copyHardlink dest rel target written)
      (Pkg.copyHardlink dest rel target written) := by
  refine .bind (.lift _) fun isFile => ?_
  cases isFile with
  | false =>
      simp only [Bool.false_eq_true, if_false]
      exact .lift _
  | true =>
      simp only [if_true]
      refine .bind (.lift _) fun _ => .bind (.mapErr (.copy _ _)) fun copied => ?_
      split_ifs
      · exact .lift _
      · exact .pure _

theorem meters_copyHardlinks (plan : List PlannedEntry) (written : Nat) :
    Metered.Meters (copyHardlinks dest written plan) (Pkg.copyHardlinks dest written plan) := by
  induction plan generalizing written with
  | nil => exact .pure written
  | cons item rest ih =>
      obtain ⟨rel, kind⟩ := item
      cases kind with
      | dir => exact ih written
      | file mode => exact ih written
      | symlink target => exact ih written
      | hardlink target =>
          exact .bind (meters_copyHardlink dest rel target written) fun written => ih written

/-- **Without its account it is pass 2.** -/
theorem meters_materialize (archive : TarArchive) (plan : List PlannedEntry) :
    Metered.Meters (materialize pf archive plan strip dest)
      (Pkg.materialize pf archive plan strip dest) :=
  .bind (.lift _) fun _ => .bind (.lift _) fun _ =>
    .bind (meters_writeFiles pf strip dest _ _ _) fun _ =>
      .bind (meters_copyHardlinks dest plan _) fun _ => .lift _

end Erase

/-! #### What the account comes to -/

/-- What has been written is within the cap, up to the copy of one hard link. -/
def WithinCap (log : List Spent) : Prop :=
  spentBytes log ≤ maxTotalBytes ∨
    ∃ before dst bytes, log = before ++ [.copy dst bytes] ∧ spentBytes before ≤ maxTotalBytes

/-- The counter is the account, within the cap. -/
def Counts (written : Nat) (log : List Spent) : Prop :=
  spentBytes log = written ∧ written ≤ maxTotalBytes

theorem Counts.withinCap {written : Nat} {log : List Spent} (h : Counts written log) :
    WithinCap log :=
  .inl (h.1.trans_le h.2)

/-- What is within the cap was within it at every point before. -/
theorem WithinCap.of_prefix {now log : List Spent} (h : WithinCap log) (hnow : now <+: log) :
    WithinCap now := by
  obtain ⟨later, rfl⟩ := hnow
  rcases h with h | ⟨before, dst, bytes, heq, h⟩
  · rw [spentBytes_append] at h
    exact .inl (Nat.le_trans (Nat.le_add_right _ _) h)
  · rcases List.eq_nil_or_concat later with rfl | ⟨init, last, rfl⟩
    · rw [List.append_nil] at heq
      exact .inr ⟨before, dst, bytes, heq, h⟩
    · rw [List.concat_eq_append, ← List.append_assoc] at heq
      obtain ⟨rfl, -⟩ := List.append_inj' heq rfl
      rw [spentBytes_append] at h
      exact .inl (Nat.le_trans (Nat.le_add_right _ _) h)

section Account

variable (pf : Platform) (strip : StripInfo) (dest out : Path) {written : Nat} {log : List Spent}

/-- A chunk is written once it has been counted: nothing here exceeds the cap. -/
theorem wp_copyCapped (reads : List (Except String Bytes)) (h : Counts written log) :
    Metered.wp (copyCapped pf out written reads) Counts WithinCap log := by
  induction reads generalizing written log with
  | nil => exact Metered.wp_pure h
  | cons read rest ih =>
      cases read with
      | error e => exact Metered.wp_fail h.withinCap
      | ok chunk =>
          rw [copyCapped]
          split_ifs with hempty hcap
          · exact Metered.wp_pure h
          · exact Metered.wp_fail h.withinCap
          · obtain ⟨hsum, hle⟩ := h
            have hnext := Nat.not_lt.mp hcap
            have hadd := saturatingAdd_of_le hnext
            refine Metered.wp_bind (Metered.wp_mapErr (Metered.wp_append ?_ ?_))
            · refine ih ⟨?_, hnext⟩
              rw [spentBytes_concat, hsum, hadd]
              rfl
            · intro k hk
              refine .inl ?_
              rw [spentBytes_concat, hsum]
              have hspent : (Spent.append out k).bytes = k := rfl
              omega

theorem wp_writeFile (reads : List (Except String Bytes)) (mode : Nat) (h : Counts written log) :
    Metered.wp (writeFile pf out reads mode written) Counts WithinCap log := by
  refine Metered.wp_bind (Metered.wp_lift (fun _ => ?_) h.withinCap)
  refine Metered.wp_bind (Metered.wp_lift (fun _ => ?_) h.withinCap)
  refine Metered.wp_bind (Metered.wp_mono (wp_copyCapped pf out reads h) ?_ fun _ hE => hE)
  intro written' log' h'
  exact Metered.wp_bind (Metered.wp_lift (fun _ => Metered.wp_pure h') h'.withinCap)

theorem wp_writeFiles (modes : List (Str × Nat)) (entries : List (Except String TarEntry))
    (h : Counts written log) :
    Metered.wp (writeFiles pf strip modes dest written entries) Counts WithinCap log := by
  induction entries generalizing written log with
  | nil => exact Metered.wp_pure h
  | cons item rest ih =>
      cases item with
      | error e => exact Metered.wp_fail h.withinCap
      | ok entry =>
          rw [writeFiles]
          split_ifs
          · exact ih h
          · refine Metered.wp_bind (Metered.wp_lift (fun cleaned => ?_) h.withinCap)
            cases strippedRel cleaned strip with
            | none => exact ih h
            | some rel =>
                dsimp only
                cases modes.lookup rel with
                | none => exact ih h
                | some mode =>
                    refine Metered.wp_bind (Metered.wp_mono
                      (wp_writeFile pf (join dest rel) entry.reads mode h) ?_ fun _ hE => hE)
                    intro written' log' h'
                    exact ih h'

/-- A hard link is counted once it has been copied: this one copy may exceed the cap. -/
theorem wp_copyHardlink (rel target : Str) (h : Counts written log) :
    Metered.wp (copyHardlink dest rel target written) Counts WithinCap log := by
  refine Metered.wp_bind (Metered.wp_lift (fun isFile => ?_) h.withinCap)
  obtain ⟨hsum, hle⟩ := h
  have hcopied : ∀ bytes, WithinCap (log ++ [.copy (join dest rel) bytes]) :=
    fun bytes => .inr ⟨log, join dest rel, bytes, rfl, hsum.trans_le hle⟩
  cases isFile with
  | false =>
      simp only [Bool.false_eq_true, if_false]
      exact Metered.wp_fail (.inl (hsum.trans_le hle))
  | true =>
      simp only [if_true]
      refine Metered.wp_bind (Metered.wp_lift (fun _ => ?_) (.inl (hsum.trans_le hle)))
      refine Metered.wp_bind (Metered.wp_mapErr (Metered.wp_copy (fun copied => ?_) hcopied))
      split_ifs with hcap
      · exact Metered.wp_fail (hcopied copied)
      · have hnext := Nat.not_lt.mp hcap
        refine Metered.wp_pure ⟨?_, hnext⟩
        rw [spentBytes_concat, hsum, saturatingAdd_of_le hnext]
        rfl

theorem wp_copyHardlinks (plan : List PlannedEntry) (h : Counts written log) :
    Metered.wp (copyHardlinks dest written plan) Counts WithinCap log := by
  induction plan generalizing written log with
  | nil => exact Metered.wp_pure h
  | cons item rest ih =>
      obtain ⟨rel, kind⟩ := item
      cases kind with
      | dir => exact ih h
      | file mode => exact ih h
      | symlink target => exact ih h
      | hardlink target =>
          refine Metered.wp_bind
            (Metered.wp_mono (wp_copyHardlink dest rel target h) ?_ fun _ hE => hE)
          intro written' log' h'
          exact ih h'

theorem wp_materialize (archive : TarArchive) (plan : List PlannedEntry) :
    Metered.wp (materialize pf archive plan strip dest)
      (fun _ log => spentBytes log ≤ maxTotalBytes) WithinCap [] := by
  have h : Counts 0 [] := ⟨rfl, Nat.zero_le _⟩
  refine Metered.wp_bind (Metered.wp_lift (fun _ => ?_) h.withinCap)
  refine Metered.wp_bind (Metered.wp_lift (fun entries => ?_) h.withinCap)
  refine Metered.wp_bind (Metered.wp_mono (wp_writeFiles pf strip dest _ entries h) ?_ fun _ hE => hE)
  intro written log h
  refine Metered.wp_bind (Metered.wp_mono (wp_copyHardlinks dest plan h) ?_ fun _ hE => hE)
  intro written log h
  exact Metered.wp_lift (fun _ => h.1.trans_le h.2) h.withinCap

end Account

end Accounted

/-- What a metered run wrote in all. -/
def writtenBy {ε α : Type} : EStateM.Result ε (Disk × List Spent) α → List Spent
  | .ok _ s => s.2
  | .error _ s => s.2

/-- Adding up without wrapping: the sum is a 64-bit count, and it exceeds the cap exactly if the
true sum does. -/
theorem saturatingAdd_exact (a b : Nat) :
    saturatingAdd a b < 2 ^ 64 ∧
      (maxTotalBytes < saturatingAdd a b ↔ maxTotalBytes < a + b) ∧
      (saturatingAdd a b ≤ maxTotalBytes → saturatingAdd a b = a + b) := by
  unfold saturatingAdd maxTotalBytes
  omega

/-- **The extraction is bounded by its caps.** The plan is within the cap of the entries. Pass 2,
with its account or without, does the same; what it has written when it succeeds is within the
cap of the bytes, and what it has written at any point of any run is, up to the copy of one hard
link. No count wraps, whatever sizes the headers declare. -/
theorem extraction_capped (pf : Platform) (archive : TarArchive) :
    (∀ plan strip, planTargz pf archive = .ok (plan, strip) → plan.length ≤ maxEntries) ∧
      (∀ plan strip dest (d : Disk),
        let run := Accounted.materialize pf archive plan strip dest (d, [])
        Metered.forget run = materialize pf archive plan strip dest d ∧
          (∀ u s, run = .ok u s → spentBytes (writtenBy run) ≤ maxTotalBytes) ∧
          ∀ now, now <+: writtenBy run → Accounted.WithinCap now) ∧
      stageFrom64 0 0 archive.entries = stageFrom 0 0 archive.entries ∧
      (∀ reads, delivered (limitedReads maxTotalBytes reads).1 +
        (limitedReads maxTotalBytes reads).2 = maxTotalBytes) ∧
      ∀ a b, saturatingAdd a b < 2 ^ 64 ∧
        (maxTotalBytes < saturatingAdd a b ↔ maxTotalBytes < a + b) ∧
        (saturatingAdd a b ≤ maxTotalBytes → saturatingAdd a b = a + b) := by
  refine ⟨fun plan strip h => length_planTargz h, fun plan strip dest d => ?_,
    stageFrom64_eq (Nat.zero_le _) _, fun reads => delivered_limitedReads (by decide) reads,
    saturatingAdd_exact⟩
  have hwp := Accounted.wp_materialize pf strip dest archive plan d
  refine ⟨Accounted.meters_materialize pf strip dest archive plan (d, []), ?_, ?_⟩
  · intro u s hrun
    simp only [hrun] at hwp ⊢
    exact hwp
  · intro now hnow
    refine Accounted.WithinCap.of_prefix ?_ hnow
    cases hrun : Accounted.materialize pf archive plan strip dest (d, []) with
    | ok u s =>
        simp only [hrun] at hwp
        exact .inl hwp
    | error e s =>
        simp only [hrun] at hwp
        exact hwp

end OpenVHost.Pkg
