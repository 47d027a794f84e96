/-
# The download of an archive

The archive is written to a new file as the response comes in, and hashed on the way. The
response, how its body ends, and the digest function are inputs.

* `downloadWith` — the download, with each of its exits.
* `Steady` — the body does not break off, and no write and no removal fails.
* `download_leaves_archive_iff` — what it returns is the archive, verified, and a download that
  fails leaves none, exactly when the place was free and the download is steady.
-/

import OpenVHost.FileTree.Faults
import OpenVHost.Pkg.Validate

namespace OpenVHost.Pkg

open FileTree

/-- How the body of a response ends. -/
inductive BodyEnd where
  | closed
  | failed (reason : String)
  /-- No more data within the stall window. -/
  | stalled
  deriving DecidableEq, Repr

structure Response where
  declared : Option Nat
  chunks : List Bytes
  ending : BodyEnd
  deriving DecidableEq, Repr

structure Limits where
  cap : Nat
  /-- A count that has run into the end of its type is over the cap. -/
  cap_lt : cap < 2 ^ 64 - 1

def sizeCap : Nat := 1024 * 1024 * 1024

def Limits.production : Limits := ⟨sizeCap, by decide⟩

def archiveName : Name := "archive".toList

/-- Give up on the archive: remove it, whether or not this works. -/
def abandon {α : Type} (archive : Path) (e : PkgError) : Io PkgError α := do
  let _ ← Io.attempt (Io.removeFile archive)
  Io.fail e

section Download

variable (limits : Limits) (declared : Option Nat) (archive : Path)

/-- The streaming loop, with the count so far and what has been hashed. -/
def receive (ending : BodyEnd) : Nat → Bytes → List Bytes → Io PkgError (Nat × Bytes)
  | total, hashed, [] =>
      match ending with
      | .closed => pure (total, hashed)
      | .failed reason => Io.fail (.network reason)
      | .stalled => abandon archive (.downloadStalled total declared)
  | total, hashed, chunk :: rest =>
      if limits.cap < saturatingAdd total chunk.length then
        abandon archive (.tooLarge limits.cap)
      else do
        Io.mapErr (.io "write" archive) (Io.append archive chunk)
        receive ending (saturatingAdd total chunk.length) (hashed ++ chunk) rest

/-- The digest, once the archive is complete. -/
def checkDigest (sha256Hex : Bytes → Str) (sha256 : Str) (hashed : Bytes) : Io PkgError Path := do
  -- `sync_all` and `seek` change nothing that is read here
  Io.mapErr (.io "sync" archive) (Io.query fun _ => .ok ())
  if sha256Hex hashed ≠ sha256 then abandon archive (.hashMismatch sha256 (sha256Hex hashed))
  else
    Io.mapErr (.io "seek" archive) (Io.query fun _ => .ok ())
    pure archive

/-- What follows the loop. -/
def verify (sha256Hex : Bytes → Str) (sha256 : Str) (received : Nat × Bytes) : Io PkgError Path :=
  match declared.filter (· ≠ received.1) with
  | some len =>
      abandon archive
        (.network s!"declared content-length {len} but received {received.1} bytes")
  | none => checkDigest archive sha256Hex sha256 received.2

end Download

/-- `download_with`; the request has come to an error of its own, or to a response. The open
file that is returned is named by its path. -/
def downloadWith (sha256Hex : Bytes → Str) (request : Except PkgError Response) (sha256 : Str)
    (stagingDir : Path) (limits : Limits) : Io PkgError Path := do
  let resp ← Io.ofExcept request
  if resp.declared.any (limits.cap < ·) then Io.fail (.tooLarge limits.cap)
  else
    let archive := stagingDir ++ [archiveName]
    Io.mapErr (.io "create_new" archive) (Io.createNew archive)
    let received ← receive limits resp.declared archive resp.ending 0 [] resp.chunks
    verify resp.declared archive sha256Hex sha256 received

/-! ### When a download is steady -/

section Steady

variable (cap : Nat) (declared : Option Nat) (ending : BodyEnd)

/-- The operations that the download comes to after it has created the archive, as long as
they go through: the writes, and then the removal of the archive or the sync and the seek. -/
def operations : Nat → List Bytes → Nat
  | total, [] =>
      match ending with
      | .closed => if (declared.filter (· ≠ total)).isSome then 1 else 2
      | .failed _ => 0
      | .stalled => 1
  | total, chunk :: rest =>
      if cap < total + chunk.length then 1 else operations (total + chunk.length) rest + 1

/-- The body breaks off before it is over the cap. -/
def BreaksOff (total : Nat) (chunks : List Bytes) : Prop :=
  (∃ reason, ending = .failed reason) ∧ total + chunks.flatten.length ≤ cap

/-- The rest of the body does not break off, and the operations that it comes to meet no
fault. -/
def Steady (total : Nat) (chunks : List Bytes) (faults : List (Option Fault)) : Prop :=
  Clear (operations cap declared ending total chunks) faults ∧ ¬ BreaksOff cap ending total chunks

end Steady

theorem special_archiveName : special archiveName = false := by
  decide

section Loop

variable {limits : Limits} {declared : Option Nat} {ending : BodyEnd} {stagingDir : Path}
  {total : Nat} {hashed : Bytes} {chunk : Bytes} {chunks : List Bytes} {d : Disk} {e : PkgError}

/-- What is given up is gone, unless its removal fails. -/
theorem wp_abandon {α : Type} {Q : α → Disk → Prop}
    (hfile : d.tree.FileAt stagingDir archiveName hashed) :
    Io.wp (abandon (stagingDir ++ [archiveName]) e) Q
      (fun _ d' => Clear 1 d.faults ↔ d'.tree.Vacant (stagingDir ++ [archiveName])) d := by
  rw [abandon, Io.wp_bind, Io.wp_attempt]
  have hone : Clear 1 d.faults ↔ d.nextFault = none := by
    rw [clear_succ]
    exact and_iff_left (clear_zero _)
  cases hfault : d.nextFault with
  | some fault =>
      rw [Io.removeFile, Io.update, Io.wp_call_fault hfault]
      show Clear 1 d.faults ↔ d.tree.Vacant _
      rw [hone, hfault]
      exact iff_of_false (by simp) (hfile.not_vacant special_archiveName)
  | none =>
      obtain ⟨t, hremove, hvacant⟩ := hfile.removeFile special_archiveName
      rw [Io.removeFile, Io.update, Io.wp_call_clear hfault, hremove]
      show Clear 1 d.faults ↔ t.Vacant _
      exact iff_of_true (hone.mpr hfault) hvacant

theorem steady_of_over (hover : limits.cap < total + chunk.length) (faults : List (Option Fault)) :
    Steady limits.cap declared ending total (chunk :: chunks) faults ↔ Clear 1 faults := by
  unfold Steady
  rw [operations, if_pos hover]
  refine and_iff_left fun hbreaks => ?_
  have hle := hbreaks.2
  rw [List.flatten_cons, List.length_append] at hle
  omega

theorem steady_cons (hfits : ¬ limits.cap < total + chunk.length) (faults : List (Option Fault)) :
    Steady limits.cap declared ending total (chunk :: chunks) faults ↔
      (faults.head?).join = none ∧
        Steady limits.cap declared ending (total + chunk.length) chunks faults.tail := by
  have hbreaks : BreaksOff limits.cap ending total (chunk :: chunks) ↔
      BreaksOff limits.cap ending (total + chunk.length) chunks := by
    unfold BreaksOff
    rw [List.flatten_cons, List.length_append, Nat.add_assoc]
  unfold Steady
  rw [operations, if_neg hfits, clear_succ, hbreaks, and_assoc]

/-- What the loop returns: the bytes that came, all of them in the file. -/
structure Received (limits : Limits) (stagingDir : Path) (bytes : Bytes) (received : Nat × Bytes)
    (d : Disk) : Prop where
  total : received.1 = bytes.length
  hashed : received.2 = bytes
  within : bytes.length ≤ limits.cap
  file : d.tree.FileAt stagingDir archiveName bytes

/-- **The loop**: it returns with all that came, or fails and leaves the place free exactly if
the rest of the body is steady. -/
theorem wp_receive (hfile : d.tree.FileAt stagingDir archiveName hashed)
    (htotal : total = hashed.length) (hcap : total ≤ limits.cap) :
    Io.wp (receive limits declared (stagingDir ++ [archiveName]) ending total hashed chunks)
      (fun received d' => Received limits stagingDir (hashed ++ chunks.flatten) received d' ∧
        (Steady limits.cap declared ending total chunks d.faults ↔
          Steady limits.cap declared .closed received.1 [] d'.faults))
      (fun _ d' => Steady limits.cap declared ending total chunks d.faults ↔
        d'.tree.Vacant (stagingDir ++ [archiveName])) d := by
  induction chunks generalizing total hashed d with
  | nil =>
      cases ending with
      | closed =>
          rw [receive]
          refine ⟨⟨?_, ?_, ?_, ?_⟩, Iff.rfl⟩
          · simpa using htotal
          · simp
          · simpa [← htotal] using hcap
          · simpa using hfile
      | failed reason =>
          have hunsteady : ¬ Steady limits.cap declared (.failed reason) total [] d.faults :=
            fun h => h.2 ⟨⟨reason, rfl⟩, by simpa using hcap⟩
          rw [receive]
          exact iff_of_false hunsteady (hfile.not_vacant special_archiveName)
      | stalled =>
          have hsteady : Steady limits.cap declared .stalled total [] d.faults ↔ Clear 1 d.faults :=
            and_iff_left fun h => by
              obtain ⟨⟨reason, hreason⟩, -⟩ := h
              cases hreason
          rw [receive]
          simp only [hsteady]
          exact wp_abandon hfile
  | cons chunk rest ih =>
      have hsat : limits.cap < saturatingAdd total chunk.length ↔
          limits.cap < total + chunk.length := by
        have hlt := limits.cap_lt
        unfold saturatingAdd
        omega
      rw [receive]
      by_cases hover : limits.cap < total + chunk.length
      · rw [if_pos (hsat.mpr hover)]
        simp only [steady_of_over hover]
        exact wp_abandon hfile
      · rw [if_neg (mt hsat.mp hover), Io.wp_bind, Io.wp_mapErr]
        simp only [steady_cons hover]
        cases hfault : d.nextFault with
        | some fault =>
            -- a part of the chunk is in the file
            have hpart : ∃ t, d.tree.append (stagingDir ++ [archiveName]) (chunk.take fault.wrote) =
                .ok t ∧ t.FileAt stagingDir archiveName (hashed ++ chunk.take fault.wrote) :=
              hfile.append special_archiveName
            obtain ⟨t, happend, hmore⟩ := hpart
            have hstruck : (d.faults.head?).join ≠ none := by
              show d.nextFault ≠ none
              simp [hfault]
            rw [Io.append, Io.wp_call_fault hfault, happend]
            exact iff_of_false (fun h => hstruck h.1) (hmore.not_vacant special_archiveName)
        | none =>
            have hwhole : ∃ t, d.tree.append (stagingDir ++ [archiveName]) chunk = .ok t ∧
                t.FileAt stagingDir archiveName (hashed ++ chunk) :=
              hfile.append special_archiveName
            obtain ⟨t, happend, hmore⟩ := hwhole
            have hclear : (d.faults.head?).join = none := hfault
            have hnext : saturatingAdd total chunk.length = total + chunk.length := by
              have hlt := limits.cap_lt
              unfold saturatingAdd
              omega
            rw [Io.append, Io.wp_call_clear hfault, happend, hnext]
            simp only [hclear, true_and, List.flatten_cons, ← List.append_assoc]
            exact ih hmore (by rw [List.length_append, htotal]) (Nat.not_lt.mp hover)

/-- A call that changes nothing, and may fail. -/
theorem wp_unchanging {Q : Unit → Disk → Prop} {E : Errno → Disk → Prop}
    (hok : d.nextFault = none → Q () { d with faults := d.faults.tail })
    (herr : ∀ code, d.nextFault ≠ none → E (.other code) { d with faults := d.faults.tail }) :
    Io.wp (Io.query fun _ => .ok ()) Q E d := by
  cases hfault : d.nextFault with
  | some fault =>
      rw [Io.query, Io.wp_call_fault hfault]
      exact herr fault.code (by simp [hfault])
  | none =>
      rw [Io.query, Io.wp_call_clear hfault]
      show Q () { d with faults := d.faults.tail, writes := d.writes ++ [] }
      rw [List.append_nil]
      exact hok hfault

theorem clear_one (faults : List (Option Fault)) : Clear 1 faults ↔ (faults.head?).join = none := by
  rw [clear_succ]
  exact and_iff_left (clear_zero _)

theorem wp_checkDigest {sha256Hex : Bytes → Str} {sha256 : Str} {bytes : Bytes}
    (hfile : d.tree.FileAt stagingDir archiveName bytes) :
    Io.wp (checkDigest (stagingDir ++ [archiveName]) sha256Hex sha256 bytes)
      (fun archive d' =>
        (archive = stagingDir ++ [archiveName] ∧ d'.tree.FileAt stagingDir archiveName bytes ∧
          sha256Hex bytes = sha256) ∧ Clear 2 d.faults)
      (fun _ d' => Clear 2 d.faults ↔ d'.tree.Vacant (stagingDir ++ [archiveName])) d := by
  have hpresent : ¬ d.tree.Vacant (stagingDir ++ [archiveName]) :=
    hfile.not_vacant special_archiveName
  rw [checkDigest, Io.wp_bind, Io.wp_mapErr]
  refine wp_unchanging (fun hsync => ?_) fun code hsync => ?_
  · have hsecond : Clear 2 d.faults ↔ Clear 1 d.faults.tail :=
      clear_succ.trans (and_iff_right hsync)
    simp only [hsecond]
    by_cases hdigest : sha256Hex bytes = sha256
    · rw [if_neg (not_not.mpr hdigest), Io.wp_bind, Io.wp_mapErr]
      refine wp_unchanging (fun hseek => ?_) fun code hseek => ?_
      · exact ⟨⟨rfl, hfile, hdigest⟩, (clear_one _).mpr hseek⟩
      · exact iff_of_false (mt (clear_one _).mp hseek) hpresent
    · rw [if_pos hdigest]
      exact wp_abandon hfile
  · exact iff_of_false (fun h => hsync (clear_succ.mp h).1) hpresent

/-- **What follows the loop.** -/
theorem wp_verify {sha256Hex : Bytes → Str} {sha256 : Str} {received : Nat × Bytes} {bytes : Bytes}
    (h : Received limits stagingDir bytes received d) :
    Io.wp (verify declared (stagingDir ++ [archiveName]) sha256Hex sha256 received)
      (fun archive d' =>
        (archive = stagingDir ++ [archiveName] ∧ d'.tree.FileAt stagingDir archiveName bytes ∧
          sha256Hex bytes = sha256 ∧ ∀ len, declared = some len → bytes.length = len) ∧
        Steady limits.cap declared .closed received.1 [] d.faults)
      (fun _ d' => Steady limits.cap declared .closed received.1 [] d.faults ↔
        d'.tree.Vacant (stagingDir ++ [archiveName])) d := by
  have hends : ¬ BreaksOff limits.cap .closed received.1 [] := by
    rintro ⟨⟨reason, hreason⟩, -⟩
    cases hreason
  have hsteady : Steady limits.cap declared .closed received.1 [] d.faults ↔
      Clear (if (declared.filter (· ≠ received.1)).isSome then 1 else 2) d.faults :=
    and_iff_left hends
  simp only [hsteady]
  unfold verify
  cases hlen : declared.filter (· ≠ received.1) with
  | some len => exact wp_abandon h.file
  | none =>
      have hdeclared : ∀ len, declared = some len → bytes.length = len := by
        rintro len rfl
        have hsame := Option.filter_eq_none_iff.mp hlen len rfl
        have heq : len = received.1 := by simpa using hsame
        rw [heq, h.total]
      rw [h.hashed]
      refine Io.wp_mono (wp_checkDigest h.file) ?_ fun _ _ herr => herr
      rintro archive d' ⟨⟨harchive, hfile, hdigest⟩, hclear⟩
      exact ⟨⟨harchive, hfile, hdigest, hdeclared⟩, hclear⟩

end Loop

/-! ### The download -/

/-- The request has come to a response that is not declared too large, and the archive is
created. -/
def Opens (limits : Limits) (request : Except PkgError Response) (stagingDir : Path) (d : Disk)
    (resp : Response) : Prop :=
  request = .ok resp ∧ ¬ resp.declared.any (limits.cap < ·) = true ∧ d.nextFault = none ∧
    ∃ t, d.tree.createNew (stagingDir ++ [archiveName]) = .ok t

/-- **A download returns the verified archive, or leaves none**, exactly when there was
nothing in its place before and, if it comes to create the archive, it is steady. -/
theorem download_leaves_archive_iff (sha256Hex : Bytes → Str) (request : Except PkgError Response)
    (sha256 : Str) (stagingDir : Path) (limits : Limits) (d : Disk) :
    Io.wp (downloadWith sha256Hex request sha256 stagingDir limits)
        (fun archive d' => ∃ resp, request = .ok resp ∧ archive = stagingDir ++ [archiveName] ∧
          (∃ mode, d'.tree.lstat archive = .ok (.file resp.chunks.flatten mode)) ∧
          sha256Hex resp.chunks.flatten = sha256 ∧ resp.chunks.flatten.length ≤ limits.cap ∧
          ∀ len, resp.declared = some len → resp.chunks.flatten.length = len)
        (fun _ d' => d'.tree.Vacant (stagingDir ++ [archiveName])) d ↔
      d.tree.Vacant (stagingDir ++ [archiveName]) ∧
        ∀ resp, Opens limits request stagingDir d resp →
          Steady limits.cap resp.declared resp.ending 0 resp.chunks d.faults.tail := by
  have hunopened : (∀ resp, ¬ Opens limits request stagingDir d resp) →
      (d.tree.Vacant (stagingDir ++ [archiveName]) ∧
        (∀ resp, Opens limits request stagingDir d resp →
          Steady limits.cap resp.declared resp.ending 0 resp.chunks d.faults.tail) ↔
      d.tree.Vacant (stagingDir ++ [archiveName])) :=
    fun h => and_iff_left fun resp hopens => absurd hopens (h resp)
  refine Io.wp_iff ?_
  rw [downloadWith, Io.wp_bind, Io.wp_ofExcept]
  cases request with
  | error e => exact hunopened fun resp h => by cases h.1
  | ok resp =>
      dsimp only
      by_cases hover : resp.declared.any (limits.cap < ·) = true
      · rw [if_pos hover]
        exact hunopened fun resp' h => by
          cases h.1
          exact h.2.1 hover
      · rw [if_neg hover, Io.wp_bind, Io.wp_mapErr]
        cases hfault : d.nextFault with
        | some fault =>
            rw [Io.createNew, Io.update, Io.wp_call_fault hfault]
            exact hunopened fun resp' h => by simp [h.2.2.1] at hfault
        | none =>
            rw [Io.createNew, Io.update, Io.wp_call_clear hfault]
            cases hcreate : d.tree.createNew (stagingDir ++ [archiveName]) with
            | error e =>
                exact hunopened fun resp' h => by
                  obtain ⟨t, ht⟩ := h.2.2.2
                  rw [hcreate] at ht
                  cases ht
            | ok t =>
                have hopens : ∀ resp', Opens limits (.ok resp) stagingDir d resp' ↔ resp' = resp := by
                  intro resp'
                  constructor
                  · intro h
                    exact (Except.ok.inj h.1).symm
                  · rintro rfl
                    exact ⟨rfl, hover, hfault, t, hcreate⟩
                have hvacant : d.tree.Vacant (stagingDir ++ [archiveName]) :=
                  Tree.vacant_of_createNew special_archiveName hcreate
                have hempty : t.FileAt stagingDir archiveName [] :=
                  Tree.fileAt_createNew special_archiveName hcreate
                simp only [hopens, forall_eq, hvacant, true_and]
                show Io.wp (_ >>= _) _ _ _
                rw [Io.wp_bind]
                refine Io.wp_mono (wp_receive hempty rfl (Nat.zero_le _)) ?_ fun _ _ herr => herr
                rintro received d' ⟨hreceived, hsteady⟩
                rw [List.nil_append] at hreceived
                simp only [hsteady]
                refine Io.wp_mono (wp_verify hreceived) ?_ fun _ _ herr => herr
                rintro archive d'' ⟨⟨rfl, hfile, hdigest, hlen⟩, hrest⟩
                exact ⟨⟨resp, rfl, rfl, hfile.lstat special_archiveName, hdigest,
                  hreceived.within, hlen⟩, hrest⟩

/-- A staging directory that is empty. -/
def emptyStaging : Disk := ⟨Tree.ofNodes [(["staging".toList], .dir none)], [], []⟩

/-- What is at the archive's place after a download that fails. -/
def leftBehind : EStateM.Result PkgError Disk Path → Option Node
  | .ok _ _ => none
  | .error _ d => (d.tree.lstat ["staging".toList, archiveName]).toOption

/-- The connection is reset after a chunk: the download fails, and what came of the archive
stays. -/
theorem broken_stream_leaves_archive :
    (emptyStaging.tree.lstat ["staging".toList, archiveName]).toOption = none ∧
      leftBehind (downloadWith (fun _ => []) (.ok ⟨some 4, [[80, 75]], .failed "connection reset"⟩)
        [] ["staging".toList] Limits.production emptyStaging) = some (.file [80, 75] none) := by
  decide

/-- A stall at the same point leaves nothing. -/
example : leftBehind (downloadWith (fun _ => []) (.ok ⟨some 4, [[80, 75]], .stalled⟩) []
    ["staging".toList] Limits.production emptyStaging) = none := by
  decide

end OpenVHost.Pkg
