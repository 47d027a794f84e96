/-
# What an installation of the tool changes

* `wp_classify` — what each verdict says of the node at the place.
* `Staged`, `wp_drop` — the tree with the staging link, and what dropping it leaves.
* `wp_placeFrom` — a call adds directories on the way to a candidate, and then sets the tool's
  place, leaves a staging link that it could not remove, or changes nothing.
-/

import OpenVHost.Clitool.Model
import OpenVHost.FileTree.Follow

namespace OpenVHost.Clitool

open FileTree FileTree.Io FileTree.Tree

/-! ### The two names -/

theorem special_cliBinaryName : special cliBinaryName = false := by decide

theorem length_between {start stop : List Char} (middle : List Char) {a b : Nat}
    (hstart : start.length = a) (hstop : stop.length = b) :
    (start ++ middle ++ stop).length = middle.length + (a + b) := by
  rw [List.length_append, List.length_append, hstart, hstop]
  omega

theorem length_stagingName (uuid : List Char) :
    (StagingLink.name uuid).length = uuid.length + 23 := by
  have hstart : ".openvhost-install-".toList.length = 19 := by decide
  have hstop : ".tmp".toList.length = 4 := by decide
  exact length_between uuid hstart hstop

theorem special_stagingName (uuid : List Char) : special (StagingLink.name uuid) = false := by
  have hlen := length_stagingName uuid
  rw [special_eq_false]
  refine ⟨?_, ?_, ?_⟩
  · intro h
    rw [h] at hlen
    simp at hlen
  · intro h
    rw [h] at hlen
    simp at hlen
  · intro h
    rw [h] at hlen
    simp at hlen

theorem stagingName_ne (uuid : List Char) : StagingLink.name uuid ≠ cliBinaryName := by
  have hcli : cliBinaryName.length = 9 := by decide
  intro h
  have hlen := length_stagingName uuid
  rw [h, hcli] at hlen
  omega

variable {m : Machine} {uuid : List Char} {source : Source} {dir r : Path}

/-! ### Permitted operations -/

section Permitted

variable {α : Type} {denied : Option Nat} {Q : α → Disk → Prop} {d : Disk}

theorem permitted_none (x : Io Errno α) : permitted none x = x := rfl

theorem wp_permitted {x : Io Errno α} {E : Errno → Disk → Prop}
    (hx : denied = none → wp x Q E d) (hdenied : ∀ code, denied = some code → E (.other code) d) :
    wp (permitted denied x) Q E d := by
  unfold permitted
  cases denied with
  | none => exact hx rfl
  | some code => exact hdenied code rfl

/-- A query that is permitted, its error one way or the other. -/
theorem wp_permitted_query {f : Tree → Except Errno α} {E : Errno → Disk → Prop}
    (hok : ∀ a d', denied = none → Kept d d' → f d.tree = .ok a → Q a d')
    (herr : ∀ e d', Kept d d' → (e = .notFound → f d.tree = .error .notFound) → E e d') :
    wp (permitted denied (query f)) Q E d := by
  refine wp_permitted (fun h => wp_query (fun a d' hk hf => hok a d' h hk hf) fun e d' hk he => ?_)
    fun code _ => herr _ d (Kept.refl d) fun h => by cases h
  refine herr e d' hk ?_
  rintro rfl
  exact he.own (.inr fun code hc => by cases hc)

end Permitted

/-! ### Classification -/

/-- A link and the binary are one file. -/
structure SameFile (m : Machine) (t : Tree) (link : Path) (target : List Char) (source : Source) :
    Prop where
  search : m.search link = none
  followText : m.follow (linked link target) = none
  follow : m.follow source.path = none
  same : ∃ a b, t.resolve link = .ok a ∧ t.resolve source.path = .ok b ∧ m.inode a = m.inode b

theorem wp_sameFile {ε : Type} {E : ε → Disk → Prop} {link : Path} {target : List Char}
    {Q : Bool → Disk → Prop} {d : Disk}
    (h : ∀ b d', Kept d d' → (b = true → SameFile m d.tree link target source) → Q b d') :
    wp (m.sameFile link target source) Q E d := by
  rw [Machine.sameFile, wp_bind, wp_attempt]
  refine wp_permitted_query (fun a d₁ hlink hk ha => ?_) fun e d₁ hk _ => ?_
  · rw [wp_bind, wp_attempt]
    refine wp_permitted_query (fun b d₂ hsource hk₂ hb => ?_) fun e d₂ hk₂ _ => ?_
    · refine h _ d₂ (hk.trans hk₂) fun heq => ?_
      obtain ⟨hsearch, htext⟩ := Option.or_eq_none_iff.mp hlink
      exact ⟨hsearch, htext, hsource, a, b, ha, hk.tree ▸ hb, by simpa using heq⟩
    · exact h false d₂ (hk.trans hk₂) fun hb => by cases hb
  · rw [wp_bind, wp_attempt]
    refine wp_permitted_query (fun b d₂ _ hk₂ _ => ?_) fun e d₂ hk₂ _ => ?_
    · exact h false d₂ (hk.trans hk₂) fun hb => by cases hb
    · exact h false d₂ (hk.trans hk₂) fun hb => by cases hb

/-- What a verdict says of the place in the directory at `r`. -/
def Occupant.Means (m : Machine) (source : Source) (dir r : Path) (t : Tree) : Occupant → Prop
  | absent => t.node (r ++ [cliBinaryName]) = none
  | oursCurrent => ∃ target, t.node (r ++ [cliBinaryName]) = some (.symlink target) ∧
      SameFile m t (dir ++ [cliBinaryName]) target source
  | oursStale target _ => t.node (r ++ [cliBinaryName]) = some (.symlink target) ∧
      looksLikeOurs target = true
  | foreign _ => ∃ x, t.node (r ++ [cliBinaryName]) = some x ∧
      ∀ target, x = .symlink target → looksLikeOurs target = false

/-- **A verdict is about the node at the place.** -/
theorem wp_classify {d : Disk} (hr : d.tree.resolve dir = .ok r) (hd : d.tree.isDir r = true) :
    wp (classify m (dir ++ [cliBinaryName]) (some source))
      (fun occupant d' => Kept d d' ∧ m.search (dir ++ [cliBinaryName]) = none ∧
        occupant.Means m source dir r d.tree)
      (fun _ d' => Kept d d') d := by
  have hlocate : d.tree.locate (dir ++ [cliBinaryName]) = .ok (r ++ [cliBinaryName]) :=
    locate_entry special_cliBinaryName hr hd
  have hlstat := lstat_concat special_cliBinaryName hr hd
  rw [classify, wp_bind, wp_attempt]
  refine wp_permitted ?_ fun code _ => Kept.refl d
  intro hsearch
  refine wp_query (fun a d₁ hk ha => ?_) fun e d₁ hk he => ?_
  · obtain ⟨q, x⟩ := a
    have hx : d.tree.node (r ++ [cliBinaryName]) = some x := by
      rw [hlocate, hlstat] at ha
      cases hx : d.tree.node (r ++ [cliBinaryName]) with
      | none => simp [hx, Except.bind, Except.map] at ha
      | some y =>
          simp only [hx, Except.bind, Except.map, Except.ok.injEq, Prod.mk.injEq] at ha
          rw [ha.2]
    cases x with
    | dir mode => exact ⟨hk, hsearch, _, hx, fun target ht => by cases ht⟩
    | file content mode => exact ⟨hk, hsearch, _, hx, fun target ht => by cases ht⟩
    | symlink text =>
        dsimp only
        rw [wp_bind, wp_mapErr]
        refine wp_permitted_query (fun target d₂ _ hk₂ ht => ?_) fun e d₂ hk₂ _ => hk.trans hk₂
        obtain rfl : text = target := by
          rw [hk.tree, Tree.readLink, hlstat, hx] at ht
          exact Except.ok.inj ht
        have hk₂ := hk.trans hk₂
        rw [wp_bind]
        refine wp_sameFile fun current d₃ hk₃ hcurrent => ?_
        have hk₃ := hk₂.trans hk₃
        cases current with
        | true => exact ⟨hk₃, hsearch, text, hx, hk₂.tree ▸ hcurrent rfl⟩
        | false =>
            rw [if_neg (by simp)]
            split
            next hours =>
              rw [wp_bind, wp_attempt]
              refine wp_permitted_query (fun _ d₄ _ hk₄ _ => ?_) fun e d₄ hk₄ _ => ?_
              · exact ⟨hk₃.trans hk₄, hsearch, hx, hours⟩
              · exact ⟨hk₃.trans hk₄, hsearch, hx, hours⟩
            next hours =>
              refine ⟨hk₃, hsearch, _, hx, fun target ht => ?_⟩
              cases ht
              simpa using hours
  · have hnone : e = .notFound → d.tree.node (r ++ [cliBinaryName]) = none := by
      rintro rfl
      have hown := he.own (.inr fun code hc => by cases hc)
      rw [hlocate, hlstat] at hown
      cases hx : d.tree.node (r ++ [cliBinaryName]) with
      | none => rfl
      | some y => simp [hx, Except.bind, Except.map] at hown
    cases e with
    | notFound => exact ⟨hk, hsearch, hnone rfl⟩
    | _ => exact hk

/-! ### The staging link -/

/-- `t` is `mid` with the staging link in the directory that `dir` leads to. -/
structure Staged (uuid : List Char) (source : Source) (dir : Path) (mid t : Tree) (r : Path) :
    Prop where
  leads : mid.resolve dir = .ok r
  isDir : mid.isDir r = true
  vacant : mid.node (r ++ [StagingLink.name uuid]) = none
  sets : Sets (r ++ [StagingLink.name uuid]) (.symlink source.text) mid t

namespace Staged

variable {mid t : Tree} (h : Staged uuid source dir mid t r)
include h

theorem grows : Grows mid t := h.sets.grows h.vacant

theorem resolve : t.resolve dir = .ok r := h.grows.resolveFrom h.leads

theorem isDir' : t.isDir r = true := h.grows.isDir h.isDir

/-- Beside the staging link everything is as it was. -/
theorem cli : t.node (r ++ [cliBinaryName]) = mid.node (r ++ [cliBinaryName]) := by
  apply h.sets.other
  intro heq
  exact stagingName_ne uuid (List.cons.inj (List.append_cancel_left heq)).1.symm

end Staged

section Staging

variable {d : Disk} {E : Empty → Disk → Prop}

theorem wp_create :
    wp (StagingLink.create m uuid dir source)
      (fun staged d' => staged = some (dir ++ [StagingLink.name uuid]) ∧ m.write dir = none ∧
        (d.faults = [] → d'.faults = []) ∧ ∃ r, Staged uuid source dir d.tree d'.tree r)
      (fun e d' => Kept d d' ∧ ((∃ code, m.write dir = some code ∧ e = .other code) ∨
        m.write dir = none ∧
          Raised d (d.tree.symlink source.text (dir ++ [StagingLink.name uuid]) = .error e) e)) d := by
  rw [StagingLink.create, wp_bind]
  refine wp_permitted (fun hwrite => ?_) fun code hcode => ⟨Kept.refl d, .inl ⟨code, hcode, rfl⟩⟩
  refine wp_update (fun d' h _ hf => ?_) fun e d' hk he => ⟨hk, .inr ⟨hwrite, he⟩⟩
  obtain ⟨r, hr, hd, hnone, hset⟩ := symlink_ok (special_stagingName uuid) h
  exact ⟨rfl, hwrite, hf, r, hr, hd, hnone, hset⟩

/-- **What dropping the staging link leaves**: the tree without it, unless the removal fails. -/
theorem wp_drop {mid : Tree} (h : Staged uuid source dir mid d.tree r) :
    wp (StagingLink.drop (some (dir ++ [StagingLink.name uuid])))
      (fun left d' => (left = none ∧ Same mid d'.tree) ∨
        (left = some (dir ++ [StagingLink.name uuid]) ∧ d'.tree = d.tree ∧ d.faults ≠ [])) E d := by
  have hx := h.sets.at
  rw [StagingLink.drop, wp_bind, wp_attempt]
  refine wp_removeFile (special_stagingName uuid) h.resolve (fun d' hgone htrim => ?_)
    fun e d' hk he => ?_
  · refine .inl ⟨rfl, fun q => ?_⟩
    by_cases hq : q = r ++ [StagingLink.name uuid]
    · rw [hq, hgone, h.vacant]
    · rw [htrim.outside hq, h.sets.other hq]
  · refine .inr ⟨rfl, hk.tree, fun hquiet => ?_⟩
    have hremove := removeFile_entry (special_stagingName uuid) h.resolve h.isDir' hx rfl
    rw [he.own (.inl hquiet)] at hremove
    cases hremove

end Staging

/-! ### What a call makes of the tree -/

/-- `t'` is `t` with new directories on the way to candidates that may be created. -/
def Prepared (candidates : List Candidate) (t t' : Tree) : Prop :=
  ∀ q, t'.node q = t.node q ∨ (t.node q = none ∧ t'.isDir q = true ∧
    ∃ c ∈ candidates, c.createIfAbsent = true ∧ ∃ p, p <+: c.dir ∧ t'.resolve p = .ok q)

namespace Prepared

variable {candidates rest : List Candidate} {c : Candidate} {t t' t'' : Tree}

theorem of_same (h : Same t t') : Prepared candidates t t' := fun q => .inl (h q)

theorem of_paved (hc : c.createIfAbsent = true) (h : Paved c.dir t t') : Prepared [c] t t' :=
  fun q => (h q).imp_right fun ⟨hnone, hdir, hway⟩ => ⟨hnone, hdir, c, by simp, hc, hway⟩

theorem grows (h : Prepared candidates t t') : Grows t t' := by
  intro q x hx
  rcases h q with heq | ⟨hnone, -⟩
  · exact ⟨x, heq.trans hx, rfl⟩
  · rw [hnone] at hx
    cases hx

/-- The way to one candidate and then the ways to the rest. -/
theorem cons (h : Prepared [c] t t') (h' : Prepared rest t' t'') : Prepared (c :: rest) t t'' := by
  intro q
  rcases h' q with heq | ⟨hnone, hdir, b, hb, hcreate, hway⟩
  · rcases h q with heq' | ⟨hnone, hdir, b, hb, hcreate, p, hp, hr⟩
    · exact .inl (heq.trans heq')
    · obtain rfl := List.mem_singleton.mp hb
      exact .inr ⟨hnone, h'.grows.isDir hdir, b, List.mem_cons_self, hcreate, p, hp,
        h'.grows.resolveFrom hr⟩
  · refine .inr ⟨?_, hdir, b, List.mem_cons_of_mem _ hb, hcreate, hway⟩
    by_contra hsome
    obtain ⟨x, hx⟩ := Option.ne_none_iff_exists'.mp hsome
    obtain ⟨y, hy, -⟩ := h.grows q x hx
    rw [hnone] at hy
    cases hy

theorem first (h : Prepared [c] t t') : Prepared (c :: rest) t t' :=
  h.cons (of_same (Same.refl t'))

end Prepared

/-- A result with which the tool's place is as it was. -/
inductive Keeps : Except CliToolError Placed → Prop where
  | error (e : CliToolError) : Keeps (.error e)
  | unchanged (dir : Path) : Keeps (.ok (.unchanged dir))
  | refused (dir : Path) (what : List Char) : Keeps (.ok (.refused dir what))

/-- What a call with this report makes of the tree in which the directories are made: the place
of the tool is set where it was free or held a link of ours, and else there is at most the
staging link that could not be removed. -/
inductive Settled (uuid : List Char) (source : Source) (mid t' : Tree) : Report → Prop where
  | created {dir r : Path} (hr : mid.resolve dir = .ok r)
      (hfree : mid.node (r ++ [cliBinaryName]) = none)
      (hset : Sets (r ++ [cliBinaryName]) (.symlink source.text) mid t') :
      Settled uuid source mid t' ⟨.ok (.created dir), none⟩
  | repointed {dir r : Path} {target : List Char} (hr : mid.resolve dir = .ok r)
      (hlink : mid.node (r ++ [cliBinaryName]) = some (.symlink target))
      (hours : looksLikeOurs target = true)
      (hset : Sets (r ++ [cliBinaryName]) (.symlink source.text) mid t') :
      Settled uuid source mid t' ⟨.ok (.repointed dir), none⟩
  | untouched {result : Except CliToolError Placed} (hresult : Keeps result)
      (hsame : Same mid t') : Settled uuid source mid t' ⟨result, none⟩
  | residue {result : Except CliToolError Placed} {dir r : Path} (hresult : Keeps result)
      (hr : mid.resolve dir = .ok r) (hfree : mid.node (r ++ [StagingLink.name uuid]) = none)
      (hset : Sets (r ++ [StagingLink.name uuid]) (.symlink source.text) mid t') :
      Settled uuid source mid t' ⟨result, some (dir ++ [StagingLink.name uuid])⟩

/-- What the permissions gave a call that reports the tool installed. -/
structure Granted (m : Machine) (dir : Path) : Prop where
  follow : m.follow dir = none
  write : m.write dir = none
  search : m.search (dir ++ [cliBinaryName]) = none

/-- The tree in which a call found the link current. -/
def FoundCurrent (m : Machine) (uuid : List Char) (source : Source) (mid : Tree) (dir : Path) :
    Prop :=
  ∃ r t target, Staged uuid source dir mid t r ∧
    t.node (r ++ [cliBinaryName]) = some (.symlink target) ∧
    SameFile m t (dir ++ [cliBinaryName]) target source

/-- What a call did in the directory it came to. -/
structure Installed (m : Machine) (uuid : List Char) (source : Source) (mid : Tree) (d : Disk)
    (report : Report) (d' : Disk) : Prop where
  settled : Settled uuid source mid d'.tree report
  clean : d.faults = [] → report.left = none
  granted : ∀ dir, report.installedIn = some dir → Granted m dir
  current : ∀ dir, report.result = .ok (.unchanged dir) → FoundCurrent m uuid source mid dir

section Installing

variable {mid : Tree} {d : Disk} {E : Empty → Disk → Prop}

/-- What is left when a call ends with the staging link dropped. -/
theorem Staged.settled_drop {d₁ d₂ : Disk} {left : Option Path}
    {result : Except CliToolError Placed} (h : Staged uuid source dir mid d₁.tree r)
    (hresult : Keeps result)
    (hdrop : (left = none ∧ Same mid d₂.tree) ∨
      (left = some (dir ++ [StagingLink.name uuid]) ∧ d₂.tree = d₁.tree ∧ d₁.faults ≠ [])) :
    Settled uuid source mid d₂.tree ⟨result, left⟩ ∧ (d₁.faults = [] → left = none) := by
  rcases hdrop with ⟨rfl, hsame⟩ | ⟨rfl, htree, hfaults⟩
  · exact ⟨.untouched hresult hsame, fun _ => rfl⟩
  · refine ⟨?_, fun hquiet => absurd hquiet hfaults⟩
    rw [htree]
    exact .residue hresult h.leads h.vacant h.sets

/-- **A rename that goes through sets the tool's place and takes the staging link away.** -/
theorem wp_finish {placed : Placed} (h : Staged uuid source dir mid d.tree r)
    (hsettled : ∀ t', Sets (r ++ [cliBinaryName]) (.symlink source.text) mid t' →
      Settled uuid source mid t' ⟨.ok placed, none⟩) :
    wp (finish (some (dir ++ [StagingLink.name uuid])) (dir ++ [cliBinaryName]) placed)
      (fun report d' => Settled uuid source mid d'.tree report ∧
        (d.faults = [] → report.left = none) ∧
        (report.result = .ok placed ∨ ∃ e, report.result = .error e)) E d := by
  rw [finish, wp_bind, StagingLink.renameOver, wp_bind, wp_attempt]
  refine wp_update (fun d₁ hrename _ _ => ?_) fun e d₁ hk _ => ?_
  · refine ⟨hsettled d₁.tree fun q => ?_, fun _ => rfl, .inl rfl⟩
    rw [rename_over (special_stagingName uuid) special_cliBinaryName (stagingName_ne uuid)
      h.resolve h.isDir' h.sets.at rfl hrename q]
    split
    next => rfl
    next =>
      split
      next hq => rw [hq, h.vacant]
      next hq => exact h.sets.other hq
  · have h₁ : Staged uuid source dir mid d₁.tree r := hk.tree ▸ h
    dsimp only
    rw [wp_bind]
    refine wp_mono (wp_drop (E := E) h₁) (fun left d₂ hdrop => ?_) fun _ _ h => h
    obtain ⟨hsettled, hclean⟩ := h₁.settled_drop
      (.error (.io "install" (dir ++ [cliBinaryName]) (.os e))) hdrop
    exact ⟨hsettled, fun hquiet => hclean (hk.faults hquiet), .inr ⟨_, rfl⟩⟩

/-- **What a call does in the directory it comes to.** -/
theorem wp_install (h : Staged uuid source dir mid d.tree r) (hfollow : m.follow dir = none)
    (hwrite : m.write dir = none) :
    wp (install m dir source (some (dir ++ [StagingLink.name uuid])))
      (Installed m uuid source mid d) E d := by
  rw [install, wp_bind, wp_attempt]
  -- every verdict but two ends with the staging link dropped
  have hdropped : ∀ {d₁ : Disk} {result : Except CliToolError Placed}, Kept d d₁ → Keeps result →
      (∀ left, ∀ dir, Report.installedIn ⟨result, left⟩ = some dir → Granted m dir) →
      (∀ dir, result = .ok (.unchanged dir) → FoundCurrent m uuid source mid dir) →
      wp (StagingLink.drop (some (dir ++ [StagingLink.name uuid])) >>= fun left =>
        pure ⟨result, left⟩) (Installed m uuid source mid d) E d₁ := by
    intro d₁ result hk hresult hgranted hcurrent
    have h₁ : Staged uuid source dir mid d₁.tree r := hk.tree ▸ h
    rw [wp_bind]
    refine wp_mono (wp_drop (E := E) h₁) (fun left d₂ hdrop => ?_) fun _ _ h => h
    obtain ⟨hsettled, hclean⟩ := h₁.settled_drop hresult hdrop
    exact ⟨hsettled, fun hquiet => hclean (hk.faults hquiet), hgranted left, hcurrent⟩
  refine wp_mono (wp_classify h.resolve h.isDir') (fun occupant d₁ hocc => ?_) fun e d₁ hk => ?_
  · obtain ⟨hk, hsearch, hmeans⟩ := hocc
    have h₁ : Staged uuid source dir mid d₁.tree r := hk.tree ▸ h
    have hgrant : Granted m dir := ⟨hfollow, hwrite, hsearch⟩
    have hfinished : ∀ {placed : Placed}, (placed = .created dir ∨ placed = .repointed dir) →
        (∀ t', Sets (r ++ [cliBinaryName]) (.symlink source.text) mid t' →
          Settled uuid source mid t' ⟨.ok placed, none⟩) →
        wp (finish (some (dir ++ [StagingLink.name uuid])) (dir ++ [cliBinaryName]) placed)
          (Installed m uuid source mid d) E d₁ := by
      intro placed hplaced hsettled
      refine wp_mono (wp_finish (E := E) h₁ hsettled) (fun report d₂ hd => ?_) fun _ _ h => h
      obtain ⟨hset, hclean, hresult⟩ := hd
      refine ⟨hset, fun hquiet => hclean (hk.faults hquiet), fun dir' hin => ?_, fun dir' hun => ?_⟩
      · have : dir' = dir := by
          unfold Report.installedIn at hin
          rcases hresult with hok | ⟨e, he⟩
          · rcases hplaced with rfl | rfl
            · rw [hok] at hin
              exact (Option.some.inj hin).symm
            · rw [hok] at hin
              exact (Option.some.inj hin).symm
          · rw [he] at hin
            cases hin
        exact this ▸ hgrant
      · rcases hresult with hok | ⟨e, he⟩
        · rw [hok] at hun
          rcases hplaced with rfl | rfl
          · cases hun
          · cases hun
        · rw [he] at hun
          cases hun
    cases occupant with
    | absent =>
        refine hfinished (.inl rfl) fun t' hset => .created h.leads ?_ hset
        rw [← h.cli]
        exact hmeans
    | oursCurrent =>
        obtain ⟨target, hlink, hsame⟩ := hmeans
        refine hdropped hk (.unchanged dir) (fun left dir' hin => ?_) fun dir' hun => ?_
        · obtain rfl : dir = dir' := Option.some.inj hin
          exact hgrant
        · cases hun
          exact ⟨r, d.tree, target, h, hlink, hsame⟩
    | oursStale target resolves =>
        obtain ⟨hlink, hours⟩ := hmeans
        refine hfinished (.inr rfl) fun t' hset => .repointed h.leads ?_ hours hset
        rw [← h.cli]
        exact hlink
    | foreign what => exact hdropped hk (.refused dir what) (fun _ _ hin => by cases hin) nofun
  · exact hdropped hk (.error e) (fun _ _ hin => by cases hin) nofun

end Installing

/-! ### The walk along the candidates -/

section Walking

variable {d : Disk}

theorem wp_machine_isDir {ε : Type} {E : ε → Disk → Prop} {p : Path} {Q : Bool → Disk → Prop}
    (h : ∀ b d', Kept d d' → (b = true → m.follow p = none ∧ d.tree.namesDir p = true) →
      (b = false → d.faults = [] → m.follow p ≠ none ∨ d.tree.namesDir p = false) → Q b d') :
    wp (m.isDir p) Q E d := by
  rw [Machine.isDir, wp_bind, wp_attempt]
  refine wp_permitted (fun hfollow => ?_) fun code hcode => ?_
  · refine wp_query (fun x d' hk hx => ?_) fun e d' hk he => ?_
    · have hnames : d.tree.namesDir p = x.isDir := by rw [namesDir, hx]
      exact h x.isDir d' hk (fun hb => ⟨hfollow, hnames.trans hb⟩) fun hb _ => .inr (hnames.trans hb)
    · refine h false d' hk nofun fun _ hquiet => .inr ?_
      rw [namesDir, he.own (.inl hquiet)]
  · exact h false d (Kept.refl d) nofun fun _ _ => .inl (by simp [hcode])

theorem wp_createDirAll {p : Path} :
    wp (m.createDirAll p)
      (fun _ d' => m.follow p = none ∧ Paved p d.tree d'.tree ∧ (d.faults = [] → d'.faults = []))
      (fun _ d' => Paved p d.tree d'.tree ∧ (d.faults = [] → d'.faults = [])) d := by
  refine wp_permitted (fun hfollow => ?_) fun code _ => ⟨Paved.refl p d.tree, id⟩
  have hpaved := wp_createDirAllUp_paved p.reverse (d := d)
  rw [List.reverse_reverse] at hpaved
  by_cases hquiet : d.faults = []
  · refine wp_mono (wp_both hpaved (Quiet.createDirAllUp p.reverse d hquiet)) ?_ ?_
    · exact fun _ d' h => ⟨hfollow, h.1, fun _ => h.2⟩
    · exact fun _ d' h => ⟨h.1, fun _ => h.2⟩
  · refine wp_mono hpaved ?_ ?_
    · exact fun _ d' h => ⟨hfollow, h, fun hq => absurd hq hquiet⟩
    · exact fun _ d' h => ⟨h, fun hq => absurd hq hquiet⟩

/-- What preparing a candidate does; one that is not created is only looked at. -/
structure Ready (m : Machine) (c : Candidate) (d : Disk) (ready : Bool) (d' : Disk) : Prop where
  prepared : Prepared [c] d.tree d'.tree
  follow : ready = true → m.follow c.dir = none
  quiet : d.faults = [] → d'.faults = []
  looked : c.createIfAbsent = false → Kept d d'
  passed : c.createIfAbsent = false → ready = false → d.faults = [] →
    m.follow c.dir ≠ none ∨ d.tree.namesDir c.dir = false

theorem wp_prepare {c : Candidate} {E : Empty → Disk → Prop} :
    wp (prepare m c) (Ready m c d) E d := by
  rw [prepare, wp_bind]
  refine wp_machine_isDir fun b d₁ hk htrue hfalse => ?_
  have hsame : Prepared [c] d.tree d₁.tree := .of_same (hk.tree ▸ Same.refl d.tree)
  cases b with
  | true => exact ⟨hsame, fun _ => (htrue rfl).1, hk.faults, fun _ => hk, nofun⟩
  | false =>
      rw [if_neg (by simp)]
      split
      next hcreate =>
        have hno : c.createIfAbsent = false → False := fun h => by simp [hcreate] at h
        rw [wp_bind, wp_attempt]
        refine wp_mono wp_createDirAll (fun _ d₂ h => ?_) fun _ d₂ h => ?_
        · obtain ⟨hfollow, hpaved, hquiet⟩ := h
          exact ⟨.of_paved hcreate (hk.tree ▸ hpaved), fun _ => hfollow, hquiet ∘ hk.faults,
            fun h => (hno h).elim, fun h => (hno h).elim⟩
        · exact ⟨.of_paved hcreate (hk.tree ▸ h.1), nofun, h.2 ∘ hk.faults,
            fun h => (hno h).elim, fun h => (hno h).elim⟩
      next hcreate =>
        exact ⟨hsame, nofun, hk.faults, fun _ => hk, fun _ _ => hfalse rfl⟩

/-- What a walk along candidates does: directories first, then what is done in one of them. -/
def Walked (m : Machine) (uuid : List Char) (source : Source) (candidates : List Candidate)
    (d : Disk) (report : Report) (d' : Disk) : Prop :=
  ∃ mid, Prepared candidates d.tree mid ∧ Installed m uuid source mid d report d'

theorem Walked.cons {c : Candidate} {rest : List Candidate} {d₁ d₂ : Disk} {report : Report}
    (hc : Prepared [c] d.tree d₁.tree) (hquiet : d.faults = [] → d₁.faults = [])
    (h : Walked m uuid source rest d₁ report d₂) : Walked m uuid source (c :: rest) d report d₂ := by
  obtain ⟨mid, hprepared, hinstalled⟩ := h
  exact ⟨mid, hc.cons hprepared,
    { hinstalled with clean := fun hq => hinstalled.clean (hquiet hq) }⟩

/-- A call that fails before it has made anything in a directory. -/
theorem Installed.failed {mid : Tree} {d d' : Disk} {e : CliToolError} (h : Same mid d'.tree) :
    Installed m uuid source mid d ⟨.error e, none⟩ d' where
  settled := .untouched (.error e) h
  clean _ := rfl
  granted _ hin := by cases hin
  current _ hun := by cases hun

/-- **What a call changes**, whatever the permissions are and whatever fails. -/
theorem wp_placeFrom {E : Empty → Disk → Prop} : ∀ (candidates : List Candidate)
    {tried : List Path} {d : Disk},
    wp (placeFrom m uuid source tried candidates) (Walked m uuid source candidates d) E d
  | [], tried, d => ⟨d.tree, .of_same (Same.refl d.tree), .failed (Same.refl d.tree)⟩
  | c :: rest, tried, d => by
      rw [placeFrom, wp_bind]
      refine wp_mono wp_prepare (fun ready d₁ hready => ?_) fun _ _ h => h
      have hrest : ∀ {d₂ : Disk}, Kept d₁ d₂ →
          wp (placeFrom m uuid source (tried ++ [c.dir]) rest)
            (Walked m uuid source (c :: rest) d) E d₂ := by
        intro d₂ hk
        refine wp_mono (wp_placeFrom rest) (fun report d₃ h => ?_) fun _ _ h => h
        exact h.cons (hk.tree ▸ hready.prepared) (hk.faults ∘ hready.quiet)
      cases ready with
      | false => exact hrest (Kept.refl d₁)
      | true =>
          rw [if_pos rfl, wp_bind, wp_attempt]
          refine wp_mono wp_create (fun staged d₂ h => ?_) fun e d₂ h => ?_
          · obtain ⟨rfl, hwrite, hquiet, r, hstaged⟩ := h
            refine wp_mono (wp_install hstaged (hready.follow rfl) hwrite) (fun report d₃ h => ?_)
              fun _ _ h => h
            exact ⟨d₁.tree, hready.prepared.first,
              { h with clean := fun hq => h.clean (hquiet (hready.quiet hq)) }⟩
          · dsimp only
            split
            next => exact hrest h.1
            next => exact ⟨d₂.tree, (h.1.tree ▸ hready.prepared).first, .failed (Same.refl _)⟩

end Walking

end OpenVHost.Clitool
