/-
# The desired configuration set

`renderSet` turns the servable sites and the installed runtimes into the
complete set of generated files, without looking at any file.

* `renderSet_path` — every rendered file is the main configuration, the
  catch-all, a site's file or a pool file.
* `mem_renderSet` — each of them is rendered.
-/

import OpenVHost.Site.Model
import OpenVHost.FileTree.Tree
import Mathlib.Data.List.Pairwise
import Mathlib.Data.Char
import Mathlib.Data.List.Lex
import Mathlib.Data.List.Sort

namespace OpenVHost.Site

open FileTree Text Conf

/-- Why a file operation failed: the system's error, or text that is not UTF-8. -/
inductive IoError where
  | os (e : Errno)
  | notUtf8
  deriving DecidableEq, Repr

inductive ApplyError where
  | missingRuntime (site requested : List Char) (available : List (List Char))
  | conf (e : ConfError)
  | io (op : String) (path : Path) (source : IoError)
  | notAPlainFile (path : Path) (expected found : String)
  | validationFailed (stderr : List Char)
  | rollbackFailed (original rollback : ApplyError) (stranded : List Path)
  | core (e : CoreError)
  deriving DecidableEq

/-- Darwin's `sun_path` without its NUL. -/
def maxSocketPathBytes : Nat := 103

def listenPort : Nat := 8080

def listenAddr : SocketAddr := .v4 ⟨[127, 0, 0, 1], listenPort⟩

/-- A discovered PHP, by the version it provides. -/
structure PhpRuntime where
  major : List Char
  deriving DecidableEq, Repr

structure ApplyInput [Uuid] where
  home : Home
  sites : List Site
  php : List PhpRuntime
  settings : WebServerSettings
  defaultPhp : Option PhpVersion

/-! ### The catch-all's PHP -/

inductive DefaultPhp where
  | nothingInstalled
  | unset (serving : List Char)
  | preferred (major : List Char)
  | preferredMissing (requested : List Char) (serving : Option (List Char))
  deriving DecidableEq, Repr

def DefaultPhp.resolve (preference : Option PhpVersion) (installed : List PhpRuntime) :
    DefaultPhp :=
  let first := installed.head?.map PhpRuntime.major
  match preference with
  | none =>
      match first with
      | some serving => .unset serving
      | none => .nothingInstalled
  | some preference =>
      match installed.find? fun rt => rt.major == preference.asStr with
      | some rt => .preferred rt.major
      | none => .preferredMissing preference.asStr first

def DefaultPhp.servingMajor : DefaultPhp → Option (List Char)
  | nothingInstalled => none
  | unset serving => some serving
  | preferred major => some major
  | preferredMissing _ serving => serving

/-! ### Rendering -/

section Render

variable [Uuid]

def isServable (s : Site) : Bool := s.enabled && s.webServer == .nginx

def servable (sites : List Site) : List Site := sites.filter isServable

/-- The php-fpm socket of a major, if `sun_path` has room for it. -/
def socketPath (home : Home) (major : List Char) : Except ApplyError (List Char) :=
  let p := joinText (joinText home.text "run".toList)
    ("php-fpm-".toList ++ major ++ ".sock".toList)
  if maxSocketPathBytes < utf8Len p then .error (.core (.socketPathTooLong p (utf8Len p)))
  else .ok p

/-- From the id and not the domain: dropping characters of a domain is not injective. -/
def upstreamName (id : SiteId) : List Char := "php_".toList ++ id.asStr.filter (· != '-')

variable [Tera]

/-- Lift an error of the configuration crate. -/
def conf {α : Type} : Except ConfError α → Except ApplyError α
  | .ok a => .ok a
  | .error e => .error (.conf e)

def firstMissing (input : ApplyInput) : Option Site :=
  (servable input.sites).find? fun site =>
    !(input.php.any fun rt => rt.major == site.phpVersion.asStr)

def renderSite (input : ApplyInput) (site : Site) : Except ApplyError GeneratedFile := do
  let major := site.phpVersion.asStr
  let socket ← socketPath input.home major
  let ctx ← conf (RenderCtx.new input.home site.domain.asStr site.docroot.asStr listenAddr major
    (.unixSocket socket) (upstreamName site.id))
  conf (NginxAdapter.generateSiteConfig ctx)

def renderPool (input : ApplyInput) (rt : PhpRuntime) :
    Except ApplyError (Option GeneratedFile) := do
  let socket ← socketPath input.home rt.major
  conf (generatePoolConfig input.home rt.major (.unixSocket socket))

/-- The upstream of the catch-all. -/
def defaultUpstream (input : ApplyInput) : Except ApplyError (Option PhpUpstream) :=
  match (DefaultPhp.resolve input.defaultPhp input.php).servingMajor with
  | some major => do
      let socket ← socketPath input.home major
      .ok (some (.unixSocket socket))
  | none => .ok none

/-- A stable sort by path. -/
def sortByPath {α : Type} (path : α → Path) (xs : List α) : List α :=
  xs.insertionSort fun a b => path a ≤ path b

/-- The complete desired set, sorted by path. -/
def renderSet (input : ApplyInput) : Except ApplyError (List GeneratedFile) :=
  match firstMissing input with
  | some site =>
      .error (.missingRuntime site.name.asStr site.phpVersion.asStr
        (input.php.map PhpRuntime.major))
  | none => do
      let main ← conf (NginxAdapter.generateMainConfig input.home input.settings)
      let upstream ← defaultUpstream input
      let default ←
        conf (NginxAdapter.generateDefaultSiteConfig input.home listenAddr upstream)
      let sites ← (servable input.sites).mapM' (renderSite input)
      let pools ← input.php.mapM' (renderPool input)
      .ok (sortByPath GeneratedFile.path
        ([main, default] ++ sites ++ pools.filterMap id))

end Render

/-! ### Where the generated files are -/

/-- The places of generated files: the main configuration, the files of sites
and the pool file of each major. -/
inductive OwnedPath (home : Home) : Path → Prop where
  | main : OwnedPath home home.mainConf
  | site {name : Name} (hne : name ≠ []) (hs : special (name ++ ".conf".toList) = false) :
      OwnedPath home (home.siteConf name)
  | pool {major : Name} (hs : special major = false) : OwnedPath home (home.poolConf major)

section Paths

variable {home : Home} {p q : Path}

theorem OwnedPath.under (h : OwnedPath home p) :
    ∃ s, p = home.generated ++ s ∧ 2 ≤ s.length ∧ s.length ≤ 3 := by
  cases h with
  | main => exact ⟨_, rfl, by decide, by decide⟩
  | site => exact ⟨_, rfl, by simp, by simp⟩
  | pool => exact ⟨_, rfl, by simp, by simp⟩

theorem OwnedPath.ne_nil (h : OwnedPath home p) : p ≠ [] := by
  obtain ⟨s, rfl, hlen, -⟩ := h.under
  rintro heq
  have := congrArg List.length heq
  rw [List.length_append, List.length_nil] at this
  omega

theorem plain_generated (home : Home) : Plain home.generated :=
  Tree.plain_append.mpr ⟨home.plain, by decide⟩

theorem OwnedPath.plain (h : OwnedPath home p) : Plain p := by
  cases h with
  | main => exact Tree.plain_append.mpr ⟨plain_generated home, by decide⟩
  | site hne hs =>
      refine Tree.plain_append.mpr ⟨plain_generated home, ?_⟩
      intro n hn
      simp only [List.mem_cons, List.not_mem_nil, or_false] at hn
      rcases hn with rfl | rfl | rfl
      · decide
      · decide
      · exact hs
  | pool hs =>
      refine Tree.plain_append.mpr ⟨plain_generated home, ?_⟩
      intro n hn
      simp only [List.mem_cons, List.not_mem_nil, or_false] at hn
      rcases hn with rfl | rfl | rfl
      · decide
      · exact hs
      · decide

/-- The name of a generated file ends in `.conf`. -/
theorem OwnedPath.suffix (h : OwnedPath home p) : ∃ n, p.getLast? = some n ∧ ".conf".toList <:+ n := by
  cases h with
  | main => exact ⟨"nginx.conf".toList, by simp [Home.mainConf], by decide⟩
  | @site name hne hs =>
      exact ⟨name ++ ".conf".toList, by simp [Home.siteConf], List.suffix_append _ _⟩
  | pool hs => exact ⟨"php-fpm.conf".toList, by simp [Home.poolConf], by decide⟩

/-- No generated file sits above another. -/
theorem OwnedPath.not_above (hp : OwnedPath home p) (hq : OwnedPath home q) (h : p <+: q) :
    p = q := by
  cases hp with
  | main =>
      cases hq with
      | main => rfl
      | site hne hs =>
          have := (List.prefix_append_right_inj _).mp h
          simp at this
      | pool hs =>
          have := (List.prefix_append_right_inj _).mp h
          simp at this
  | site hne hs =>
      refine h.eq_of_length ?_
      cases hq with
      | main =>
          have := h.length_le
          simp [Home.siteConf, Home.mainConf] at this
      | site hne' hs' => simp [Home.siteConf]
      | pool hs' => simp [Home.siteConf, Home.poolConf]
  | pool hs =>
      refine h.eq_of_length ?_
      cases hq with
      | main =>
          have := h.length_le
          simp [Home.poolConf, Home.mainConf] at this
      | site hne' hs' => simp [Home.siteConf, Home.poolConf]
      | pool hs' => simp [Home.poolConf]

theorem siteConf_inj {a b : Name} (h : home.siteConf a = home.siteConf b) : a = b := by
  simpa [Home.siteConf] using h

theorem poolConf_inj {a b : Name} (h : home.poolConf a = home.poolConf b) : a = b := by
  simpa [Home.poolConf] using h

theorem mainConf_ne_siteConf {a : Name} : home.mainConf ≠ home.siteConf a := by
  simp [Home.siteConf, Home.mainConf]

theorem mainConf_ne_poolConf {a : Name} : home.mainConf ≠ home.poolConf a := by
  simp [Home.poolConf, Home.mainConf]

theorem siteConf_ne_poolConf {a b : Name} : home.siteConf a ≠ home.poolConf b := by
  simp [Home.poolConf, Home.siteConf]

/-- No domain is the catch-all's name. -/
theorem domain_ne_default (d : Domain) : d.asStr ≠ "00-default_server".toList := by
  intro h
  have := d.label_char '_' (h ▸ by decide)
  exact absurd this (by decide)

end Paths

/-! ### What is rendered -/

section Rendered

/-- A loop that collects what each step returns. -/
theorem mem_mapM' {ε α β : Type} {f : α → Except ε β} {y : β} :
    ∀ {xs : List α} {ys : List β}, xs.mapM' f = .ok ys → (y ∈ ys ↔ ∃ x ∈ xs, f x = .ok y)
  | [], _, h => by
      cases h
      simp
  | x :: xs, _, h => by
      obtain ⟨z, hz, h⟩ := bind_eq_ok.mp h
      obtain ⟨zs, hzs, h⟩ := bind_eq_ok.mp h
      cases h
      simp [mem_mapM' hzs, hz, eq_comm]

theorem exists_of_mapM' {ε α β : Type} {f : α → Except ε β} {x : α} :
    ∀ {xs : List α} {ys : List β}, xs.mapM' f = .ok ys → x ∈ xs → ∃ y, f x = .ok y
  | z :: xs, _, h, hx => by
      obtain ⟨y, hy, h⟩ := bind_eq_ok.mp h
      obtain ⟨ys, hys, -⟩ := bind_eq_ok.mp h
      rcases List.mem_cons.mp hx with rfl | hx
      · exact ⟨y, hy⟩
      · exact exists_of_mapM' hys hx

theorem mem_sortByPath {α : Type} {path : α → Path} {xs : List α} {x : α} :
    x ∈ sortByPath path xs ↔ x ∈ xs :=
  (List.perm_insertionSort _ xs).mem_iff

theorem conf_eq_ok {α : Type} {x : Except ConfError α} {a : α} (h : conf x = .ok a) :
    x = .ok a := by
  cases x with
  | error e => cases h
  | ok b => cases h; rfl

theorem renderCtx_new_eq {home : Home} {serverName docroot phpMajor upstream : List Char}
    {listen : SocketAddr} {up : PhpUpstream} {ctx : RenderCtx}
    (h : RenderCtx.new home serverName docroot listen phpMajor up upstream = .ok ctx) :
    ctx = ⟨home, serverName, docroot, listen, phpMajor, up, upstream⟩ := by
  unfold RenderCtx.new at h
  repeat' split at h
  all_goals cases h
  rfl

variable [Uuid] [Tera] {input : ApplyInput} {files : List GeneratedFile} {f g : GeneratedFile}

theorem renderSite_path {site : Site} (h : renderSite input site = .ok f) :
    f.path = input.home.siteConf site.domain.asStr := by
  obtain ⟨_, -, h⟩ := bind_eq_ok.mp h
  obtain ⟨ctx, hctx, h⟩ := bind_eq_ok.mp h
  have hc := renderCtx_new_eq (conf_eq_ok hctx)
  subst hc
  exact generateSiteConfig_ok site.domain.oneName (conf_eq_ok h)

theorem renderPool_path {rt : PhpRuntime} (hmajor : OneName rt.major)
    (h : renderPool input rt = .ok (some f)) : f.path = input.home.poolConf rt.major := by
  obtain ⟨_, -, h⟩ := bind_eq_ok.mp h
  exact generatePoolConfig_ok hmajor (conf_eq_ok h)

/-- What a rendered file is rendered from. -/
inductive Rendered (input : ApplyInput) (f : GeneratedFile) : Prop where
  | main (h : NginxAdapter.generateMainConfig input.home input.settings = .ok f)
  | default {upstream : Option PhpUpstream} (hup : defaultUpstream input = .ok upstream)
      (h : NginxAdapter.generateDefaultSiteConfig input.home listenAddr upstream = .ok f)
  | site {site : Site} (mem : site ∈ servable input.sites) (h : renderSite input site = .ok f)
  | pool {rt : PhpRuntime} (mem : rt ∈ input.php) (h : renderPool input rt = .ok (some f))

/-- The parts a rendered set is made of. -/
theorem renderSet_parts (h : renderSet input = .ok files) :
    ∃ main upstream default sites pools,
      NginxAdapter.generateMainConfig input.home input.settings = .ok main ∧
      defaultUpstream input = .ok upstream ∧
      NginxAdapter.generateDefaultSiteConfig input.home listenAddr upstream = .ok default ∧
      (servable input.sites).mapM' (renderSite input) = .ok sites ∧
      input.php.mapM' (renderPool input) = .ok pools ∧
      files = sortByPath GeneratedFile.path ([main, default] ++ sites ++ pools.filterMap id) := by
  unfold renderSet at h
  split at h
  next => cases h
  next =>
    obtain ⟨main, hmain, h⟩ := bind_eq_ok.mp h
    obtain ⟨upstream, hup, h⟩ := bind_eq_ok.mp h
    obtain ⟨default, hdefault, h⟩ := bind_eq_ok.mp h
    obtain ⟨sites, hsites, h⟩ := bind_eq_ok.mp h
    obtain ⟨pools, hpools, h⟩ := bind_eq_ok.mp h
    cases h
    exact ⟨main, upstream, default, sites, pools, conf_eq_ok hmain, hup, conf_eq_ok hdefault,
      hsites, hpools, rfl⟩

/-- **What `renderSet` returns** is every rendered file and nothing else. -/
theorem mem_renderSet (h : renderSet input = .ok files) : f ∈ files ↔ Rendered input f := by
  obtain ⟨main, upstream, default, sites, pools, hmain, hup, hdefault, hsites, hpools, rfl⟩ :=
    renderSet_parts h
  rw [mem_sortByPath, List.mem_append, List.mem_append, mem_mapM' hsites, List.mem_filterMap]
  constructor
  · rintro ((hf | ⟨site, hmem, hs⟩) | ⟨pool, hpool, hf⟩)
    · rcases List.mem_pair.mp hf with rfl | rfl
      · exact .main hmain
      · exact .default hup hdefault
    · exact .site hmem hs
    · obtain ⟨rt, hmem, hs⟩ := (mem_mapM' hpools).mp hpool
      subst hf
      exact .pool hmem hs
  · intro hf
    cases hf with
    | main hf =>
        rw [hmain] at hf
        cases hf
        exact .inl (.inl List.mem_cons_self)
    | default hup' hf =>
        rw [hup] at hup'
        cases hup'
        rw [hdefault] at hf
        cases hf
        exact .inl (.inl (List.mem_cons_of_mem _ List.mem_cons_self))
    | site hmem hf => exact .inl (.inr ⟨_, hmem, hf⟩)
    | pool hmem hf => exact .inr ⟨some f, (mem_mapM' hpools).mpr ⟨_, hmem, hf⟩, rfl⟩

/-- The main configuration and the catch-all are always rendered. -/
theorem exists_rendered (h : renderSet input = .ok files) :
    (∃ f, Rendered input f ∧ f.path = input.home.mainConf) ∧
      ∃ f, Rendered input f ∧ f.path = input.home.siteConf "00-default_server".toList := by
  obtain ⟨main, upstream, default, -, -, hmain, hup, hdefault, -⟩ := renderSet_parts h
  exact ⟨⟨main, .main hmain, generateMainConfig_ok hmain⟩,
    ⟨default, .default hup hdefault, generateDefaultSiteConfig_ok hdefault⟩⟩

/-- Every installed major is a version. -/
def MajorsValid (input : ApplyInput) : Prop :=
  ∀ rt ∈ input.php, validPhpVersion rt.major = true

omit [Tera] in
theorem MajorsValid.oneName (hv : MajorsValid input) {rt : PhpRuntime} (h : rt ∈ input.php) :
    OneName rt.major :=
  PhpVersion.oneName ⟨rt.major, hv rt h⟩

theorem Rendered.owned (hv : MajorsValid input) (h : Rendered input f) :
    OwnedPath input.home f.path := by
  cases h with
  | main h => exact generateMainConfig_ok h ▸ .main
  | default _ h =>
      rw [generateDefaultSiteConfig_ok h]
      exact .site (by decide) (by decide)
  | @site site _ h =>
      rw [renderSite_path h]
      exact .site site.domain.ne_nil site.domain.oneName.2
  | pool mem h =>
      rw [renderPool_path (hv.oneName mem) h]
      exact .pool (hv.oneName mem).2

/-- No two sites have the same domain. -/
def DistinctDomains (input : ApplyInput) : Prop :=
  input.sites.Pairwise fun a b => a.domain.asStr ≠ b.domain.asStr

/-- **Two rendered files at one place are the same file**, where no two sites share a domain. -/
theorem Rendered.unique (hv : MajorsValid input) (hd : DistinctDomains input)
    (hf : Rendered input f) (hg : Rendered input g) (heq : f.path = g.path) : f = g := by
  have same : ∀ {ε : Type} {x : Except ε GeneratedFile}, x = .ok f → x = .ok g → f = g := by
    intro ε x h h'
    rw [h] at h'
    cases h'
    rfl
  cases hf with
  | main h =>
      rw [generateMainConfig_ok h] at heq
      cases hg with
      | main h' => exact same h h'
      | default _ h' =>
          rw [generateDefaultSiteConfig_ok h'] at heq
          exact absurd heq mainConf_ne_siteConf
      | site _ h' =>
          rw [renderSite_path h'] at heq
          exact absurd heq mainConf_ne_siteConf
      | pool mem h' =>
          rw [renderPool_path (hv.oneName mem) h'] at heq
          exact absurd heq mainConf_ne_poolConf
  | default hup h =>
      rw [generateDefaultSiteConfig_ok h] at heq
      cases hg with
      | main h' =>
          rw [generateMainConfig_ok h'] at heq
          exact absurd heq.symm mainConf_ne_siteConf
      | default hup' h' =>
          rw [hup] at hup'
          cases hup'
          exact same h h'
      | site _ h' =>
          rw [renderSite_path h'] at heq
          exact absurd (siteConf_inj heq).symm (domain_ne_default _)
      | pool mem h' =>
          rw [renderPool_path (hv.oneName mem) h'] at heq
          exact absurd heq siteConf_ne_poolConf
  | @site a ha h =>
      rw [renderSite_path h] at heq
      cases hg with
      | main h' =>
          rw [generateMainConfig_ok h'] at heq
          exact absurd heq.symm mainConf_ne_siteConf
      | default _ h' =>
          rw [generateDefaultSiteConfig_ok h'] at heq
          exact absurd (siteConf_inj heq) (domain_ne_default _)
      | @site b hb h' =>
          rw [renderSite_path h'] at heq
          have hab : a = b := by
            by_contra hne
            have : Std.Symm fun a b : Site => a.domain.asStr ≠ b.domain.asStr :=
              ⟨fun _ _ h => h.symm⟩
            exact hd.forall (List.mem_of_mem_filter ha) (List.mem_of_mem_filter hb) hne
              (siteConf_inj heq)
          subst hab
          exact same h h'
      | pool mem h' =>
          rw [renderPool_path (hv.oneName mem) h'] at heq
          exact absurd heq siteConf_ne_poolConf
  | @pool a ha h =>
      rw [renderPool_path (hv.oneName ha) h] at heq
      cases hg with
      | main h' =>
          rw [generateMainConfig_ok h'] at heq
          exact absurd heq.symm mainConf_ne_poolConf
      | default _ h' =>
          rw [generateDefaultSiteConfig_ok h'] at heq
          exact absurd heq.symm siteConf_ne_poolConf
      | site _ h' =>
          rw [renderSite_path h'] at heq
          exact absurd heq.symm siteConf_ne_poolConf
      | @pool b hb h' =>
          rw [renderPool_path (hv.oneName hb) h'] at heq
          have hab : a = b := by
            cases a
            cases b
            exact congrArg PhpRuntime.mk (poolConf_inj heq)
          subst hab
          rw [h] at h'
          cases h'
          rfl

end Rendered

end OpenVHost.Site
