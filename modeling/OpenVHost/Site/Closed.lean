/-
# The rendered set is closed

The sites, the catch-all and the pools choose their PHP by rules of their own. Where a set is
rendered they agree: what a file of the web server passes requests to is the socket of one pool
file of the set, of the major the file is for. The settings reach the main configuration alone,
and the preference for the default PHP reaches the catch-all alone.

* `renderSet_closed` — both.
-/

import OpenVHost.Conf.Pool
import OpenVHost.Conf.SamePath
import OpenVHost.Site.Ingress

namespace OpenVHost.Site

open FileTree Text Conf

section Closed

variable [Uuid]

/-- No major has a backslash: what is discovered is a version. -/
def MajorsPlain (input : ApplyInput) : Prop := ∀ rt ∈ input.php, '\\' ∉ rt.major

/-! ### Sockets -/

section Sockets

variable {home : Home} {major k p q s : List Char}

omit [Uuid] in
theorem length_le_joinText (p s : List Char) : s.length ≤ (joinText p s).length := by
  unfold joinText
  split_ifs
  · exact le_refl _
  · exact (List.suffix_append p s).length_le
  · exact ((List.suffix_cons '/' s).trans (List.suffix_append p _)).length_le

/-- What the text of a socket starts with. -/
def socketHead (home : Home) : List Char :=
  joinText (joinText home.text "run".toList) "php-fpm-".toList

omit [Uuid] in
theorem length_socketHead (home : Home) : 8 ≤ (socketHead home).length :=
  length_le_joinText _ "php-fpm-".toList

omit [Uuid] in
theorem socketPath_eq (h : socketPath home major = .ok p) :
    p = socketHead home ++ (major ++ ".sock".toList) := by
  unfold socketPath at h
  simp only at h
  split_ifs at h
  cases h
  rw [List.append_assoc, joinText_append (by decide)]
  rfl

omit [Uuid] in
/-- **The sockets of two majors are rendered apart.** -/
theorem socketPath_inj (hm : '\\' ∉ major) (hk : '\\' ∉ k) (hp : socketPath home major = .ok p)
    (hq : socketPath home k = .ok q) (hps : toConfigPath p = .ok s)
    (hqs : toConfigPath q = .ok s) : major = k := by
  rw [socketPath_eq hp] at hps
  rw [socketPath_eq hq] at hqs
  have hsock : '\\' ∉ ".sock".toList := by decide
  have hname : ∀ {m : List Char}, '\\' ∉ m → '\\' ∉ m ++ ".sock".toList := by
    intro m hm h
    exact (List.mem_append.mp h).elim hm hsock
  exact List.append_cancel_right
    (toConfigPath_inj (length_socketHead home) (hname hm) (hname hk) hps hqs)

omit [Uuid] in
/-- A major whose socket is rendered is one line. -/
theorem newline_notMem_major (hp : socketPath home major = .ok p) (hs : toConfigPath p = .ok s) :
    '\n' ∉ major := by
  intro hmem
  have hchar := toConfigPath_accepts_iff.mp ⟨s, hs⟩ '\n' (by
    rw [socketPath_eq hp]
    exact List.mem_append_right _ (List.mem_append_left _ hmem))
  exact absurd hchar (by decide)

end Sockets

/-! ### Upstreams -/

section Upstreams

variable {home serverName docroot listen upstreamName socket p : List Char}

omit [Uuid] in
/-- No directive of a location, or of a server block, is an upstream. -/
theorem upstream_tables : Nginx.sketchParams "upstream" siteTable = [] ∧
    Nginx.sketchParams "upstream" defaultTable = [] ∧
    Nginx.sketchParams "upstream" locationHead = [] ∧
    Nginx.sketchParams "upstream" locationTail = [] ∧
    Nginx.sketchParams "upstream" unixPassTable = [] ∧
    Nginx.sketchParams "upstream" tcpPassTable = [] := by
  decide

omit [Uuid] in
theorem main_tables {name : String} (h : name ∈ ["upstream", "fastcgi_pass"]) :
    Nginx.sketchParams name mainHead = [] ∧ Nginx.sketchParams name mainTail = [] ∧
      Nginx.sketchParams name gzipLevelTable = [] ∧ "gzip_types".toList ≠ name.toList := by
  revert name
  decide

omit [Uuid] in
/-- The main configuration passes nothing on. -/
theorem paramsOf_main {settings : WebServerSettings} {name : String}
    (h : name ∈ ["upstream", "fastcgi_pass"]) :
    Nginx.paramsOf name.toList (mainDirectives home settings) = [] := by
  obtain ⟨hhead, htail, hgzip⟩ := main_tables h
  rw [paramsOf_mainDirectives hgzip hhead htail]
  rfl

omit [Uuid] in
theorem upstreams_default {up : Option PhpUpstream} :
    Nginx.paramsOf "upstream".toList (defaultDirectives home docroot listen socket up) = [] := by
  obtain ⟨-, hdefault, hlocation⟩ := upstream_tables
  rw [paramsOf_defaultDirectives hdefault]
  cases up with
  | none => rfl
  | some up => exact paramsOf_locationDirectives_eq_nil hlocation

omit [Uuid] in
/-- On a Unix socket a site needs no upstream. -/
theorem upstreams_site :
    Nginx.paramsOf "upstream".toList (siteDirectives home serverName docroot listen upstreamName
      socket (.unixSocket p)) = [] := by
  obtain ⟨hsite, -, hlocation⟩ := upstream_tables
  rw [siteDirectives, Nginx.paramsOf_append, Nginx.paramsOf_append,
    paramsOf_locationDirectives_eq_nil hlocation, paramsOf_filled named_tables.1 hsite]
  rfl

end Upstreams

/-! ### The files of a set -/

variable [Tera]

/-- The pool file of a major. -/
def PoolFile (input : ApplyInput) (major : List Char) (f : GeneratedFile) : Prop :=
  ∃ rt ∈ input.php, rt.major = major ∧ renderPool input rt = .ok (some f)

/-- A file of the web server, and the PHP it is for. -/
inductive WebFile (input : ApplyInput) : Option (List Char) → GeneratedFile → Prop where
  | main {f : GeneratedFile}
      (h : NginxAdapter.generateMainConfig input.home input.settings = .ok f) :
      WebFile input none f
  | default {upstream : Option PhpUpstream} {f : GeneratedFile}
      (hup : defaultUpstream input = .ok upstream)
      (h : NginxAdapter.generateDefaultSiteConfig input.home listenAddr upstream = .ok f) :
      WebFile input (DefaultPhp.resolve input.defaultPhp input.php).servingMajor f
  | site {s : Site} {f : GeneratedFile} (mem : s ∈ servable input.sites)
      (h : renderSite input s = .ok f) : WebFile input (some s.phpVersion.asStr) f

/-- What the web server takes from a file: no upstream, and where requests are passed to. -/
def Passes (f : GeneratedFile) (socket : Option (List Char)) : Prop :=
  ∃ ds, Nginx.read f.contents = some ds ∧ Nginx.paramsOf "upstream".toList ds = [] ∧
    Nginx.paramsOf "fastcgi_pass".toList ds =
      (socket.map fun s => ["unix:".toList ++ s]).toList

/-- A socket that one pool file of a set listens on, and that is the file of this major. -/
structure Answered (input : ApplyInput) (files : List GeneratedFile) (major socket : List Char)
    (pool : GeneratedFile) : Prop where
  mem : pool ∈ files
  major : PoolFile input major pool
  listens : ListensOn pool socket
  only : ∀ f ∈ files, ∀ k, PoolFile input k f → ListensOn f socket → f = pool

/-- Two sets with the same paths and, but for the file at one of them, the same files. -/
def SameBut (p : Path) : List GeneratedFile → List GeneratedFile → Prop :=
  List.Forall₂ fun f g => f.path = g.path ∧ (f.path ≠ p → f = g)

section Rendered

variable {input : ApplyInput} {files : List GeneratedFile} {f : GeneratedFile}
  {major m p s : List Char}

theorem PoolFile.listens (h : PoolFile input major f) :
    ∃ p s, socketPath input.home major = .ok p ∧ toConfigPath p = .ok s ∧ ListensOn f s := by
  obtain ⟨rt, -, rfl, h⟩ := h
  obtain ⟨p, hp, h⟩ := bind_eq_ok.mp h
  have h := conf_eq_ok h
  obtain ⟨_, -, hsocket⟩ := bind_eq_ok.mp h
  obtain ⟨s, hs, -⟩ := bind_eq_ok.mp hsocket
  obtain ⟨t, ht, hlisten⟩ := listensOn_generatePoolConfig (newline_notMem_major hp hs) h
  exact ⟨p, t, hp, ht, hlisten⟩

/-- Every installed major has a pool file. -/
theorem exists_poolFile (h : renderSet input = .ok files) {rt : PhpRuntime} (hrt : rt ∈ input.php) :
    ∃ f ∈ files, PoolFile input rt.major f := by
  obtain ⟨r, hr⟩ := (renderSet_returns_iff.mp ⟨files, h⟩).1.pools rt hrt
  have hsome : ∃ f, r = some f := by
    obtain ⟨p, -, hr⟩ := bind_eq_ok.mp hr
    obtain ⟨_, -, hr⟩ := bind_eq_ok.mp (conf_eq_ok hr)
    obtain ⟨_, -, hr⟩ := bind_eq_ok.mp hr
    obtain ⟨_, -, hr⟩ := bind_eq_ok.mp hr
    cases hr
    exact ⟨_, rfl⟩
  obtain ⟨f, rfl⟩ := hsome
  exact ⟨f, (mem_renderSet h).mpr (.pool hrt hr), rt, hrt, rfl, hr⟩

/-- **The socket of an installed major is answered** by its pool alone. -/
theorem exists_answered (hplain : MajorsPlain input) (h : renderSet input = .ok files)
    {rt : PhpRuntime} (hrt : rt ∈ input.php) (hp : socketPath input.home rt.major = .ok p)
    (hs : toConfigPath p = .ok s) : ∃ pool, Answered input files rt.major s pool := by
  obtain ⟨pool, hmem, hpool⟩ := exists_poolFile h hrt
  obtain ⟨q, t, hq, ht, hlistens⟩ := hpool.listens
  obtain rfl : p = q := Except.ok.inj (hp.symm.trans hq)
  obtain rfl : s = t := Except.ok.inj (hs.symm.trans ht)
  refine ⟨pool, hmem, hpool, hlistens, fun g hg k hk hother => ?_⟩
  obtain ⟨q, t, hq, htq, hgt⟩ := hk.listens
  obtain rfl : t = s := hgt.unique hother
  obtain ⟨rt', hrt', rfl, hrender⟩ := hk
  have hmajor : rt'.major = rt.major :=
    socketPath_inj (hplain rt' hrt') (hplain rt hrt) hq hp htq hs
  obtain ⟨rt'', hrt'', hmajor'', hpoolRender⟩ := hpool
  obtain rfl : rt'' = rt' := by
    cases rt'
    cases rt''
    exact congrArg PhpRuntime.mk (hmajor''.trans hmajor.symm)
  rw [hpoolRender] at hrender
  cases hrender
  rfl

omit [Uuid] [Tera] in
/-- What serves the catch-all is installed. -/
theorem servingMajor_installed {preference : Option PhpVersion} {installed : List PhpRuntime}
    (h : (DefaultPhp.resolve preference installed).servingMajor = some m) :
    ∃ rt ∈ installed, rt.major = m := by
  have hfirst : ∀ {k}, installed.head?.map PhpRuntime.major = some k →
      ∃ rt ∈ installed, rt.major = k := by
    intro k hk
    obtain ⟨rt, hrt, rfl⟩ := Option.map_eq_some_iff.mp hk
    exact ⟨rt, List.mem_of_head? hrt, rfl⟩
  unfold DefaultPhp.resolve at h
  cases preference with
  | none =>
      simp only at h
      split at h
      next hk =>
        cases h
        exact hfirst hk
      next => cases h
  | some preference =>
      simp only at h
      split at h
      next rt hrt =>
        cases h
        exact ⟨rt, List.mem_of_find?_eq_some hrt, rfl⟩
      next => exact hfirst h

/-- The PHP of a file of the web server is installed. -/
theorem WebFile.installed (h : renderSet input = .ok files) (hf : WebFile input (some m) f) :
    ∃ rt ∈ input.php, rt.major = m := by
  generalize hm : some m = given at hf
  cases hf with
  | main => cases hm
  | default hup hf => exact servingMajor_installed hm.symm
  | site mem hf =>
      cases hm
      exact ((renderSet_returns_iff.mp ⟨files, h⟩).2 _ (List.mem_filter.mp mem).1
        (List.mem_filter.mp mem).2).1

/-- A file for no PHP passes nothing on. -/
theorem WebFile.passes_none (hsettings : Parsed input.settings) (hf : WebFile input none f) :
    Passes f none := by
  generalize hm : none = given at hf
  cases hf with
  | main hf =>
      obtain ⟨homeStr, -, hread⟩ := read_generateMainConfig hsettings hf
      exact ⟨_, hread, paramsOf_main (by simp), paramsOf_main (by simp)⟩
  | @default up _ hup hf =>
      obtain ⟨homeStr, docroot, socket, -, -, -, hread⟩ := read_generateDefaultSiteConfig hf
      obtain rfl : up = none := by
        unfold defaultUpstream at hup
        rw [← hm] at hup
        cases hup
        rfl
      rw [← hm]
      exact ⟨_, hread, upstreams_default, passes_defaultDirectives⟩
  | site mem hf => cases hm

/-- A file for a PHP passes requests to the socket of its major. -/
theorem WebFile.passes_some (hf : WebFile input (some m) f) :
    ∃ p s, socketPath input.home m = .ok p ∧ toConfigPath p = .ok s ∧ Passes f (some s) := by
  generalize hm : some m = given at hf
  cases hf with
  | main => cases hm
  | @default up _ hup hf =>
      obtain ⟨homeStr, docroot, socket, -, -, hsocket, hread⟩ := read_generateDefaultSiteConfig hf
      unfold defaultUpstream at hup
      rw [← hm] at hup
      obtain ⟨p, hp, hup⟩ := bind_eq_ok.mp hup
      cases hup
      exact ⟨p, socket, hp, hsocket p rfl, _, hread, upstreams_default, passes_defaultDirectives⟩
  | @site site _ mem hf =>
      cases hm
      obtain ⟨p, hp, hf⟩ := bind_eq_ok.mp hf
      obtain ⟨ctx, hctx, hf⟩ := bind_eq_ok.mp hf
      obtain ⟨rfl, hname, hupstream⟩ := plain_of_renderCtx (conf_eq_ok hctx)
      obtain ⟨homeStr, docroot, socket, -, -, hsocket, hread⟩ :=
        read_generateSiteConfig hname hupstream (conf_eq_ok hf)
      exact ⟨p, socket, hp, hsocket p rfl, _, hread, upstreams_site, passes_siteDirectives⟩

end Rendered

/-! ### What a change reaches -/

section Changes

variable {q : Path} {xs ys xs' ys' files files' : List GeneratedFile} {input : ApplyInput}

omit [Uuid] [Tera] in
theorem SameBut.refl (q : Path) (xs : List GeneratedFile) : SameBut q xs xs :=
  List.forall₂_same.mpr fun _ _ => ⟨rfl, fun _ => rfl⟩

omit [Uuid] [Tera] in
theorem SameBut.append (h : SameBut q xs ys) (h' : SameBut q xs' ys') :
    SameBut q (xs ++ xs') (ys ++ ys') :=
  List.rel_append h h'

omit [Uuid] [Tera] in
theorem SameBut.orderedInsert {f g : GeneratedFile} (hfg : f.path = g.path ∧ (f.path ≠ q → f = g))
    (h : SameBut q xs ys) :
    SameBut q (xs.orderedInsert (fun a b => a.path ≤ b.path) f)
      (ys.orderedInsert (fun a b => a.path ≤ b.path) g) := by
  induction h with
  | nil => exact .cons hfg .nil
  | @cons a b xs ys hab hrest ih =>
      rw [List.orderedInsert_cons, List.orderedInsert_cons, ← hfg.1, ← hab.1]
      split_ifs
      · exact .cons hfg (.cons hab hrest)
      · exact .cons hab ih

omit [Uuid] [Tera] in
/-- A sort by path keeps to the paths. -/
theorem SameBut.sorted (h : SameBut q xs ys) :
    SameBut q (sortByPath GeneratedFile.path xs) (sortByPath GeneratedFile.path ys) := by
  induction h with
  | nil => exact .nil
  | cons hfg _ ih => exact SameBut.orderedInsert hfg ih

/-- **The settings reach the main configuration alone.** -/
theorem sameBut_of_settings {settings : WebServerSettings} (h : renderSet input = .ok files)
    (h' : renderSet { input with settings := settings } = .ok files') :
    SameBut input.home.mainConf files files' := by
  obtain ⟨main, up, default, sites, pools, hmain, hup, hdefault, hsites, hpools, rfl⟩ :=
    renderSet_parts h
  obtain ⟨main', up', default', sites', pools', hmain', hup', hdefault', hsites', hpools', rfl⟩ :=
    renderSet_parts h'
  obtain rfl : up = up' := Except.ok.inj (hup.symm.trans hup')
  obtain rfl : default = default' := Except.ok.inj (hdefault.symm.trans hdefault')
  obtain rfl : sites = sites' := Except.ok.inj (hsites.symm.trans hsites')
  obtain rfl : pools = pools' := Except.ok.inj (hpools.symm.trans hpools')
  have hpath := generateMainConfig_ok hmain
  have hframe : SameBut input.home.mainConf [main, default] [main', default] :=
    .cons ⟨hpath.trans (generateMainConfig_ok hmain').symm, fun hne => absurd hpath hne⟩
      (SameBut.refl _ _)
  exact ((hframe.append (SameBut.refl _ sites)).append (SameBut.refl _ _)).sorted

/-- **The preference for the default PHP reaches the catch-all alone.** -/
theorem sameBut_of_defaultPhp {preference : Option PhpVersion} (h : renderSet input = .ok files)
    (h' : renderSet { input with defaultPhp := preference } = .ok files') :
    SameBut (input.home.siteConf "00-default_server".toList) files files' := by
  obtain ⟨main, up, default, sites, pools, hmain, hup, hdefault, hsites, hpools, rfl⟩ :=
    renderSet_parts h
  obtain ⟨main', up', default', sites', pools', hmain', hup', hdefault', hsites', hpools', rfl⟩ :=
    renderSet_parts h'
  obtain rfl : main = main' := Except.ok.inj (hmain.symm.trans hmain')
  obtain rfl : sites = sites' := Except.ok.inj (hsites.symm.trans hsites')
  obtain rfl : pools = pools' := Except.ok.inj (hpools.symm.trans hpools')
  have hpath := generateDefaultSiteConfig_ok hdefault
  have hframe : SameBut (input.home.siteConf "00-default_server".toList) [main, default]
      [main, default'] :=
    .cons ⟨rfl, fun _ => rfl⟩ (.cons ⟨hpath.trans (generateDefaultSiteConfig_ok hdefault').symm,
      fun hne => absurd hpath hne⟩ .nil)
  exact ((hframe.append (SameBut.refl _ sites)).append (SameBut.refl _ _)).sorted

end Changes

/-- **The rendered set is closed.** Each of its files is a pool file or a file of the web server. A
file of the web server passes requests nowhere, or to the socket that one pool file of the set
listens on, of the same major. A change of the settings or of the preference for the default PHP
changes one file. -/
theorem renderSet_closed :
    (∀ (input : ApplyInput) (files : List GeneratedFile), Parsed input.settings →
      MajorsPlain input → renderSet input = .ok files →
      ∀ f ∈ files, ((∃ major, PoolFile input major f) ∨ ∃ given, WebFile input given f) ∧
        ∀ given, WebFile input given f →
          match given with
          | none => Passes f none
          | some major => ∃ socket pool, Passes f (some socket) ∧
              Answered input files major socket pool) ∧
      (∀ (input : ApplyInput) (settings : WebServerSettings) (files files' : List GeneratedFile),
        renderSet input = .ok files → renderSet { input with settings := settings } = .ok files' →
        SameBut input.home.mainConf files files') ∧
      ∀ (input : ApplyInput) (preference : Option PhpVersion) (files files' : List GeneratedFile),
        renderSet input = .ok files →
        renderSet { input with defaultPhp := preference } = .ok files' →
        SameBut (input.home.siteConf "00-default_server".toList) files files' := by
  refine ⟨?_, fun _ _ _ _ => sameBut_of_settings, fun _ _ _ _ => sameBut_of_defaultPhp⟩
  intro input files hsettings hplain h f hf
  refine ⟨?_, fun given hweb => ?_⟩
  · cases (mem_renderSet h).mp hf with
    | main hf => exact .inr ⟨_, .main hf⟩
    | default hup hf => exact .inr ⟨_, .default hup hf⟩
    | site hmem hf => exact .inr ⟨_, .site hmem hf⟩
    | pool hmem hf => exact .inl ⟨_, _, hmem, rfl, hf⟩
  · cases given with
    | none => exact hweb.passes_none hsettings
    | some major =>
        obtain ⟨rt, hrt, rfl⟩ := hweb.installed h
        obtain ⟨p, socket, hp, hs, hpasses⟩ := hweb.passes_some
        obtain ⟨pool, hpool⟩ := exists_answered hplain h hrt hp hs
        exact ⟨socket, pool, hpasses, hpool⟩

end Closed

section Sample

attribute [local instance] verbatimTera hyphenatedUuid

def closedInput : ApplyInput := ingressInput [plainSite]

/-- A site, with the settings' timeout changed and with a preference for its PHP. -/
theorem renderSet_closed_sample :
    ∃ files, renderSet closedInput = .ok files ∧
      (∀ f ∈ files, (∃ major, PoolFile closedInput major f) ∨ ∃ given, WebFile closedInput given f) ∧
      (∃ files', renderSet { closedInput with
          settings := { uncheckedDefaults with keepaliveTimeout := ⟨30, by decide⟩ } } = .ok files' ∧
        SameBut closedInput.home.mainConf files files') ∧
      ∃ files', renderSet { closedInput with defaultPhp := some ⟨"8.4".toList, by decide⟩ } =
          .ok files' ∧
        SameBut (closedInput.home.siteConf "00-default_server".toList) files files' := by
  obtain ⟨hset, hsettings, hpreference⟩ := renderSet_closed
  obtain ⟨files, hfiles⟩ := exists_of_isSome
    (show (renderSet closedInput).toOption.isSome = true by decide +kernel)
  obtain ⟨slow, hslow⟩ := exists_of_isSome (show (renderSet { closedInput with
    settings := { uncheckedDefaults with keepaliveTimeout := ⟨30, by decide⟩ } }).toOption.isSome =
      true by decide +kernel)
  obtain ⟨preferred, hpreferred⟩ := exists_of_isSome (show (renderSet { closedInput with
    defaultPhp := some ⟨"8.4".toList, by decide⟩ }).toOption.isSome = true by decide +kernel)
  have hplain : MajorsPlain closedInput := by
    intro rt hrt
    rw [List.mem_singleton.mp (show rt ∈ [_] from hrt)]
    decide
  exact ⟨files, hfiles,
    fun f hf => (hset closedInput files parsed_uncheckedDefaults hplain hfiles f hf).1,
    ⟨slow, hslow, hsettings closedInput _ files slow hfiles hslow⟩, preferred, hpreferred,
    hpreference closedInput _ files preferred hfiles hpreferred⟩

end Sample

end OpenVHost.Site
