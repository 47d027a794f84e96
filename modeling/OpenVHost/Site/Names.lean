/-
# The names of a server

Each servable site and the catch-all have a configuration file, a log directory, a
directory of the user's own directives and the name of an upstream block, derived from
the site's domain or its id.

* `siteFile_of_renderSite`, `catchAllFile_of_rendered` — these are the names in what is
  rendered.
* `names_apart_iff` — when no two servers share a name.
* `shared_with_the_catch_all` — a site at the domain `default` includes the catch-all's
  directives.
-/

import OpenVHost.Site.Ingress

namespace OpenVHost.Site

open FileTree Text Conf

/-! ### The names -/

structure ServerNames where
  conf : Path
  logs : List Char
  custom : List Char
  upstream : List Char
  deriving DecidableEq

/-- No name of one server is that of the other. -/
structure Apart (a b : ServerNames) : Prop where
  conf : a.conf ≠ b.conf
  logs : a.logs ≠ b.logs
  custom : a.custom ≠ b.custom
  upstream : a.upstream ≠ b.upstream

/-- The directory that a server includes the user's files from. -/
def customDir (homeStr server : List Char) : List Char :=
  homeStr ++ "/config/custom/sites/".toList ++ server ++ ".d".toList

/-- The catch-all logs where the main configuration says. -/
def catchAllNames (home : Home) (homeStr : List Char) : ServerNames where
  conf := home.siteConf "00-default_server".toList
  logs := homeStr ++ "/logs".toList
  custom := customDir homeStr "default".toList
  upstream := "php_default".toList

section Names

variable [Uuid]

def siteNames (home : Home) (homeStr : List Char) (site : Site) : ServerNames where
  conf := home.siteConf site.domain.asStr
  logs := siteLogDir homeStr site.domain.asStr
  custom := customDir homeStr site.domain.asStr
  upstream := upstreamName site.id

/-- The names of every server that is rendered, the catch-all first. -/
def serverNames (input : ApplyInput) (homeStr : List Char) : List ServerNames :=
  catchAllNames input.home homeStr ::
    (servable input.sites).map (siteNames input.home homeStr)

/-- No site is at the catch-all's reserved name, and ids differ in more than hyphens. -/
structure NamesFree (sites : List Site) : Prop where
  reserved : ∀ site ∈ sites, site.domain.asStr ≠ "default".toList
  ids : sites.Pairwise fun a b => a.id.asStr.filter (· != '-') ≠ b.id.asStr.filter (· != '-')

def isHexDigit (c : Char) : Bool :=
  isAsciiDigit c || ('a'.toNat ≤ c.toNat && c.toNat ≤ 'f'.toNat) ||
    ('A'.toNat ≤ c.toNat && c.toNat ≤ 'F'.toNat)

/-- A UUID has 32 hexadecimal digits, in each of its forms. -/
def HasDigits : Prop := ∀ s : List Char, Uuid.parseStr s = true → 32 ≤ s.countP isHexDigit

end Names

/-! ### The names are in what is rendered -/

/-- A site's file has the names of its server. -/
structure SiteFile [Tera] (f : GeneratedFile) (n : ServerNames) : Prop where
  path : f.path = n.conf
  access : "    access_log \"".toList ++ (n.logs ++ "/access.log".toList ++ "\" ".toList)
    <:+: f.contents
  error : "    error_log \"".toList ++ (n.logs ++ "/error.log".toList ++ "\" warn;\n".toList)
    <:+: f.contents
  custom : "        include \"".toList ++ (n.custom ++ "/*.conf".toList ++ "\";\n".toList)
    <:+: f.contents
  upstream : ∃ ctx : RenderCtx, ctx.upstreamName = n.upstream ∧
    NginxAdapter.generateSiteConfig ctx = .ok f

/-- The catch-all's file has the names of its server. -/
structure CatchAllFile (f : GeneratedFile) (n : ServerNames) : Prop where
  path : f.path = n.conf
  custom : "        include \"".toList ++ (n.custom ++ "/*.conf".toList ++ "\";\n".toList)
    <:+: f.contents

section Rendered

variable [Tera] {homeStr : List Char} {f : GeneratedFile}

theorem phpLocation_custom {serverName pass location : List Char}
    (h : NginxAdapter.phpLocation homeStr serverName pass = .ok location) :
    "        include \"".toList ++ (customDir homeStr serverName ++ "/*.conf".toList ++
      "\";\n".toList) <:+: location := by
  have hvars : ∀ v ∈ phpLocation.vars, v ∈ ["php_pass", "custom_site_glob"] := by decide
  have hglob : ".d/*.conf".toList = ".d".toList ++ "/*.conf".toList := by decide
  rw [substitute_of_render hvars h]
  refine Template.infix_of_var "custom_site_glob" (by decide) ?_
  rw [customDir, List.append_assoc _ ".d".toList, ← hglob]
  rfl

/-- A site's file has the names of its site. -/
theorem siteFile_of_generate {ctx : RenderCtx} (hname : OneName (ctx.serverName ++ ".conf".toList))
    (hhome : toConfigPath ctx.home.text = .ok homeStr)
    (h : NginxAdapter.generateSiteConfig ctx = .ok f) :
    SiteFile f ⟨ctx.home.siteConf ctx.serverName, siteLogDir homeStr ctx.serverName,
      customDir homeStr ctx.serverName, ctx.upstreamName⟩ := by
  have hpath := generateSiteConfig_ok hname h
  have hgenerate := h
  obtain ⟨homeStr', hhome', h⟩ := bind_eq_ok.mp h
  rw [hhome] at hhome'
  cases hhome'
  obtain ⟨docroot, -, h⟩ := bind_eq_ok.mp h
  obtain ⟨⟨block, pass⟩, -, h⟩ := bind_eq_ok.mp h
  obtain ⟨location, hlocation, h⟩ := bind_eq_ok.mp h
  obtain ⟨contents, hcontents, h⟩ := bind_eq_ok.mp h
  cases h
  have hvars : ∀ v ∈ siteConf.vars, v ∈ ["custom_site_dir", "php_upstream_block", "php_location",
      "listen_addr", "server_name", "docroot", "access_log", "error_log", "access_log_format"] := by
    decide
  have hsub := substitute_of_render hvars hcontents
  refine ⟨hpath, ?_, ?_, ?_, ctx, rfl, hgenerate⟩
  · rw [hsub]
    exact Template.infix_of_var "access_log" (by decide) rfl
  · rw [hsub]
    exact Template.infix_of_var "error_log" (by decide) rfl
  · -- the directive stands in the PHP location, and the location in the file
    rw [hsub]
    exact (phpLocation_custom hlocation).trans (Template.value_infix "php_location" (by decide) rfl)

/-- The catch-all's file has its names, where a PHP serves it. -/
theorem catchAllFile_of_generate {home : Home} {listen : SocketAddr} {up : PhpUpstream}
    (hhome : toConfigPath home.text = .ok homeStr)
    (h : NginxAdapter.generateDefaultSiteConfig home listen (some up) = .ok f) :
    CatchAllFile f (catchAllNames home homeStr) := by
  have hpath := generateDefaultSiteConfig_ok h
  obtain ⟨homeStr', hhome', h⟩ := bind_eq_ok.mp h
  rw [hhome] at hhome'
  cases hhome'
  obtain ⟨docroot, -, h⟩ := bind_eq_ok.mp h
  obtain ⟨location, hlocation, h⟩ := bind_eq_ok.mp h
  obtain ⟨⟨_, pass⟩, -, hlocation⟩ := bind_eq_ok.mp hlocation
  obtain ⟨contents, hcontents, h⟩ := bind_eq_ok.mp h
  cases h
  have hvars : ∀ v ∈ defaultSiteConf.vars,
      v ∈ ["custom_sites_dir", "listen_addr", "docroot", "php_location"] := by decide
  refine ⟨hpath, ?_⟩
  rw [substitute_of_render hvars hcontents]
  exact (phpLocation_custom hlocation).trans (Template.value_infix "php_location" (by decide) rfl)

variable [Uuid] {input : ApplyInput} {files : List GeneratedFile} {site : Site}

theorem siteFile_of_renderSite (hhome : toConfigPath input.home.text = .ok homeStr)
    (h : renderSite input site = .ok f) : SiteFile f (siteNames input.home homeStr site) := by
  obtain ⟨socket, -, h⟩ := bind_eq_ok.mp h
  obtain ⟨ctx, hctx, h⟩ := bind_eq_ok.mp h
  have hc := renderCtx_new_eq (conf_eq_ok hctx)
  subst hc
  exact siteFile_of_generate site.domain.oneName hhome (conf_eq_ok h)

omit [Tera] [Uuid] in
/-- An installed PHP serves the catch-all, whatever the preference. -/
theorem exists_servingMajor (preference : Option PhpVersion) {installed : List PhpRuntime}
    (h : installed ≠ []) : ∃ major, (DefaultPhp.resolve preference installed).servingMajor
      = some major := by
  obtain ⟨rt, rest, rfl⟩ := List.exists_cons_of_ne_nil h
  unfold DefaultPhp.resolve
  cases preference with
  | none => exact ⟨rt.major, rfl⟩
  | some preference =>
      dsimp only
      split
      · exact ⟨_, rfl⟩
      · exact ⟨rt.major, rfl⟩

end Rendered

/-! ### When they are apart -/

section Apart

variable [Uuid] {home : Home} {homeStr : List Char}

omit [Uuid] in
theorem customDir_inj {a b : List Char} : customDir homeStr a = customDir homeStr b ↔ a = b := by
  simp [customDir]

/-- Two sites share no name but that of the upstream block. -/
theorem siteNames_apart {a b : Site} (hdomain : a.domain.asStr ≠ b.domain.asStr) :
    Apart (siteNames home homeStr a) (siteNames home homeStr b) ↔
      a.id.asStr.filter (· != '-') ≠ b.id.asStr.filter (· != '-') := by
  constructor
  · intro h heq
    exact h.upstream (congrArg ("php_".toList ++ ·) heq)
  · intro hid
    refine ⟨fun h => hdomain (siteConf_inj h), fun h => ?_, fun h => ?_, fun h => ?_⟩
    · exact hdomain (List.append_cancel_left h)
    · exact hdomain (customDir_inj.mp h)
    · exact hid (List.append_cancel_left h)

theorem filter_ne_default (huuid : HasDigits) (id : SiteId) :
    id.asStr.filter (· != '-') ≠ "default".toList := by
  intro h
  have hdigits := huuid id.asStr id.valid
  have hcount : (id.asStr.filter (· != '-')).countP isHexDigit = id.asStr.countP isHexDigit := by
    rw [List.countP_filter]
    refine List.countP_congr fun c _ => ?_
    by_cases hc : c = '-'
    · subst hc
      decide
    · simp [hc]
  rw [← hcount, h] at hdigits
  exact absurd hdigits (by decide)

/-- A site shares no name with the catch-all but that of the user's directory. -/
theorem catchAllNames_apart (huuid : HasDigits) (site : Site) :
    Apart (catchAllNames home homeStr) (siteNames home homeStr site) ↔
      site.domain.asStr ≠ "default".toList := by
  constructor
  · intro h heq
    exact h.custom (customDir_inj.mpr heq.symm)
  · intro hdomain
    refine ⟨fun h => ?_, fun h => ?_, fun h => ?_, fun h => ?_⟩
    · exact domain_ne_default _ (siteConf_inj h).symm
    · have hlen := congrArg List.length h
      simp [catchAllNames, siteNames, siteLogDir] at hlen
    · exact hdomain (customDir_inj.mp h).symm
    · have hid : site.id.asStr.filter (· != '-') = "default".toList :=
        (List.append_cancel_left (show "php_".toList ++ _ = "php_".toList ++ _ from h)).symm
      exact filter_ne_default huuid site.id hid

theorem serverNames_apart_iff (huuid : HasDigits) {input : ApplyInput}
    (hdomains : (servable input.sites).Pairwise fun a b => a.domain.asStr ≠ b.domain.asStr) :
    (serverNames input homeStr).Pairwise Apart ↔ NamesFree (servable input.sites) := by
  rw [serverNames, List.pairwise_cons, List.forall_mem_map, List.pairwise_map]
  constructor
  · rintro ⟨hdefault, hsites⟩
    refine ⟨fun site hsite => (catchAllNames_apart huuid site).mp (hdefault site hsite), ?_⟩
    exact (hsites.and hdomains).imp fun h => (siteNames_apart h.2).mp h.1
  · rintro ⟨hreserved, hids⟩
    refine ⟨fun site hsite => (catchAllNames_apart huuid site).mpr (hreserved site hsite), ?_⟩
    exact (hids.and hdomains).imp fun h => (siteNames_apart h.2).mpr h.1

section Files

variable [Tera] {input : ApplyInput} {files : List GeneratedFile}

/-- Where a set is rendered, each servable site's file is, and has its names. -/
theorem exists_siteFile (h : renderSet input = .ok files)
    (hhome : toConfigPath input.home.text = .ok homeStr) {site : Site}
    (hsite : site ∈ servable input.sites) :
    ∃ f ∈ files, SiteFile f (siteNames input.home homeStr site) := by
  obtain ⟨-, hall⟩ := renderSet_returns_iff.mp ⟨files, h⟩
  obtain ⟨hmem, hservable⟩ := List.mem_filter.mp hsite
  obtain ⟨-, f, hf⟩ := hall site hmem hservable
  exact ⟨f, (mem_renderSet h).mpr (.site hsite hf), siteFile_of_renderSite hhome hf⟩

/-- Where a site is rendered, its PHP or another serves the catch-all. -/
theorem exists_catchAllFile (h : renderSet input = .ok files)
    (hhome : toConfigPath input.home.text = .ok homeStr) (hsome : servable input.sites ≠ []) :
    ∃ f ∈ files, CatchAllFile f (catchAllNames input.home homeStr) := by
  obtain ⟨hframe, hall⟩ := renderSet_returns_iff.mp ⟨files, h⟩
  obtain ⟨site, rest, hsites⟩ := List.exists_cons_of_ne_nil hsome
  have hsite : site ∈ servable input.sites := hsites ▸ List.mem_cons_self
  obtain ⟨hmem, hservable⟩ := List.mem_filter.mp hsite
  obtain ⟨⟨rt, hrt, -⟩, -⟩ := hall site hmem hservable
  obtain ⟨major, hmajor⟩ := exists_servingMajor input.defaultPhp (List.ne_nil_of_mem hrt)
  obtain ⟨up, f, hup, hf⟩ := hframe.default
  have hin := (mem_renderSet h).mpr (.default hup hf)
  rw [defaultUpstream, hmajor] at hup
  obtain ⟨socket, -, hup⟩ := bind_eq_ok.mp hup
  cases hup
  exact ⟨f, hin, catchAllFile_of_generate hhome hf⟩

/-- **The names of all servers are apart** exactly when no site is at the catch-all's
reserved name and no two ids differ in their hyphens only. They are the names that are
rendered. -/
theorem names_apart_iff (huuid : HasDigits) (h : renderSet input = .ok files)
    (hdomains : (servable input.sites).Pairwise fun a b => a.domain.asStr ≠ b.domain.asStr) :
    ∃ homeStr, toConfigPath input.home.text = .ok homeStr ∧
      (∀ site ∈ servable input.sites,
        ∃ f ∈ files, SiteFile f (siteNames input.home homeStr site)) ∧
      (servable input.sites ≠ [] →
        ∃ f ∈ files, CatchAllFile f (catchAllNames input.home homeStr)) ∧
      ((serverNames input homeStr).Pairwise Apart ↔ NamesFree (servable input.sites)) := by
  obtain ⟨hframe, -⟩ := renderSet_returns_iff.mp ⟨files, h⟩
  obtain ⟨main, hmain⟩ := hframe.main
  obtain ⟨homeStr, hhome, -⟩ := bind_eq_ok.mp hmain
  exact ⟨homeStr, hhome, fun _ hsite => exists_siteFile h hhome hsite,
    exists_catchAllFile h hhome, serverNames_apart_iff huuid hdomains⟩

end Files

end Apart

/-! ### A site at the reserved name -/

section Sample

attribute [local instance] verbatimTera hyphenatedUuid

theorem flatten_splitOn (s : List Char) : (s.splitOn '-').flatten = s.filter (· != '-') := by
  induction s with
  | nil => rfl
  | cons c s ih =>
      rw [List.splitOn_eq_splitOnP, List.splitOnP_cons_eq_if_modifyHead,
        ← List.splitOn_eq_splitOnP]
      by_cases hc : c = '-'
      · simp [hc, ih]
      · obtain ⟨first, rest, heq⟩ := List.exists_cons_of_ne_nil (List.splitOn_ne_nil '-' s)
        rw [heq] at ih
        rw [if_neg (by simpa using hc), heq, List.modifyHead_cons, List.flatten_cons,
          List.cons_append, ← List.flatten_cons, ih, List.filter_cons_of_pos (by simpa using hc)]

theorem hyphenatedUuid_hasDigits : HasDigits := by
  intro s h
  simp only [Uuid.parseStr, Bool.and_eq_true, beq_iff_eq, List.all_eq_true] at h
  obtain ⟨hlengths, hhex⟩ := h
  have hlen : (s.filter (· != '-')).length = 32 := by
    rw [← flatten_splitOn, List.length_flatten, hlengths]
    rfl
  have hall : (s.filter (· != '-')).countP isHexDigit = (s.filter (· != '-')).length :=
    List.countP_eq_length.mpr hhex
  rw [← hlen, ← hall]
  exact List.Sublist.countP_le List.filter_sublist

theorem my_valid : validSiteName "my".toList = true := by decide

theorem srv_my_valid : validDocroot "/srv/my".toList = true := by decide

theorem php84_valid : validPhpVersion "8.4".toList = true := by decide

/-- A site of PHP 8.4 at a domain. -/
def siteAt (id domain : String) (hid : Uuid.parseStr id.toList = true)
    (hdomain : validDomain domain.toList = true) : Site where
  id := ⟨id.toList, hid⟩
  name := ⟨"my".toList, my_valid⟩
  domain := ⟨domain.toList, hdomain⟩
  docroot := ⟨"/srv/my".toList, srv_my_valid⟩
  webServer := .nginx
  phpVersion := ⟨"8.4".toList, php84_valid⟩
  enabled := true

theorem defaultId_valid :
    Uuid.parseStr "123e4567-e89b-12d3-a456-426614174000".toList = true := by decide

theorem default_valid : validDomain "default".toList = true := by decide

def defaultSite : Site :=
  siteAt "123e4567-e89b-12d3-a456-426614174000" "default" defaultId_valid default_valid

def blogSite : Site :=
  siteAt "123e4567-e89b-12d3-a456-426614174001" "blog.test" (by decide) (by decide)

def shopSite : Site :=
  siteAt "123e4567-e89b-12d3-a456-426614174002" "shop.test" (by decide) (by decide)

/-- **A site at the domain `default`** is rendered, and includes the catch-all's directory. -/
theorem shared_with_the_catch_all :
    ∃ files, renderSet (ingressInput [defaultSite]) = .ok files ∧
      (∃ f ∈ files,
        SiteFile f (siteNames (ingressInput [defaultSite]).home "/h".toList defaultSite)) ∧
      (∃ f ∈ files, CatchAllFile f (catchAllNames (ingressInput [defaultSite]).home "/h".toList)) ∧
      ¬ (serverNames (ingressInput [defaultSite]) "/h".toList).Pairwise Apart := by
  have hsome : (renderSet (ingressInput [defaultSite])).toOption.isSome = true := by decide +kernel
  obtain ⟨files, hfiles⟩ := exists_of_isSome hsome
  have hhome : toConfigPath (ingressInput [defaultSite]).home.text = .ok "/h".toList := by decide
  refine ⟨files, hfiles, exists_siteFile hfiles hhome (List.mem_singleton_self _),
    exists_catchAllFile hfiles hhome (List.cons_ne_nil _ _), fun hapart => ?_⟩
  exact (List.rel_of_pairwise_cons hapart (List.mem_singleton_self _)).custom rfl

/-- Two sites at other names. -/
theorem names_apart_blog :
    (serverNames (ingressInput [blogSite, shopSite]) "/h".toList).Pairwise Apart := by
  have hsome : (renderSet (ingressInput [blogSite, shopSite])).toOption.isSome = true := by
    decide +kernel
  obtain ⟨files, hfiles⟩ := exists_of_isSome hsome
  have hdomains : (servable (ingressInput [blogSite, shopSite]).sites).Pairwise
      fun a b => a.domain.asStr ≠ b.domain.asStr :=
    List.pairwise_pair.mpr (by decide)
  obtain ⟨homeStr, hhome, -, -, hiff⟩ := names_apart_iff hyphenatedUuid_hasDigits hfiles hdomains
  have hself : toConfigPath (ingressInput [blogSite, shopSite]).home.text = .ok "/h".toList := by
    decide
  rw [hself] at hhome
  cases hhome
  refine hiff.mpr ⟨?_, List.pairwise_pair.mpr (by decide)⟩
  intro site hsite
  rcases List.mem_pair.mp hsite with rfl | rfl <;> decide

end Sample

end OpenVHost.Site
