/-
# Nothing is injected into a rendered file

What a rendered file of the web server says has the names, the nesting and the numbers of
parameters of its templates. The values that are put in are parameters, exactly as they were
rendered, and no value brings a variable with it.

* `read_generateSiteConfig`, `read_generateDefaultSiteConfig`, `read_generateMainConfig` — the
  directives of the rendered files.
* `rendered_structure` — what their shape depends on, and where the paths are in them.
-/

import OpenVHost.Conf.Structure

namespace OpenVHost.Conf

open FileTree Text
open Nginx (Atom Hole Directive Reading fillWord word isPlain isQuotable paramsOf dollars)

/-! ### The directives of the rendered files -/

def locationDirectives (home serverName upstreamName socket : List Char) (up : PhpUpstream) :
    List (Directive Char) :=
  filled (locationContext home serverName []) locationHead ++
    (passDirectives upstreamName socket up ++
      filled (locationContext home serverName []) locationTail)

def siteDirectives (home serverName docroot listen upstreamName socket : List Char)
    (up : PhpUpstream) : List (Directive Char) :=
  upstreamDirectives upstreamName up ++
    (filled (siteContext home serverName docroot listen [] []) siteTable ++
      locationDirectives home serverName upstreamName socket up)

def defaultDirectives (home docroot listen socket : List Char) (up : Option PhpUpstream) :
    List (Directive Char) :=
  filled (defaultContext home docroot listen []) defaultTable ++
    match up with
    | some up => locationDirectives home "default".toList "php_default".toList socket up
    | none => []

def mainDirectives (home : List Char) (settings : WebServerSettings) : List (Directive Char) :=
  filled (mainContext home settings) mainHead ++
    (gzipDirectives settings ++ filled (mainContext home settings) mainTail)

section Generated

theorem filled_congr {ctx ctx' : Context} {ds : List (Directive (Atom String))}
    {names : List String} (hnames : ∀ k ∈ Nginx.holesIn ds, k ∈ names)
    (h : ∀ k ∈ names, valueIn ctx k = valueIn ctx' k) : filled ctx ds = filled ctx' ds :=
  Nginx.fill_congr fun k hk => h k (hnames k hk)

theorem siteTable_holes : ∀ k ∈ Nginx.holesIn siteTable,
    k ∈ ["listen_addr", "server_name", "docroot", "access_log", "access_log_format",
      "error_log"] := by
  decide

theorem locationHead_holes : ∀ k ∈ Nginx.holesIn locationHead, k ∈ ["custom_site_glob"] := by
  decide

theorem locationTail_holes : ∀ k ∈ Nginx.holesIn locationTail, k ∈ ["custom_site_glob"] := by
  decide

theorem defaultTable_holes :
    ∀ k ∈ Nginx.holesIn defaultTable, k ∈ ["listen_addr", "docroot"] := by
  decide

variable [Tera] {f : GeneratedFile}

theorem reads_phpLocation {home serverName upstreamName socket pass location : List Char}
    {up : PhpUpstream} (hhome : Hole.quoted.Fits home) (hname : Hole.plain.Fits serverName)
    (hpass : Reads 2 2 pass (passDirectives upstreamName socket up))
    (h : NginxAdapter.phpLocation home serverName pass = .ok location) :
    Reads 1 1 location (locationDirectives home serverName upstreamName socket up) := by
  have hvars : ∀ v ∈ phpLocation.vars, v ∈ ["php_pass", "custom_site_glob"] := by decide
  have hctx : location = phpLocation.substitute (locationContext home serverName pass) :=
    substitute_of_render hvars h
  have hsame : ∀ k ∈ ["custom_site_glob"], valueIn (locationContext home serverName pass) k =
      valueIn (locationContext home serverName []) k := by
    intro k hk
    rw [List.mem_singleton.mp hk]
    rfl
  rw [hctx, locationDirectives, ← filled_congr locationHead_holes hsame,
    ← filled_congr locationTail_holes hsame]
  exact reads_location hhome hname hpass

/-- **The directives of a site's file.** -/
theorem read_generateSiteConfig {ctx : RenderCtx} (hname : Hole.plain.Fits ctx.serverName)
    (hupstream : Hole.plain.Fits ctx.upstreamName)
    (h : NginxAdapter.generateSiteConfig ctx = .ok f) :
    ∃ home docroot socket, toConfigPath ctx.home.text = .ok home ∧
      toConfigPath ctx.docroot = .ok docroot ∧
      (∀ p, ctx.phpUpstream = .unixSocket p → toConfigPath p = .ok socket) ∧
      Nginx.read f.contents = some (siteDirectives home ctx.serverName docroot
        ctx.listenAddr.toText ctx.upstreamName socket ctx.phpUpstream) := by
  obtain ⟨home, hhome, h⟩ := bind_eq_ok.mp h
  obtain ⟨docroot, hdocroot, h⟩ := bind_eq_ok.mp h
  obtain ⟨⟨block, pass⟩, hparts, h⟩ := bind_eq_ok.mp h
  obtain ⟨location, hlocation, h⟩ := bind_eq_ok.mp h
  obtain ⟨contents, hcontents, h⟩ := bind_eq_ok.mp h
  cases h
  obtain ⟨hblock, socket, hsocket, hpass⟩ := reads_upstreamParts hupstream hparts
  refine ⟨home, docroot, socket, hhome, hdocroot, hsocket, ?_⟩
  have hquoted := quoted_of_toConfigPath hhome
  have hlocation := reads_phpLocation hquoted hname hpass hlocation
  have hvars : ∀ v ∈ siteConf.vars, v ∈ ["custom_site_dir", "php_upstream_block", "php_location",
      "listen_addr", "server_name", "docroot", "access_log", "error_log", "access_log_format"] := by
    decide
  have hctx : contents = siteConf.substitute (siteContext home ctx.serverName docroot
      ctx.listenAddr.toText block location) := substitute_of_render hvars hcontents
  have hsame : ∀ k ∈ ["listen_addr", "server_name", "docroot", "access_log", "access_log_format",
      "error_log"],
      valueIn (siteContext home ctx.serverName docroot ctx.listenAddr.toText block location) k =
        valueIn (siteContext home ctx.serverName docroot ctx.listenAddr.toText [] []) k := by
    intro k hk
    simp only [List.mem_cons, List.not_mem_nil, or_false] at hk
    rcases hk with rfl | rfl | rfl | rfl | rfl | rfl <;> rfl
  rw [hctx, siteDirectives, ← filled_congr siteTable_holes hsame]
  exact read_site hquoted hname (quoted_of_toConfigPath hdocroot) (plain_toText _) hblock hlocation

/-- **The directives of the catch-all.** -/
theorem read_generateDefaultSiteConfig {home : Home} {listen : SocketAddr}
    {up : Option PhpUpstream}
    (h : NginxAdapter.generateDefaultSiteConfig home listen up = .ok f) :
    ∃ homeStr docroot socket, toConfigPath home.text = .ok homeStr ∧
      toConfigPath (joinText home.text "www".toList) = .ok docroot ∧
      (∀ p, up = some (.unixSocket p) → toConfigPath p = .ok socket) ∧
      Nginx.read f.contents =
        some (defaultDirectives homeStr docroot listen.toText socket up) := by
  obtain ⟨homeStr, hhome, h⟩ := bind_eq_ok.mp h
  obtain ⟨docroot, hdocroot, h⟩ := bind_eq_ok.mp h
  obtain ⟨location, hlocation, h⟩ := bind_eq_ok.mp h
  obtain ⟨contents, hcontents, h⟩ := bind_eq_ok.mp h
  cases h
  have hquoted := quoted_of_toConfigPath hhome
  have hvars : ∀ v ∈ defaultSiteConf.vars,
      v ∈ ["custom_sites_dir", "listen_addr", "docroot", "php_location"] := by
    decide
  have hctx : contents = defaultSiteConf.substitute
      (defaultContext homeStr docroot listen.toText location) :=
    substitute_of_render hvars hcontents
  have hsame : ∀ k ∈ ["listen_addr", "docroot"],
      valueIn (defaultContext homeStr docroot listen.toText location) k =
        valueIn (defaultContext homeStr docroot listen.toText []) k := by
    intro k hk
    simp only [List.mem_cons, List.not_mem_nil, or_false] at hk
    rcases hk with rfl | rfl <;> rfl
  have hread : ∀ {locationDs}, Reads 1 1 location locationDs →
      Nginx.read contents = some (filled (defaultContext homeStr docroot listen.toText [])
        defaultTable ++ locationDs) := by
    intro locationDs hreads
    rw [hctx, ← filled_congr defaultTable_holes hsame]
    exact read_default hquoted (quoted_of_toConfigPath hdocroot) (plain_toText _) hreads
  cases up with
  | none =>
      cases hlocation
      exact ⟨homeStr, docroot, [], hhome, hdocroot, nofun, hread rfl⟩
  | some up =>
      obtain ⟨⟨block, pass⟩, hparts, hlocation⟩ := bind_eq_ok.mp hlocation
      have hup : Hole.plain.Fits "php_default".toList := plain_literal (by decide) (by decide)
      have hname : Hole.plain.Fits "default".toList := plain_literal (by decide) (by decide)
      obtain ⟨-, socket, hsocket, hpass⟩ := reads_upstreamParts hup hparts
      refine ⟨homeStr, docroot, socket, hhome, hdocroot, fun p hp => hsocket p (Option.some.inj hp),
        hread (reads_phpLocation hquoted hname hpass hlocation)⟩

/-- **The directives of the main configuration.** -/
theorem read_generateMainConfig {home : Home} {settings : WebServerSettings}
    (hsettings : Parsed settings) (h : NginxAdapter.generateMainConfig home settings = .ok f) :
    ∃ homeStr, toConfigPath home.text = .ok homeStr ∧
      Nginx.read f.contents = some (mainDirectives homeStr settings) := by
  obtain ⟨homeStr, hhome, h⟩ := bind_eq_ok.mp h
  obtain ⟨contents, hcontents, h⟩ := bind_eq_ok.mp h
  cases h
  have hvars : ∀ v ∈ mainConf.vars, v ∈ ["custom_sites_dir", "pid_path", "error_log", "access_log",
      "access_log_format", "temp_dir", "generated_sites_glob", "custom_sites_glob",
      "worker_connections", "client_max_body_size", "keepalive_timeout", "tcp_nodelay",
      "fastcgi_connect_timeout", "fastcgi_send_timeout", "fastcgi_read_timeout", "gzip",
      "gzip_extra"] := by
    decide
  have hctx : contents = mainConf.substitute (mainContext homeStr settings) :=
    substitute_of_render hvars hcontents
  refine ⟨homeStr, hhome, ?_⟩
  rw [hctx]
  exact read_main (quoted_of_toConfigPath hhome) hsettings

end Generated

/-! ### Shapes -/

/-- The shape of a table, whatever its variables are replaced with. -/
def shapesOf (ds : List (Directive (Atom String))) : List (Directive.Shape Char) :=
  (ds.map (Directive.fill fun _ => [])).map Directive.shape

def upstreamShape : UpstreamKind → List (Directive.Shape Char)
  | .unixSocket => []
  | .tcpPorts ports =>
      shapesOf upstreamTable ++ (List.replicate ports (shapesOf serverTable)).flatten

def passShape : UpstreamKind → List (Directive.Shape Char)
  | .unixSocket => shapesOf unixPassTable
  | .tcpPorts _ => shapesOf tcpPassTable

def locationShape (kind : UpstreamKind) : List (Directive.Shape Char) :=
  shapesOf locationHead ++ (passShape kind ++ shapesOf locationTail)

def siteShape (kind : UpstreamKind) : List (Directive.Shape Char) :=
  upstreamShape kind ++ (shapesOf siteTable ++ locationShape kind)

def defaultShape (kind : Option UpstreamKind) : List (Directive.Shape Char) :=
  shapesOf defaultTable ++ (kind.map locationShape).getD []

/-- `types` is how many types there are, where gzip is on. -/
def gzipShape : Option Nat → List (Directive.Shape Char)
  | none => []
  | some types =>
      shapesOf gzipLevelTable ++
        if types = 0 then [] else [⟨1, "gzip_types".toList, types, false⟩]

def mainShape (types : Option Nat) : List (Directive.Shape Char) :=
  shapesOf mainHead ++ (gzipShape types ++ shapesOf mainTail)

def WebServerSettings.compressed (settings : WebServerSettings) : Option Nat :=
  if settings.gzip.isOn then some settings.gzipTypes.length else none

section Shapes

variable {ctx : Context} {ds : List (Directive (Atom String))}

theorem shape_filled (h : Nginx.Named ds) :
    (filled ctx ds).map Directive.shape = shapesOf ds :=
  Nginx.shape_fill h

theorem named_tables : Nginx.Named siteTable ∧ Nginx.Named defaultTable ∧
    Nginx.Named locationHead ∧ Nginx.Named locationTail ∧ Nginx.Named mainHead ∧
      Nginx.Named mainTail ∧ Nginx.Named upstreamTable ∧ Nginx.Named serverTable ∧
        Nginx.Named unixPassTable ∧ Nginx.Named tcpPassTable ∧ Nginx.Named gzipLevelTable := by
  decide

variable (home serverName docroot listen upstreamName socket : List Char) (up : PhpUpstream)

theorem shape_upstreamDirectives :
    (upstreamDirectives upstreamName up).map Directive.shape = upstreamShape up.kind := by
  obtain ⟨-, -, -, -, -, -, hupstream, hserver, -⟩ := named_tables
  cases up with
  | unixSocket p => rfl
  | tcpPorts ports =>
      rw [upstreamDirectives, List.map_append, shape_filled hupstream, PhpUpstream.kind,
        upstreamShape]
      congr 1
      induction ports with
      | nil => rfl
      | cons a ports ih =>
          rw [List.flatMap_cons, List.map_append, ih, shape_filled hserver]
          rfl

theorem shape_passDirectives :
    (passDirectives upstreamName socket up).map Directive.shape = passShape up.kind := by
  obtain ⟨-, -, -, -, -, -, -, -, hunix, htcp, -⟩ := named_tables
  cases up with
  | unixSocket p => exact shape_filled hunix
  | tcpPorts ports => exact shape_filled htcp

theorem shape_locationDirectives :
    (locationDirectives home serverName upstreamName socket up).map Directive.shape =
      locationShape up.kind := by
  obtain ⟨-, -, hhead, htail, -⟩ := named_tables
  rw [locationDirectives, List.map_append, List.map_append, shape_filled hhead,
    shape_filled htail, shape_passDirectives]
  rfl

theorem shape_siteDirectives :
    (siteDirectives home serverName docroot listen upstreamName socket up).map Directive.shape =
      siteShape up.kind := by
  rw [siteDirectives, List.map_append, List.map_append, shape_filled named_tables.1,
    shape_upstreamDirectives, shape_locationDirectives]
  rfl

theorem shape_defaultDirectives (up : Option PhpUpstream) :
    (defaultDirectives home docroot listen socket up).map Directive.shape =
      defaultShape (up.map PhpUpstream.kind) := by
  unfold defaultDirectives
  rw [List.map_append, shape_filled named_tables.2.1]
  cases up with
  | none => rfl
  | some up =>
      dsimp only
      rw [shape_locationDirectives]
      rfl

theorem shape_mainDirectives (settings : WebServerSettings) :
    (mainDirectives home settings).map Directive.shape = mainShape settings.compressed := by
  obtain ⟨-, -, -, -, hhead, htail, -, -, -, -, hlevel⟩ := named_tables
  have hgzip : (gzipDirectives settings).map Directive.shape = gzipShape settings.compressed := by
    unfold gzipDirectives WebServerSettings.compressed
    cases settings.gzip.isOn with
    | false => rfl
    | true =>
        simp only [Bool.not_true, Bool.false_eq_true, if_false, if_true, gzipShape,
          List.map_append, shape_filled hlevel, List.isEmpty_iff, List.length_eq_zero_iff]
        split_ifs <;> rfl
  rw [mainDirectives, List.map_append, List.map_append, shape_filled hhead, shape_filled htail,
    hgzip]
  rfl

end Shapes

/-! ### Variables -/

/-- The parameters of a table that a variable is in. -/
def templateDollars (ds : List (Directive (Atom String))) : List (List Char) :=
  (Nginx.sketchDollars ds).map (fillWord fun _ => [])

def locationDollars : List (List Char) :=
  templateDollars locationHead ++ templateDollars locationTail

section Dollars

variable {ctx : Context} {names : List String} {ds : List (Directive (Atom String))}
  {home serverName docroot listen upstreamName socket : List Char} {up : PhpUpstream}

theorem no_dollar_of_fits {kind : Hole} {value : List Char} (h : kind.Fits value) :
    '$' ∉ value := fun hc => absurd (h.quotable _ hc) (by decide)

theorem dollars_filled (hfit : Fitting names ctx) (hnames : ∀ k ∈ Nginx.holesIn ds, k ∈ names)
    (hletters : ∀ w ∈ Nginx.sketchDollars ds, w.all Nginx.Atom.isLetter = true) :
    dollars (filled ctx ds) = templateDollars ds :=
  Nginx.dollars_fill (fun k hk => no_dollar_of_fits (hfit k (hnames k hk))) hletters

theorem dollars_upstreamDirectives (hname : Hole.plain.Fits upstreamName) :
    dollars (upstreamDirectives upstreamName up) = [] := by
  have hserver : ∀ a : SocketAddr, dollars (filled [("addr", a.toText)] serverTable) = [] := by
    intro a
    have hfit : Fitting ["addr"] [("addr", a.toText)] := fits_cons (plain_toText a) fits_nil
    rw [dollars_filled hfit (by decide) (by decide)]
    decide
  have hfit : Fitting ["upstream_name"] [("upstream_name", upstreamName)] :=
    fits_cons hname fits_nil
  cases up with
  | unixSocket p => rfl
  | tcpPorts ports =>
      rw [upstreamDirectives, Nginx.dollars_append,
        dollars_filled hfit (by decide) (by decide)]
      induction ports with
      | nil => decide
      | cons a ports ih =>
          rw [List.flatMap_cons, Nginx.dollars_append, hserver, List.nil_append]
          exact ih

theorem dollars_passDirectives (hname : Hole.plain.Fits upstreamName)
    (hsocket : ∀ p, up = .unixSocket p → Hole.quoted.Fits socket) :
    dollars (passDirectives upstreamName socket up) = [] := by
  cases up with
  | unixSocket p =>
      have hfit : Fitting ["socket"] [("socket", socket)] := fits_cons (hsocket p rfl) fits_nil
      rw [passDirectives, dollars_filled hfit (by decide) (by decide)]
      decide
  | tcpPorts ports =>
      have hfit : Fitting ["upstream_name"] [("upstream_name", upstreamName)] :=
        fits_cons hname fits_nil
      rw [passDirectives, dollars_filled hfit (by decide) (by decide)]
      decide

theorem dollars_locationDirectives (hhome : Hole.quoted.Fits home)
    (hname : Hole.plain.Fits serverName) (hupstream : Hole.plain.Fits upstreamName)
    (hsocket : ∀ p, up = .unixSocket p → Hole.quoted.Fits socket) :
    dollars (locationDirectives home serverName upstreamName socket up) = locationDollars := by
  have hfit : Fitting _ (locationContext home serverName []) := fits_locationContext hhome hname
  rw [locationDirectives, Nginx.dollars_append, Nginx.dollars_append,
    dollars_passDirectives hupstream hsocket, List.nil_append,
    dollars_filled hfit locationHead_holes (by decide),
    dollars_filled hfit locationTail_holes (by decide)]
  rfl

def siteDollars : List (List Char) := templateDollars siteTable ++ locationDollars

theorem dollars_siteDirectives (hhome : Hole.quoted.Fits home)
    (hname : Hole.plain.Fits serverName) (hdocroot : Hole.quoted.Fits docroot)
    (hlisten : Hole.plain.Fits listen) (hupstream : Hole.plain.Fits upstreamName)
    (hsocket : ∀ p, up = .unixSocket p → Hole.quoted.Fits socket) :
    dollars (siteDirectives home serverName docroot listen upstreamName socket up) =
      siteDollars := by
  have hfit : Fitting _ (siteContext home serverName docroot listen [] []) :=
    fits_siteContext hhome hname hdocroot hlisten
  have hholes : ∀ k ∈ Nginx.holesIn siteTable, k ∈ ["custom_site_dir", "listen_addr",
      "server_name", "docroot", "access_log", "error_log", "access_log_format"] := by
    decide
  rw [siteDirectives, Nginx.dollars_append, Nginx.dollars_append,
    dollars_upstreamDirectives hupstream, List.nil_append,
    dollars_filled hfit hholes (by decide),
    dollars_locationDirectives hhome hname hupstream hsocket]
  rfl

/-- `given` is whether there is a PHP upstream. -/
def defaultDollars (given : Bool) : List (List Char) :=
  templateDollars defaultTable ++ if given then locationDollars else []

theorem dollars_defaultDirectives {up : Option PhpUpstream} (hhome : Hole.quoted.Fits home)
    (hdocroot : Hole.quoted.Fits docroot) (hlisten : Hole.plain.Fits listen)
    (hsocket : ∀ p, up = some (.unixSocket p) → Hole.quoted.Fits socket) :
    dollars (defaultDirectives home docroot listen socket up) = defaultDollars up.isSome := by
  have hfit : Fitting _ (defaultContext home docroot listen []) :=
    fits_defaultContext hhome hdocroot hlisten
  have hholes : ∀ k ∈ Nginx.holesIn defaultTable,
      k ∈ ["custom_sites_dir", "listen_addr", "docroot"] := by
    decide
  unfold defaultDirectives
  rw [Nginx.dollars_append, dollars_filled hfit hholes (by decide)]
  cases up with
  | none => rfl
  | some up =>
      dsimp only
      rw [dollars_locationDirectives hhome (plain_literal (by decide) (by decide))
        (plain_literal (by decide) (by decide)) fun p hp => hsocket p (congrArg some hp)]
      rfl

def mainDollars : List (List Char) := templateDollars mainHead ++ templateDollars mainTail

theorem dollars_mainDirectives {settings : WebServerSettings} (hhome : Hole.quoted.Fits home)
    (h : Parsed settings) : dollars (mainDirectives home settings) = mainDollars := by
  have hfit : Fitting _ (mainContext home settings) := fits_mainContext hhome h
  have hlevel : dollars (filled [("level", decimal settings.gzipCompLevel.get)]
      gzipLevelTable) = [] := by
    have hfit : Fitting ["level"] [("level", decimal settings.gzipCompLevel.get)] :=
      fits_cons (plain_toDigits 10 _) fits_nil
    rw [dollars_filled hfit (by decide) (by decide)]
    decide
  have htypes : dollars [⟨1, "gzip_types".toList :: settings.gzipTypes, false⟩] = [] := by
    refine List.filter_eq_nil_iff.mpr fun w hw => ?_
    have hw : w ∈ settings.gzipTypes := by simpa [Directive.params] using hw
    simpa using no_dollar_of_fits (plain_gzipType (h.types.each w hw))
  have hgzip : dollars (gzipDirectives settings) = [] := by
    unfold gzipDirectives
    split_ifs
    · rfl
    · rw [List.append_nil, hlevel]
    · rw [Nginx.dollars_append, hlevel, htypes]
      rfl
  rw [mainDirectives, Nginx.dollars_append, Nginx.dollars_append, hgzip, List.nil_append,
    dollars_filled hfit (by decide) (by decide),
    dollars_filled hfit (by decide) (by decide)]
  rfl

end Dollars

/-! ### Paths -/

/-- Where the paths are in a site's file. -/
structure SitePaths (home serverName docroot : List Char) (ds : List (Directive Char)) : Prop where
  root : paramsOf "root".toList ds = [[docroot]]
  accessLog : paramsOf "access_log".toList ds =
    [[home ++ "/logs/sites/".toList ++ serverName ++ "/access.log".toList, "ovh_access".toList]]
  errorLog : paramsOf "error_log".toList ds =
    [[home ++ "/logs/sites/".toList ++ serverName ++ "/error.log".toList, "warn".toList]]
  includes : paramsOf "include".toList ds =
    [[home ++ "/config/custom/sites/".toList ++ serverName ++ ".d/*.conf".toList]]

/-- Where they are in the catch-all. -/
structure DefaultPaths (home docroot : List Char) (given : Bool) (ds : List (Directive Char)) :
    Prop where
  root : paramsOf "root".toList ds = [[docroot]]
  includes : paramsOf "include".toList ds =
    if given then [[home ++ "/config/custom/sites/default.d/*.conf".toList]] else []

/-- Where they are in the main configuration. -/
structure MainPaths (home : List Char) (ds : List (Directive Char)) : Prop where
  pid : paramsOf "pid".toList ds = [[home ++ "/run/nginx.pid".toList]]
  errorLog : paramsOf "error_log".toList ds =
    [[home ++ "/logs/nginx.error.log".toList, "warn".toList], ["stderr".toList, "notice".toList]]
  accessLog : paramsOf "access_log".toList ds =
    [[home ++ "/logs/nginx.access.log".toList, "ovh_access".toList]]
  temp : ∀ kind ∈ ["client_body", "proxy", "fastcgi", "uwsgi", "scgi"],
    paramsOf (kind ++ "_temp_path").toList ds = [[home ++ "/run/nginx/".toList ++ kind.toList]]
  includes : paramsOf "include".toList ds =
    [[home ++ "/config/generated/nginx/sites/*.conf".toList],
      [home ++ "/config/custom/sites/*.conf".toList]]

/-- What a request is passed to. -/
def passedTo (upstreamName socket : List Char) : PhpUpstream → List Char
  | .unixSocket _ => "unix:".toList ++ socket
  | .tcpPorts _ => upstreamName

section Paths

variable {ctx : Context} {ds : List (Directive (Atom String))}
  {home serverName docroot listen upstreamName socket : List Char} {up : PhpUpstream}

theorem paramsOf_filled {name : String} {ps : List (List (List (Atom String)))}
    (h : Nginx.Named ds) (hs : Nginx.sketchParams name ds = ps) :
    paramsOf name.toList (filled ctx ds) = ps.map (List.map (fillWord (valueIn ctx))) :=
  hs ▸ Nginx.paramsOf_fill name h

/-- A name that no directive of an upstream has. -/
theorem paramsOf_upstreamDirectives {name : String}
    (h : Nginx.sketchParams name upstreamTable = [] ∧ Nginx.sketchParams name serverTable = []) :
    paramsOf name.toList (upstreamDirectives upstreamName up) = [] := by
  obtain ⟨-, -, -, -, -, -, hupstream, hserver, -⟩ := named_tables
  cases up with
  | unixSocket p => rfl
  | tcpPorts ports =>
      rw [upstreamDirectives, Nginx.paramsOf_append, paramsOf_filled hupstream h.1]
      induction ports with
      | nil => rfl
      | cons a ports ih =>
          rw [List.flatMap_cons, Nginx.paramsOf_append, paramsOf_filled hserver h.2]
          exact ih

theorem paramsOf_passDirectives {name : String}
    (h : Nginx.sketchParams name unixPassTable = [] ∧ Nginx.sketchParams name tcpPassTable = []) :
    paramsOf name.toList (passDirectives upstreamName socket up) = [] := by
  obtain ⟨-, -, -, -, -, -, -, -, hunix, htcp, -⟩ := named_tables
  cases up with
  | unixSocket p => exact paramsOf_filled hunix h.1
  | tcpPorts ports => exact paramsOf_filled htcp h.2

theorem passes_passDirectives :
    paramsOf "fastcgi_pass".toList (passDirectives upstreamName socket up) =
      [[passedTo upstreamName socket up]] := by
  obtain ⟨-, -, -, -, -, -, -, -, hunix, htcp, -⟩ := named_tables
  have hunixPass : Nginx.sketchParams "fastcgi_pass" unixPassTable =
      [[word "unix:" ++ hole "socket"]] := by decide
  have htcpPass : Nginx.sketchParams "fastcgi_pass" tcpPassTable = [[hole "upstream_name"]] := by
    decide
  have hprefix : ∀ values : String → List Char, fillWord values (word "unix:" ++ hole "socket") =
      "unix:".toList ++ values "socket" := by
    intro values
    rw [Nginx.fillWord_append, word, Nginx.fillWord_letters, hole, Nginx.fillWord_hole]
  cases up with
  | unixSocket p =>
      rw [passDirectives, paramsOf_filled hunix hunixPass, List.map_singleton, List.map_singleton,
        hprefix]
      rfl
  | tcpPorts ports =>
      rw [passDirectives, paramsOf_filled htcp htcpPass, List.map_singleton, List.map_singleton,
        hole, Nginx.fillWord_hole]
      rfl

/-- The parameters of a name in a PHP location. -/
theorem paramsOf_locationDirectives (name : String) :
    paramsOf name.toList (locationDirectives home serverName upstreamName socket up) =
      (Nginx.sketchParams name locationHead).map
          (List.map (fillWord (valueIn (locationContext home serverName [])))) ++
        (paramsOf name.toList (passDirectives upstreamName socket up) ++
          (Nginx.sketchParams name locationTail).map
            (List.map (fillWord (valueIn (locationContext home serverName []))))) := by
  obtain ⟨-, -, hhead, htail, -⟩ := named_tables
  rw [locationDirectives, Nginx.paramsOf_append, Nginx.paramsOf_append,
    paramsOf_filled hhead rfl, paramsOf_filled htail rfl]

/-- A name that is in no PHP location. -/
theorem paramsOf_locationDirectives_eq_nil {name : String}
    (h : Nginx.sketchParams name locationHead = [] ∧ Nginx.sketchParams name locationTail = [] ∧
      Nginx.sketchParams name unixPassTable = [] ∧ Nginx.sketchParams name tcpPassTable = []) :
    paramsOf name.toList (locationDirectives home serverName upstreamName socket up) = [] := by
  obtain ⟨hhead, htail, hpass⟩ := h
  rw [paramsOf_locationDirectives, hhead, htail, paramsOf_passDirectives hpass]
  rfl

theorem includes_locationDirectives :
    paramsOf "include".toList (locationDirectives home serverName upstreamName socket up) =
      [[home ++ "/config/custom/sites/".toList ++ serverName ++ ".d/*.conf".toList]] := by
  have hhead : Nginx.sketchParams "include" locationHead = [] := by decide
  have htail : Nginx.sketchParams "include" locationTail = [[hole "custom_site_glob"]] := by
    decide
  rw [paramsOf_locationDirectives, paramsOf_passDirectives (by decide), hhead, htail,
    List.map_nil, List.nil_append, List.nil_append, List.map_singleton, List.map_singleton, hole,
    Nginx.fillWord_hole]
  rfl

theorem passes_locationDirectives :
    paramsOf "fastcgi_pass".toList
        (locationDirectives home serverName upstreamName socket up) =
      [[passedTo upstreamName socket up]] := by
  have hhead : Nginx.sketchParams "fastcgi_pass" locationHead = [] := by decide
  have htail : Nginx.sketchParams "fastcgi_pass" locationTail = [] := by decide
  rw [paramsOf_locationDirectives, passes_passDirectives, hhead, htail]
  rfl

/-- The parameters of a name in a site's file. -/
theorem paramsOf_siteDirectives {name : String} {ps : List (List (List (Atom String)))}
    (hupstream : Nginx.sketchParams name upstreamTable = [] ∧
      Nginx.sketchParams name serverTable = [])
    (hsite : Nginx.sketchParams name siteTable = ps) :
    paramsOf name.toList
        (siteDirectives home serverName docroot listen upstreamName socket up) =
      ps.map (List.map (fillWord (valueIn (siteContext home serverName docroot listen [] [])))) ++
        paramsOf name.toList (locationDirectives home serverName upstreamName socket up) := by
  rw [siteDirectives, Nginx.paramsOf_append, Nginx.paramsOf_append,
    paramsOf_upstreamDirectives hupstream, List.nil_append, paramsOf_filled named_tables.1 hsite]

theorem sitePaths_siteDirectives :
    SitePaths home serverName docroot
      (siteDirectives home serverName docroot listen upstreamName socket up) where
  root := by
    have hsite : Nginx.sketchParams "root" siteTable = [[hole "docroot"]] := by decide
    rw [paramsOf_siteDirectives (by decide) hsite,
      paramsOf_locationDirectives_eq_nil (by decide), List.append_nil, List.map_singleton,
      List.map_singleton, hole, Nginx.fillWord_hole]
    rfl
  accessLog := by
    have hsite : Nginx.sketchParams "access_log" siteTable =
        [[hole "access_log", hole "access_log_format"]] := by decide
    rw [paramsOf_siteDirectives (by decide) hsite,
      paramsOf_locationDirectives_eq_nil (by decide), List.append_nil, List.map_singleton,
      List.map_cons, List.map_singleton, hole, hole, Nginx.fillWord_hole, Nginx.fillWord_hole]
    rfl
  errorLog := by
    have hsite : Nginx.sketchParams "error_log" siteTable =
        [[hole "error_log", word "warn"]] := by decide
    rw [paramsOf_siteDirectives (by decide) hsite,
      paramsOf_locationDirectives_eq_nil (by decide), List.append_nil, List.map_singleton,
      List.map_cons, List.map_singleton, hole, Nginx.fillWord_hole, word, Nginx.fillWord_letters]
    rfl
  includes := by
    have hsite : Nginx.sketchParams "include" siteTable = [] := by decide
    rw [paramsOf_siteDirectives (by decide) hsite, includes_locationDirectives]
    rfl

theorem passes_siteDirectives :
    paramsOf "fastcgi_pass".toList
        (siteDirectives home serverName docroot listen upstreamName socket up) =
      [[passedTo upstreamName socket up]] := by
  have hsite : Nginx.sketchParams "fastcgi_pass" siteTable = [] := by decide
  rw [paramsOf_siteDirectives (by decide) hsite, passes_locationDirectives]
  rfl

/-- The parameters of a name in the catch-all. -/
theorem paramsOf_defaultDirectives {name : String} {ps : List (List (List (Atom String)))}
    {up : Option PhpUpstream} (hdefault : Nginx.sketchParams name defaultTable = ps) :
    paramsOf name.toList (defaultDirectives home docroot listen socket up) =
      ps.map (List.map (fillWord (valueIn (defaultContext home docroot listen [])))) ++
        match up with
        | some up => paramsOf name.toList
            (locationDirectives home "default".toList "php_default".toList socket up)
        | none => [] := by
  unfold defaultDirectives
  rw [Nginx.paramsOf_append, paramsOf_filled named_tables.2.1 hdefault]
  cases up <;> rfl

theorem defaultPaths_defaultDirectives {up : Option PhpUpstream} :
    DefaultPaths home docroot up.isSome (defaultDirectives home docroot listen socket up) where
  root := by
    have hdefault : Nginx.sketchParams "root" defaultTable = [[hole "docroot"]] := by
      decide
    rw [paramsOf_defaultDirectives hdefault, List.map_singleton, List.map_singleton, hole,
      Nginx.fillWord_hole]
    cases up with
    | none => rfl
    | some up =>
        dsimp only
        rw [paramsOf_locationDirectives_eq_nil (by decide)]
        rfl
  includes := by
    have hdefault : Nginx.sketchParams "include" defaultTable = [] := by decide
    have hpath : "/config/custom/sites/".toList ++ ("default".toList ++ ".d/*.conf".toList) =
        "/config/custom/sites/default.d/*.conf".toList := by decide
    rw [paramsOf_defaultDirectives hdefault]
    cases up with
    | none => rfl
    | some up =>
        dsimp only
        rw [includes_locationDirectives, List.append_assoc, List.append_assoc, hpath]
        rfl

theorem passes_defaultDirectives {up : Option PhpUpstream} :
    paramsOf "fastcgi_pass".toList (defaultDirectives home docroot listen socket up) =
      (up.map fun up => [passedTo "php_default".toList socket up]).toList := by
  have hdefault : Nginx.sketchParams "fastcgi_pass" defaultTable = [] := by decide
  rw [paramsOf_defaultDirectives hdefault]
  cases up with
  | none => rfl
  | some up =>
      dsimp only
      rw [passes_locationDirectives]
      rfl

/-- The parameters of a name that is no name of a gzip directive, in the main configuration. -/
theorem paramsOf_mainDirectives {settings : WebServerSettings} {name : String}
    {ps qs : List (List (List (Atom String)))}
    (hgzip : Nginx.sketchParams name gzipLevelTable = [] ∧
      "gzip_types".toList ≠ name.toList)
    (hhead : Nginx.sketchParams name mainHead = ps) (htail : Nginx.sketchParams name mainTail = qs) :
    paramsOf name.toList (mainDirectives home settings) =
      (ps ++ qs).map (List.map (fillWord (valueIn (mainContext home settings)))) := by
  obtain ⟨-, -, -, -, hmainHead, hmainTail, -, -, -, -, hlevelTable⟩ := named_tables
  have htypes : paramsOf name.toList [⟨1, "gzip_types".toList :: settings.gzipTypes, false⟩] =
      [] := by
    unfold paramsOf
    rw [List.filter_cons_of_neg (by simpa [Directive.name] using hgzip.2)]
    rfl
  have hnone : paramsOf name.toList (gzipDirectives settings) = [] := by
    unfold gzipDirectives
    split_ifs
    · rfl
    · rw [List.append_nil, paramsOf_filled hlevelTable hgzip.1]
      rfl
    · rw [Nginx.paramsOf_append, paramsOf_filled hlevelTable hgzip.1, htypes]
      rfl
  rw [mainDirectives, Nginx.paramsOf_append, Nginx.paramsOf_append, hnone, List.nil_append,
    paramsOf_filled hmainHead hhead, paramsOf_filled hmainTail htail, List.map_append]

theorem fillWord_temp (values : String → List Char) (s : String) :
    fillWord values (hole "temp_dir" ++ word s) = values "temp_dir" ++ s.toList := by
  rw [Nginx.fillWord_append, hole, Nginx.fillWord_hole, word, Nginx.fillWord_letters]

theorem mainPaths_mainDirectives (settings : WebServerSettings) :
    MainPaths home (mainDirectives home settings) where
  pid := by
    have hhead : Nginx.sketchParams "pid" mainHead = [[hole "pid_path"]] := by decide
    have htail : Nginx.sketchParams "pid" mainTail = [] := by decide
    rw [paramsOf_mainDirectives (by decide) hhead htail, List.append_nil,
      List.map_singleton, List.map_singleton, hole, Nginx.fillWord_hole]
    rfl
  errorLog := by
    have hhead : Nginx.sketchParams "error_log" mainHead =
        [[hole "error_log", word "warn"], [word "stderr", word "notice"]] := by decide
    have htail : Nginx.sketchParams "error_log" mainTail = [] := by decide
    rw [paramsOf_mainDirectives (by decide) hhead htail]
    simp only [List.append_nil, List.map_cons, List.map_nil, hole, word, Nginx.fillWord_hole,
      Nginx.fillWord_letters]
    rfl
  accessLog := by
    have hhead : Nginx.sketchParams "access_log" mainHead =
        [[hole "access_log", hole "access_log_format"]] := by decide
    have htail : Nginx.sketchParams "access_log" mainTail = [] := by decide
    rw [paramsOf_mainDirectives (by decide) hhead htail]
    simp only [List.append_nil, List.map_cons, List.map_nil, hole, Nginx.fillWord_hole]
    rfl
  temp := by
    intro kind hkind
    have hhead : Nginx.sketchParams (kind ++ "_temp_path") mainHead = [] := by
      revert kind
      decide
    have htail : Nginx.sketchParams (kind ++ "_temp_path") mainTail =
        [[hole "temp_dir" ++ word ("/" ++ kind)]] := by
      revert kind
      decide
    have hgzip : Nginx.sketchParams (kind ++ "_temp_path") gzipLevelTable = [] ∧
        "gzip_types".toList ≠ (kind ++ "_temp_path").toList := by
      revert kind
      decide
    have hslash : "/run/nginx".toList ++ ("/" ++ kind).toList =
        "/run/nginx/".toList ++ kind.toList := by
      revert kind
      decide
    rw [paramsOf_mainDirectives hgzip hhead htail, List.nil_append, List.map_singleton,
      List.map_singleton, fillWord_temp, List.append_assoc, ← hslash, ← List.append_assoc]
    rfl
  includes := by
    have hhead : Nginx.sketchParams "include" mainHead = [] := by decide
    have htail : Nginx.sketchParams "include" mainTail =
        [[hole "generated_sites_glob"], [hole "custom_sites_glob"]] := by decide
    rw [paramsOf_mainDirectives (by decide) hhead htail]
    simp only [List.nil_append, List.map_cons, List.map_nil, hole, Nginx.fillWord_hole]
    rfl

end Paths

/-! ### What is accepted is plain -/

section Checked

variable {home : Home} {serverName docroot major upstreamName : List Char} {listen : SocketAddr}
  {up : PhpUpstream} {ctx : RenderCtx}

/-- What a render context has been checked for. -/
theorem plain_of_renderCtx
    (h : RenderCtx.new home serverName docroot listen major up upstreamName = .ok ctx) :
    ctx = ⟨home, serverName, docroot, listen, major, up, upstreamName⟩ ∧
      Hole.plain.Fits serverName ∧ Hole.plain.Fits upstreamName := by
  unfold RenderCtx.new at h
  split_ifs at h with hname hmajor hupstream hports
  cases h
  simp only [Bool.or_eq_true, not_or, Bool.not_eq_true', Bool.not_eq_true, List.isEmpty_iff,
    Bool.not_eq_false, List.all_eq_true] at hname
  simp only [validUpstreamName, Bool.not_eq_true', Bool.not_eq_false, Bool.and_eq_true,
    List.all_eq_true] at hupstream
  refine ⟨rfl, plain_of_class (by decide) ?_ hname.1.2,
    plain_of_class (by decide) ?_ hupstream.2⟩
  · simpa using hname.1.1
  · simpa using hupstream.1

end Checked

/-- **Nothing is injected into a rendered file.** Read the way the web server reads it, a rendered
file has a shape that the kind of its upstream, whether there is one, and the number of gzip types
determine; its paths stand where the templates put them, as they were rendered; and only what the
templates say has a variable in it. -/
theorem rendered_structure [Tera] :
    (∀ (home : Home) (serverName docroot : List Char) (listen : SocketAddr) (major : List Char)
        (up : PhpUpstream) (upstreamName : List Char) (ctx : RenderCtx) (f : GeneratedFile),
      RenderCtx.new home serverName docroot listen major up upstreamName = .ok ctx →
      NginxAdapter.generateSiteConfig ctx = .ok f →
      ∃ homeStr docrootStr socket ds, toConfigPath home.text = .ok homeStr ∧
        toConfigPath docroot = .ok docrootStr ∧
        (∀ p, up = .unixSocket p → toConfigPath p = .ok socket) ∧
        Nginx.read f.contents = some ds ∧ ds.map Directive.shape = siteShape up.kind ∧
        SitePaths homeStr serverName docrootStr ds ∧
        paramsOf "fastcgi_pass".toList ds = [[passedTo upstreamName socket up]] ∧
        dollars ds = siteDollars) ∧
      (∀ (home : Home) (listen : SocketAddr) (up : Option PhpUpstream) (f : GeneratedFile),
        NginxAdapter.generateDefaultSiteConfig home listen up = .ok f →
        ∃ homeStr docrootStr socket ds, toConfigPath home.text = .ok homeStr ∧
          toConfigPath (joinText home.text "www".toList) = .ok docrootStr ∧
          (∀ p, up = some (.unixSocket p) → toConfigPath p = .ok socket) ∧
          Nginx.read f.contents = some ds ∧
          ds.map Directive.shape = defaultShape (up.map PhpUpstream.kind) ∧
          DefaultPaths homeStr docrootStr up.isSome ds ∧
          paramsOf "fastcgi_pass".toList ds =
            (up.map fun up => [passedTo "php_default".toList socket up]).toList ∧
          dollars ds = defaultDollars up.isSome) ∧
      ∀ (home : Home) (settings : WebServerSettings) (f : GeneratedFile), Parsed settings →
        NginxAdapter.generateMainConfig home settings = .ok f →
        ∃ homeStr ds, toConfigPath home.text = .ok homeStr ∧ Nginx.read f.contents = some ds ∧
          ds.map Directive.shape = mainShape settings.compressed ∧ MainPaths homeStr ds ∧
          dollars ds = mainDollars := by
  refine ⟨?_, ?_, ?_⟩
  · intro home serverName docroot listen major up upstreamName ctx f hctx h
    obtain ⟨rfl, hname, hupstream⟩ := plain_of_renderCtx hctx
    obtain ⟨homeStr, docrootStr, socket, hhome, hdocroot, hsocket, hread⟩ :=
      read_generateSiteConfig hname hupstream h
    refine ⟨homeStr, docrootStr, socket, _, hhome, hdocroot, hsocket, hread,
      shape_siteDirectives _ _ _ _ _ _ _, sitePaths_siteDirectives, passes_siteDirectives, ?_⟩
    exact dollars_siteDirectives (quoted_of_toConfigPath hhome) hname
      (quoted_of_toConfigPath hdocroot) (plain_toText _) hupstream
      fun p hp => quoted_of_toConfigPath (hsocket p hp)
  · intro home listen up f h
    obtain ⟨homeStr, docrootStr, socket, hhome, hdocroot, hsocket, hread⟩ :=
      read_generateDefaultSiteConfig h
    refine ⟨homeStr, docrootStr, socket, _, hhome, hdocroot, hsocket, hread,
      shape_defaultDirectives _ _ _ _ _, defaultPaths_defaultDirectives,
      passes_defaultDirectives, ?_⟩
    exact dollars_defaultDirectives (quoted_of_toConfigPath hhome)
      (quoted_of_toConfigPath hdocroot) (plain_toText _)
      fun p hp => quoted_of_toConfigPath (hsocket p hp)
  · intro home settings f hsettings h
    obtain ⟨homeStr, hhome, hread⟩ := read_generateMainConfig hsettings h
    exact ⟨homeStr, _, hhome, hread, shape_mainDirectives _ _, mainPaths_mainDirectives settings,
      dollars_mainDirectives (quoted_of_toConfigPath hhome) hsettings⟩

section Sample

attribute [local instance] verbatimTera

theorem plain_structureDir : Plain ["h".toList] := by decide

def structureHome : Home := ⟨"/h".toList, ["h".toList], plain_structureDir⟩

def structureListen : SocketAddr := .v4 ⟨[127, 0, 0, 1], 8080⟩

def structurePorts : PhpUpstream :=
  .tcpPorts [.v4 ⟨[127, 0, 0, 1], 9000⟩, .v4 ⟨[127, 0, 0, 1], 9001⟩]

def structureSocket : PhpUpstream := .unixSocket "/h/run/php-fpm-8.4.sock".toList

/-- A site with two upstream ports, the catch-all of a socket, and a main file that compresses. -/
theorem rendered_structure_sample :
    (∃ ctx f ds, RenderCtx.new structureHome "my.test".toList "/srv/my".toList structureListen
          "8.4".toList structurePorts "php_my".toList = .ok ctx ∧
        NginxAdapter.generateSiteConfig ctx = .ok f ∧ Nginx.read f.contents = some ds ∧
        ds.map Directive.shape = siteShape (.tcpPorts 2) ∧ dollars ds = siteDollars) ∧
      (∃ f ds, NginxAdapter.generateDefaultSiteConfig structureHome structureListen
          (some structureSocket) = .ok f ∧ Nginx.read f.contents = some ds ∧
        ds.map Directive.shape = defaultShape (some .unixSocket) ∧
        dollars ds = defaultDollars true) ∧
      ∃ f ds, NginxAdapter.generateMainConfig structureHome
          { uncheckedDefaults with gzip := ⟨true⟩ } = .ok f ∧
        Nginx.read f.contents = some ds ∧ ds.map Directive.shape = mainShape (some 7) ∧
        dollars ds = mainDollars := by
  obtain ⟨hsite, hdefault, hmain⟩ := rendered_structure
  refine ⟨?_, ?_, ?_⟩
  · obtain ⟨ctx, hctx⟩ := exists_of_isSome (show (RenderCtx.new structureHome "my.test".toList
      "/srv/my".toList structureListen "8.4".toList structurePorts
      "php_my".toList).toOption.isSome = true by decide)
    have hf : ((RenderCtx.new structureHome "my.test".toList "/srv/my".toList structureListen
        "8.4".toList structurePorts "php_my".toList).bind
          NginxAdapter.generateSiteConfig).toOption.isSome = true := by
      decide +kernel
    rw [hctx] at hf
    obtain ⟨f, hf⟩ := exists_of_isSome hf
    obtain ⟨_, _, _, ds, -, -, -, hread, hshape, -, -, hdollars⟩ := hsite _ _ _ _ _ _ _ _ _ hctx hf
    exact ⟨ctx, f, ds, hctx, hf, hread, hshape, hdollars⟩
  · obtain ⟨f, hf⟩ := exists_of_isSome (show (NginxAdapter.generateDefaultSiteConfig structureHome
      structureListen (some structureSocket)).toOption.isSome = true by decide +kernel)
    obtain ⟨_, _, _, ds, -, -, -, hread, hshape, -, -, hdollars⟩ := hdefault _ _ _ _ hf
    exact ⟨f, ds, hf, hread, hshape, hdollars⟩
  · obtain ⟨f, hf⟩ := exists_of_isSome (show (NginxAdapter.generateMainConfig structureHome
      { uncheckedDefaults with gzip := ⟨true⟩ }).toOption.isSome = true by decide +kernel)
    have hparsed : Parsed { uncheckedDefaults with gzip := ⟨true⟩ } :=
      { parsed_uncheckedDefaults with }
    obtain ⟨_, ds, -, hread, hshape, -, hdollars⟩ := hmain _ _ _ hparsed hf
    exact ⟨f, ds, hf, hread, hshape, hdollars⟩

end Sample

end OpenVHost.Conf
