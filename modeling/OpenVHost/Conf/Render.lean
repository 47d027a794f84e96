/-
# Rendering the generated configuration

`toConfigPath` is the one place where a path becomes text of a configuration,
`RenderCtx.new` checks what a site's file is rendered from, and the `generate`
functions make the four kinds of generated file.

* `toConfigPath_accepts_iff`, `toConfigPath_eq_self_iff` — which paths are rendered, and
  which as they are spelled.
* `renderCtx_new_ok` — what a render context is checked for.
* `generateSiteConfig_ok`, `generateSiteConfig_served` — where a site's file goes and what
  its `root` names.
-/

import OpenVHost.Conf.Settings
import OpenVHost.Conf.Templates
import OpenVHost.FileTree.Walk
import OpenVHost.Text.Lines

namespace OpenVHost.Conf

open FileTree Text

/-- The reasons for which a configuration is not generated. -/
inductive ConfError where
  | invalidField (field : String) (value : List Char) (reason : String)
  | emptyUpstream
  | render (message : List Char)
  deriving DecidableEq, Repr

theorem exists_of_isSome {α ε : Type} {x : Except ε α} (h : x.toOption.isSome = true) :
    ∃ a, x = .ok a := by
  cases x with
  | error e => cases h
  | ok a => exact ⟨a, rfl⟩

/-- The home directory: how the program spells it, and where it is. -/
structure Home where
  text : List Char
  dir : Path
  plain : Plain dir

structure SocketAddrV4 where
  ip : List Nat
  port : Nat
  deriving DecidableEq, Repr

def ipv4Text (ip : List Nat) : List Char := ['.'].intercalate (ip.map decimal)

def SocketAddrV4.toText (a : SocketAddrV4) : List Char := ipv4Text a.ip ++ ':' :: decimal a.port

/-- The address is its eight segments. -/
structure SocketAddrV6 where
  ip : List Nat
  port : Nat
  scopeId : Nat
  deriving DecidableEq, Repr

def hexadecimal (n : Nat) : List Char := Nat.toDigits 16 n

/-- A run of zeros: where it starts, and how long it is. -/
structure Span where
  start : Nat
  len : Nat
  deriving DecidableEq, Repr

/-- The first of the longest runs of zeros; `i` is where the rest of the segments starts. -/
def longestZeros (i : Nat) (longest current : Span) : List Nat → Span
  | [] => longest
  | 0 :: rest =>
      let current : Span := ⟨if current.len = 0 then i else current.start, current.len + 1⟩
      longestZeros (i + 1) (if longest.len < current.len then current else longest) current rest
  | _ :: rest => longestZeros (i + 1) longest ⟨0, 0⟩ rest

def segmentsText (segments : List Nat) : List Char := [':'].intercalate (segments.map hexadecimal)

/-- An address that stands for one of IPv4 is shown with it. -/
def ipv6Text (ip : List Nat) : List Char :=
  match ip with
  | [0, 0, 0, 0, 0, 0xffff, ab, cd] =>
      "::ffff:".toList ++ ipv4Text [ab / 256, ab % 256, cd / 256, cd % 256]
  | _ =>
      let zeroes := longestZeros 0 ⟨0, 0⟩ ⟨0, 0⟩ ip
      if 1 < zeroes.len then
        segmentsText (ip.take zeroes.start) ++ "::".toList ++
          segmentsText (ip.drop (zeroes.start + zeroes.len))
      else segmentsText ip

def SocketAddrV6.toText (a : SocketAddrV6) : List Char :=
  let scope := if a.scopeId = 0 then [] else '%' :: decimal a.scopeId
  '[' :: (ipv6Text a.ip ++ scope ++ "]:".toList ++ decimal a.port)

inductive SocketAddr where
  | v4 (a : SocketAddrV4)
  | v6 (a : SocketAddrV6)
  deriving DecidableEq, Repr

def SocketAddr.toText : SocketAddr → List Char
  | v4 a => a.toText
  | v6 a => a.toText

example : (SocketAddr.v6 ⟨[0x2001, 0xdb8, 0, 0, 1, 0, 0, 1], 80, 0⟩).toText =
    "[2001:db8::1:0:0:1]:80".toList := by decide

inductive PhpUpstream where
  | unixSocket (path : List Char)
  | tcpPorts (ports : List SocketAddr)
  deriving DecidableEq, Repr

structure RenderCtx where
  home : Home
  serverName : List Char
  docroot : List Char
  listenAddr : SocketAddr
  phpMajor : List Char
  phpUpstream : PhpUpstream
  upstreamName : List Char

structure GeneratedFile where
  path : Path
  contents : List Char
  deriving DecidableEq, Repr

structure ValidationReport where
  ok : Bool
  stderr : List Char
  deriving DecidableEq, Repr

/-! ### Paths -/

/-- The components of a path's text that `Path::components` yields. -/
def components (s : List Char) : Path := (splitPath s).filter fun c => c != [] && c != ['.']

/-- `Path::join`: an absolute path replaces what it is joined to. -/
def joinPath (p : Path) (s : List Char) : Path :=
  if isAbsolute s then components s else p ++ components s

/-- `Path::join` on the text of a path. -/
def joinText (p s : List Char) : List Char :=
  if isAbsolute s then s
  else if p.isEmpty || p.getLast? == some '/' then p ++ s
  else p ++ '/' :: s

theorem joinPath_component {p : Path} {s : List Char} (hs : '/' ∉ s) (hne : s ≠ [])
    (hdot : s ≠ ['.']) : joinPath p s = p ++ [s] := by
  have hsplit : splitPath s = [s] := List.splitOn_eq_singleton hs
  have habs : isAbsolute s = false := by
    cases s with
    | nil => exact absurd rfl hne
    | cons c s =>
        have hc : c ≠ '/' := by
          rintro rfl
          exact hs List.mem_cons_self
        simp [isAbsolute, hc]
  rw [joinPath, habs, components, hsplit]
  simp [hne, hdot]

/-! ### The render context -/

def isAsciiLowercase (c : Char) : Bool := 'a'.toNat ≤ c.toNat && c.toNat ≤ 'z'.toNat
def isAsciiDigit (c : Char) : Bool := '0'.toNat ≤ c.toNat && c.toNat ≤ '9'.toNat
def isAsciiControl (c : Char) : Bool := c.toNat < 32 || c.toNat == 127

def validHostnameChar (c : Char) : Bool :=
  isAsciiLowercase c || isAsciiDigit c || c == '.' || c == '-'

def validComponent (s : List Char) : Bool :=
  !s.isEmpty && s != ['.'] && s != ['.', '.'] &&
    s.all fun c => isAsciiLowercase c || isAsciiDigit c || c == '.' || c == '_' || c == '-'

/-- `[a-z0-9_]`, non-empty. -/
def validUpstreamName (s : List Char) : Bool :=
  !s.isEmpty && s.all fun c => isAsciiLowercase c || isAsciiDigit c || c == '_'

def RenderCtx.new (home : Home) (serverName docroot : List Char) (listenAddr : SocketAddr)
    (phpMajor : List Char) (phpUpstream : PhpUpstream) (upstreamName : List Char) :
    Except ConfError RenderCtx :=
  if serverName.isEmpty || !serverName.all validHostnameChar ||
      (serverName.splitOn '.').any List.isEmpty then
    .error (.invalidField "server_name" serverName
      "must be a non-empty [a-z0-9.-] hostname with no empty dot-separated label")
  else if !validComponent phpMajor then
    .error (.invalidField "php_major" phpMajor "must be a safe [a-z0-9._-] path component")
  else if !validUpstreamName upstreamName then
    .error (.invalidField "upstream_name" upstreamName "must be a non-empty [a-z0-9_] token")
  else if phpUpstream = .tcpPorts [] then .error .emptyUpstream
  else .ok ⟨home, serverName, docroot, listenAddr, phpMajor, phpUpstream, upstreamName⟩

/-- A verbatim prefix is dropped: the longer one leaves its two backslashes. -/
def stripVerbatim (s : List Char) : List Char :=
  let unc := "\\\\?\\UNC\\".toList
  let verbatim := "\\\\?\\".toList
  if unc.isPrefixOf s then "\\\\".toList ++ s.drop unc.length
  else if verbatim.isPrefixOf s then s.drop verbatim.length
  else s

/-- The characters no rendered path may hold. -/
def unrenderable (c : Char) : Bool :=
  c == '"' || c == '$' || c == '#' || c == ';' || isAsciiControl c

def toConfigPath (p : List Char) : Except ConfError (List Char) :=
  let s := (stripVerbatim p).map fun c => if c = '\\' then '/' else c
  if s.any unrenderable then
    .error (.invalidField "path" s ("must not contain a double-quote, dollar sign, hash, " ++
      "semicolon, or control character"))
  else .ok s

/-! ### What is accepted -/

section Accepts

variable {p s : List Char}

theorem unrenderable_normalized (c : Char) :
    unrenderable (if c = '\\' then '/' else c) = unrenderable c := by
  split
  next h =>
    subst h
    rfl
  next => rfl

theorem any_stripVerbatim (p : List Char) :
    (stripVerbatim p).any unrenderable = p.any unrenderable := by
  unfold stripVerbatim
  simp only
  split
  next h =>
    obtain ⟨rest, rfl⟩ := List.isPrefixOf_iff_prefix.mp h
    rw [List.drop_left, List.any_append, List.any_append]
    rfl
  next =>
    split
    next h =>
      obtain ⟨rest, rfl⟩ := List.isPrefixOf_iff_prefix.mp h
      rw [List.drop_left, List.any_append]
      rfl
    next => rfl

/-- A path is accepted by its characters alone. -/
theorem toConfigPath_accepts_iff :
    (∃ s, toConfigPath p = .ok s) ↔ ∀ c ∈ p, unrenderable c = false := by
  have hany : ((stripVerbatim p).map fun c => if c = '\\' then '/' else c).any unrenderable =
      p.any unrenderable := by
    rw [List.any_map, ← any_stripVerbatim]
    exact congrArg (List.any (stripVerbatim p)) (funext unrenderable_normalized)
  unfold toConfigPath
  simp only [hany]
  constructor
  · rintro ⟨s, hs⟩
    split at hs
    next => cases hs
    next h => simpa using h
  · intro h
    have hnone : ¬ p.any unrenderable = true := by simpa using h
    exact ⟨_, if_neg hnone⟩

theorem toConfigPath_chars (h : toConfigPath p = .ok s) :
    ∀ c ∈ s, unrenderable c = false ∧ c ≠ '\\' := by
  unfold toConfigPath at h
  simp only at h
  split at h
  next => cases h
  next hany =>
    cases h
    intro c hc
    have hc' := (List.any_eq_false.mp (Bool.eq_false_iff.mpr hany)) c hc
    refine ⟨by simpa using hc', ?_⟩
    obtain ⟨x, -, rfl⟩ := List.mem_map.mp hc
    split
    next => decide
    next hx => exact hx

/-- **The paths that are rendered as they are spelled.** -/
theorem toConfigPath_eq_self_iff :
    toConfigPath p = .ok p ↔ ∀ c ∈ p, unrenderable c = false ∧ c ≠ '\\' := by
  constructor
  · exact toConfigPath_chars
  · intro h
    have hstrip : stripVerbatim p = p := by
      unfold stripVerbatim
      have hslash : '\\' ∉ p := fun hc => (h _ hc).2 rfl
      have hno : ∀ pre : List Char, '\\' ∈ pre → pre.isPrefixOf p = false := by
        intro pre hpre
        rw [Bool.eq_false_iff]
        intro hp
        exact hslash ((List.isPrefixOf_iff_prefix.mp hp).subset hpre)
      simp only [hno _ (show '\\' ∈ "\\\\?\\UNC\\".toList by decide),
        hno _ (show '\\' ∈ "\\\\?\\".toList by decide), Bool.false_eq_true, if_false]
    obtain ⟨s, hs⟩ := toConfigPath_accepts_iff.mpr fun c hc => (h c hc).1
    have hmap : p.map (fun c => if c = '\\' then '/' else c) = p := by
      refine (List.map_congr_left fun c hc => if_neg (h c hc).2).trans ?_
      simp
    unfold toConfigPath at hs ⊢
    simp only [hstrip, hmap] at hs ⊢
    split at hs
    next => cases hs
    next hany => rw [if_neg hany]

/-- What a render context is checked for. -/
theorem renderCtx_new_ok (home : Home) {serverName phpMajor upstream : List Char}
    (docroot : List Char) (listen : SocketAddr) {up : PhpUpstream}
    (hname : serverName ≠ [] ∧ serverName.all validHostnameChar = true ∧
      [] ∉ serverName.splitOn '.')
    (hmajor : validComponent phpMajor = true) (hup : up ≠ .tcpPorts []) :
    (∃ ctx, RenderCtx.new home serverName docroot listen phpMajor up upstream = .ok ctx) ↔
      validUpstreamName upstream = true := by
  obtain ⟨hne, hall, hlabels⟩ := hname
  have hany : (serverName.splitOn '.').any List.isEmpty = false := by
    rw [List.any_eq_false]
    rintro label hl hempty
    exact hlabels (List.isEmpty_iff.mp hempty ▸ hl)
  have hempty : serverName.isEmpty = false := by simpa using hne
  unfold RenderCtx.new
  simp only [hempty, hall, hany, hmajor, Bool.not_true, Bool.or_self, Bool.false_eq_true,
    if_false, if_neg hup]
  cases validUpstreamName upstream <;> simp

end Accepts

/-! ### The generators -/

section Generate

variable [Tera]

/-- Render a template; the error names it. -/
def render (t : Template) (ctx : Context) : Except ConfError (List Char) :=
  match Tera.render t ctx with
  | .ok s => .ok s
  | .error e => .error (.render (t.name.toList ++ ": ".toList ++ e.toList))

def accessLogFormatName : List Char := "ovh_access".toList

def siteLogDir (home serverName : List Char) : List Char :=
  home ++ "/logs/sites/".toList ++ serverName

def phpFpmLogDir (home major : List Char) : List Char :=
  home ++ "/logs/services/php-fpm-".toList ++ major

namespace NginxAdapter

def genDir (home : Home) : Path := joinPath home.dir "config/generated/nginx".toList

/-- The upstream block and the pass directive; on a Unix socket there is no block. -/
def upstreamParts (upstream : PhpUpstream) (upstreamName : List Char) :
    Except ConfError (List Char × List Char) :=
  match upstream with
  | .unixSocket p => do
      let sock ← toConfigPath p
      .ok ([], "fastcgi_pass \"unix:".toList ++ sock ++ "\";".toList)
  | .tcpPorts ports =>
      let server := fun (a : SocketAddr) =>
        "    server ".toList ++ a.toText ++ " max_fails=1 fail_timeout=1s;\n".toList
      .ok ("upstream ".toList ++ upstreamName ++ " \x7b\n".toList ++ ports.flatMap server ++
          "\x7d\n\n".toList,
        "fastcgi_pass ".toList ++ upstreamName ++ (";\n        " ++
          "fastcgi_next_upstream error timeout invalid_header http_500;").toList)

def phpLocation (homeStr serverName phpPass : List Char) : Except ConfError (List Char) :=
  render Conf.phpLocation
    [("php_pass", phpPass),
      ("custom_site_glob",
        homeStr ++ "/config/custom/sites/".toList ++ serverName ++ ".d/*.conf".toList)]

/-- The lines that only matter once gzip is on, each after its own newline. -/
def gzipExtra (settings : WebServerSettings) : List Char :=
  if !settings.gzip.isOn then []
  else
    let level := "\n    gzip_comp_level ".toList ++ decimal settings.gzipCompLevel.get ++ [';']
    let types := asDirective settings.gzipTypes
    if types.isEmpty then level else level ++ "\n    gzip_types ".toList ++ types ++ [';']

def generateMainConfig (home : Home) (settings : WebServerSettings) :
    Except ConfError GeneratedFile := do
  let homeStr ← toConfigPath home.text
  let contents ← render mainConf
    [("custom_sites_dir", homeStr ++ "/config/custom/sites".toList),
      ("pid_path", homeStr ++ "/run/nginx.pid".toList),
      ("error_log", homeStr ++ "/logs/nginx.error.log".toList),
      ("access_log", homeStr ++ "/logs/nginx.access.log".toList),
      ("access_log_format", accessLogFormatName),
      ("temp_dir", homeStr ++ "/run/nginx".toList),
      ("generated_sites_glob", homeStr ++ "/config/generated/nginx/sites/*.conf".toList),
      ("custom_sites_glob", homeStr ++ "/config/custom/sites/*.conf".toList),
      ("worker_connections", decimal settings.workerConnections.get),
      ("client_max_body_size", settings.clientMaxBodySize),
      ("keepalive_timeout", decimal settings.keepaliveTimeout.get),
      ("tcp_nodelay", settings.tcpNodelay.asStr),
      ("fastcgi_connect_timeout", decimal settings.fastcgiConnectTimeout.get),
      ("fastcgi_send_timeout", decimal settings.fastcgiSendTimeout.get),
      ("fastcgi_read_timeout", decimal settings.fastcgiReadTimeout.get),
      ("gzip", settings.gzip.asStr),
      ("gzip_extra", gzipExtra settings)]
  .ok ⟨joinPath (genDir home) "nginx.conf".toList, contents⟩

def generateSiteConfig (ctx : RenderCtx) : Except ConfError GeneratedFile := do
  let home ← toConfigPath ctx.home.text
  let docroot ← toConfigPath ctx.docroot
  let (phpUpstreamBlock, phpPass) ← upstreamParts ctx.phpUpstream ctx.upstreamName
  let location ← phpLocation home ctx.serverName phpPass
  let siteLogs := siteLogDir home ctx.serverName
  let contents ← render siteConf
    [("custom_site_dir",
        home ++ "/config/custom/sites/".toList ++ ctx.serverName ++ ".d".toList),
      ("php_upstream_block", phpUpstreamBlock),
      ("php_location", location),
      ("listen_addr", ctx.listenAddr.toText),
      ("server_name", ctx.serverName),
      ("docroot", docroot),
      ("access_log", siteLogs ++ "/access.log".toList),
      ("error_log", siteLogs ++ "/error.log".toList),
      ("access_log_format", accessLogFormatName)]
  .ok ⟨joinPath (joinPath (genDir ctx.home) "sites".toList) (ctx.serverName ++ ".conf".toList),
    contents⟩

def generateDefaultSiteConfig (home : Home) (listen : SocketAddr)
    (phpUpstream : Option PhpUpstream) : Except ConfError GeneratedFile := do
  let homeStr ← toConfigPath home.text
  let docroot ← toConfigPath (joinText home.text "www".toList)
  let location ← (match phpUpstream with
    | some up => do
        let (_, pass) ← upstreamParts up "php_default".toList
        phpLocation homeStr "default".toList pass
    | none => .ok [])
  let contents ← render defaultSiteConf
    [("custom_sites_dir", homeStr ++ "/config/custom/sites".toList),
      ("listen_addr", listen.toText),
      ("docroot", docroot),
      ("php_location", location)]
  .ok ⟨joinPath (joinPath (genDir home) "sites".toList) "00-default_server.conf".toList, contents⟩

end NginxAdapter

/-- No pool file on TCP. -/
def generatePoolConfig (home : Home) (major : List Char) (upstream : PhpUpstream) :
    Except ConfError (Option GeneratedFile) := do
  let homeStr ← toConfigPath home.text
  match upstream with
  | .tcpPorts _ => .ok none
  | .unixSocket p => do
      let socket ← toConfigPath p
      let pools := homeStr ++ "/config/custom/php/".toList ++ major ++ "/pool.d".toList
      let contents ← render poolConf
        [("custom_pool_dir", pools),
          ("error_log", phpFpmLogDir homeStr major ++ "/error.log".toList),
          ("socket", socket),
          ("custom_pool_glob", pools ++ "/*.conf".toList)]
      .ok (some ⟨joinPath (joinPath (joinPath home.dir "config/generated/php".toList) major)
        "php-fpm.conf".toList, contents⟩)

end Generate

/-! ### What is generated, and where -/

/-- The generated tree. -/
def Home.generated (home : Home) : Path := home.dir ++ ["config".toList, "generated".toList]

/-- The main configuration. -/
def Home.mainConf (home : Home) : Path := home.generated ++ ["nginx".toList, "nginx.conf".toList]

/-- The file of a site, or of the catch-all. -/
def Home.siteConf (home : Home) (name : Name) : Path :=
  home.generated ++ ["nginx".toList, "sites".toList, name ++ ".conf".toList]

/-- The pool file of a PHP major. -/
def Home.poolConf (home : Home) (major : Name) : Path :=
  home.generated ++ ["php".toList, major, "php-fpm.conf".toList]

/-- A text that is one plain component of a path. -/
def OneName (s : List Char) : Prop := '/' ∉ s ∧ special s = false

theorem OneName.join {s : List Char} (h : OneName s) (p : Path) : joinPath p s = p ++ [s] :=
  joinPath_component h.1 (special_eq_false.mp h.2).1 (special_eq_false.mp h.2).2.1

instance (s : List Char) : Decidable (OneName s) :=
  inferInstanceAs (Decidable ('/' ∉ s ∧ special s = false))

/-- A relative path of several components is joined one by one. -/
theorem joinPath_relative {p q : Path} {s : List Char} (habs : isAbsolute s = false)
    (hs : components s = q) : joinPath p s = p ++ q := by
  rw [joinPath, habs, hs]
  rfl

theorem genDir_eq (home : Home) :
    NginxAdapter.genDir home = home.generated ++ ["nginx".toList] := by
  rw [NginxAdapter.genDir, joinPath_relative rfl rfl, Home.generated, List.append_assoc]
  rfl

theorem phpDir_eq (home : Home) :
    joinPath home.dir "config/generated/php".toList = home.generated ++ ["php".toList] := by
  rw [joinPath_relative rfl rfl, Home.generated, List.append_assoc]
  rfl

section Generated

variable [Tera] {home : Home} {f : GeneratedFile}

theorem generateMainConfig_ok {settings : WebServerSettings}
    (h : NginxAdapter.generateMainConfig home settings = .ok f) : f.path = home.mainConf := by
  obtain ⟨_, -, h⟩ := bind_eq_ok.mp h
  obtain ⟨_, -, h⟩ := bind_eq_ok.mp h
  cases h
  rw [genDir_eq, OneName.join (by decide)]
  simp [Home.mainConf]

theorem generateDefaultSiteConfig_ok {listen : SocketAddr} {up : Option PhpUpstream}
    (h : NginxAdapter.generateDefaultSiteConfig home listen up = .ok f) :
    f.path = home.siteConf "00-default_server".toList := by
  obtain ⟨_, -, h⟩ := bind_eq_ok.mp h
  obtain ⟨_, -, h⟩ := bind_eq_ok.mp h
  obtain ⟨_, -, h⟩ := bind_eq_ok.mp h
  obtain ⟨_, -, h⟩ := bind_eq_ok.mp h
  cases h
  rw [genDir_eq, OneName.join (by decide), OneName.join (by decide)]
  simp [Home.siteConf]

theorem generateSiteConfig_ok {ctx : RenderCtx}
    (hname : OneName (ctx.serverName ++ ".conf".toList))
    (h : NginxAdapter.generateSiteConfig ctx = .ok f) :
    f.path = ctx.home.siteConf ctx.serverName := by
  obtain ⟨_, -, h⟩ := bind_eq_ok.mp h
  obtain ⟨_, -, h⟩ := bind_eq_ok.mp h
  obtain ⟨_, -, h⟩ := bind_eq_ok.mp h
  obtain ⟨_, -, h⟩ := bind_eq_ok.mp h
  obtain ⟨_, -, h⟩ := bind_eq_ok.mp h
  cases h
  rw [hname.join, genDir_eq, OneName.join (by decide)]
  simp [Home.siteConf]

theorem generatePoolConfig_ok {major : List Char} {up : PhpUpstream} (hmajor : OneName major)
    (h : generatePoolConfig home major up = .ok (some f)) : f.path = home.poolConf major := by
  obtain ⟨_, -, h⟩ := bind_eq_ok.mp h
  cases up with
  | tcpPorts ports => cases h
  | unixSocket p =>
      obtain ⟨_, -, h⟩ := bind_eq_ok.mp h
      obtain ⟨_, -, h⟩ := bind_eq_ok.mp h
      cases h
      rw [OneName.join (by decide), hmajor.join, phpDir_eq]
      simp [Home.poolConf]

theorem render_ok (t : Template) (ctx : Context) (h : ∀ v ∈ t.vars, (ctx.lookup v).isSome) :
    render t ctx = .ok (t.substitute ctx) := by
  rw [render, Tera.verbatim t ctx h]

/-- A template whose variables all have a value is rendered by substitution. -/
theorem substitute_of_render {t : Template} {ctx : Context} {s : List Char}
    (hnames : ∀ v ∈ t.vars, v ∈ ctx.map Prod.fst) (h : render t ctx = .ok s) :
    s = t.substitute ctx := by
  rw [render_ok t ctx fun v hv => lookup_isSome_of_mem (hnames v hv)] at h
  exact (Except.ok.inj h).symm

end Generated

/-! ### The document root of a server block -/

/-- The document root a server block names: its first quoted text, after `root`. -/
def ServedFrom (contents docroot : List Char) : Prop :=
  ∃ before after, '"' ∉ before ∧
    contents = before ++ "    root ".toList ++ '"' :: (docroot ++ '"' :: after)

/-- A server block names one document root. -/
theorem ServedFrom.unique {contents a b : List Char} (ha : ServedFrom contents a)
    (hb : ServedFrom contents b) (hqa : '"' ∉ a) (hqb : '"' ∉ b) : a = b := by
  obtain ⟨before, after, hbefore, heq⟩ := ha
  obtain ⟨before', after', hbefore', heq'⟩ := hb
  have hroot : '"' ∉ "    root ".toList := by decide
  have hcut : ∀ {s : List Char}, '"' ∉ s → '"' ∉ s ++ "    root ".toList := by
    intro s hs h
    rcases List.mem_append.mp h with h | h
    · exact hs h
    · exact hroot h
  obtain ⟨-, hrest⟩ := append_sep_inj (hcut hbefore) (hcut hbefore') (heq.symm.trans heq')
  exact (append_sep_inj hqa hqb hrest).1

section Served

variable {ctx : Context}

/-- The pieces of a site's file above its document root. -/
def siteConfHead : List Piece := siteConf.pieces.take 14

/-- A text without quotes, or one of these variables. -/
def Piece.quoteless (names : List String) : Piece → Bool
  | .text s => decide ('"' ∉ s.toList)
  | .var name => names.contains name

theorem quote_notMem_head (hdir : '"' ∉ (ctx.lookup "custom_site_dir").getD [])
    (hup : '"' ∉ (ctx.lookup "php_upstream_block").getD [])
    (hlisten : '"' ∉ (ctx.lookup "listen_addr").getD [])
    (hname : '"' ∉ (ctx.lookup "server_name").getD []) :
    '"' ∉ siteConfHead.flatMap (Template.fill ctx) := by
  have hpieces : siteConfHead.all
      (Piece.quoteless ["custom_site_dir", "php_upstream_block", "listen_addr", "server_name"]) = true := by
    decide
  rw [List.mem_flatMap]
  rintro ⟨p, hp, hq⟩
  have hp := List.all_eq_true.mp hpieces p hp
  cases p with
  | text s => exact of_decide_eq_true hp hq
  | var name =>
      simp only [Piece.quoteless, List.contains_eq_mem, decide_eq_true_eq, List.mem_cons, List.not_mem_nil,
        or_false] at hp
      rcases hp with rfl | rfl | rfl | rfl
      · exact hdir hq
      · exact hup hq
      · exact hlisten hq
      · exact hname hq

theorem substitute_served {docroot : List Char} (hdocroot : ctx.lookup "docroot" = some docroot)
    (hhead : '"' ∉ siteConfHead.flatMap (Template.fill ctx)) :
    ServedFrom (siteConf.substitute ctx) docroot := by
  obtain ⟨rest, hpieces⟩ : ∃ rest, siteConf.pieces = siteConfHead ++
      ([.text "    root \"", .var "docroot", .text "\";\n"] ++ rest) :=
    ⟨siteConf.pieces.drop 17, by decide⟩
  have hopen : "    root \"".toList = "    root ".toList ++ ['"'] := by decide
  have hclose : "\";\n".toList = '"' :: ";\n".toList := by decide
  refine ⟨_, ";\n".toList ++ rest.flatMap (Template.fill ctx), hhead, ?_⟩
  rw [Template.substitute, hpieces, List.flatMap_append, List.flatMap_append]
  simp only [List.flatMap_cons, List.flatMap_nil, Template.fill, hdocroot, Option.getD_some, hopen,
    hclose, List.append_assoc, List.cons_append, List.nil_append]

/-- **A site's file names the docroot as `toConfigPath` spells it.** -/
theorem generateSiteConfig_served [Tera] (ctx : RenderCtx) {sock homeStr docroot : List Char}
    (hup : ctx.phpUpstream = .unixSocket sock) (hhome : toConfigPath ctx.home.text = .ok homeStr)
    (hdocroot : toConfigPath ctx.docroot = .ok docroot) (hsock : ∃ s, toConfigPath sock = .ok s)
    (hlisten : '"' ∉ ctx.listenAddr.toText) (hname : '"' ∉ ctx.serverName) :
    ∃ f, NginxAdapter.generateSiteConfig ctx = .ok f ∧ ServedFrom f.contents docroot := by
  obtain ⟨s, hs⟩ := hsock
  have hq : '"' ∉ homeStr := fun h => absurd (toConfigPath_chars hhome _ h).1 (by decide)
  have hparts : NginxAdapter.upstreamParts ctx.phpUpstream ctx.upstreamName =
      .ok ([], "fastcgi_pass \"unix:".toList ++ s ++ "\";".toList) := by
    rw [hup, NginxAdapter.upstreamParts, hs]
    rfl
  have hvars : ∀ v ∈ Conf.phpLocation.vars, ∀ a b,
      (List.lookup v [("php_pass", a), ("custom_site_glob", b)] : Option (List Char)).isSome := by
    intro v hv a b
    have hv : v = "php_pass" ∨ v = "custom_site_glob" := by
      revert v
      decide
    rcases hv with rfl | rfl <;> rfl
  refine ⟨_, bind_eq_ok.mpr ⟨homeStr, hhome, bind_eq_ok.mpr ⟨docroot, hdocroot,
    bind_eq_ok.mpr ⟨_, hparts, bind_eq_ok.mpr ⟨_, render_ok _ _ fun v hv => hvars v hv _ _,
      bind_eq_ok.mpr ⟨_, render_ok _ _ ?_, rfl⟩⟩⟩⟩⟩, ?_⟩
  · intro v hv
    have hv : v ∈ ["custom_site_dir", "php_upstream_block", "php_location", "listen_addr",
        "server_name", "docroot", "access_log", "error_log", "access_log_format"] := by
      revert v
      decide
    simp only [List.mem_cons, List.not_mem_nil, or_false] at hv
    rcases hv with rfl | rfl | rfl | rfl | rfl | rfl | rfl | rfl | rfl <;> rfl
  · have hcustom : '"' ∉ homeStr ++ "/config/custom/sites/".toList ++ ctx.serverName ++ ".d".toList := by
      simp only [List.mem_append, not_or]
      exact ⟨⟨⟨hq, by decide⟩, hname⟩, by decide⟩
    refine substitute_served rfl (quote_notMem_head ?_ ?_ ?_ ?_)
    · exact hcustom
    · exact List.not_mem_nil
    · exact hlisten
    · exact hname

end Served

end OpenVHost.Conf
