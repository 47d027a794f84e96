/-
# What the rendered files say

The rendered files of the web server, read the way it reads them: what is put into a variable
is plain or stands in quotes, so that it changes nothing but the parameter it stands in.
-/

import OpenVHost.Conf.SettingsParse
import OpenVHost.Conf.Tables

namespace OpenVHost.Conf

open FileTree Text
open Nginx (Atom Hole Directive Reading fillWord word isPlain isQuotable)

/-! ### What is put into the holes -/

section Holes

variable {s t : List Char} {p : Char → Bool} {n : Nat}

/-- The characters that are no part of a plain word. -/
def specials : List Char :=
  [' ', '\t', '\r', '\n', ';', '\x7b', '\x7d', '#', '\\', '"', '\'', '$']

theorem isPlain_or (c : Char) : isPlain c = true ∨ c ∈ specials := by
  by_cases h : isPlain c = true
  · exact .inl h
  · refine .inr ?_
    simp only [isPlain, Nginx.isBlank, Bool.not_eq_true, Bool.not_eq_false', Bool.or_eq_true,
      beq_iff_eq] at h
    simp only [specials, List.mem_cons, List.not_mem_nil, or_false]
    tauto

/-- A text over a class of characters none of which is special. -/
theorem plain_of_class (hp : specials.any p = false) (hne : s ≠ [])
    (h : ∀ c ∈ s, p c = true) : Hole.plain.Fits s := by
  refine ⟨hne, fun c hc => (isPlain_or c).resolve_right fun hs => ?_⟩
  exact absurd (h c hc) (List.any_eq_false.mp hp c hs)

theorem plain_literal (hne : s ≠ []) (h : s.all isPlain = true) : Hole.plain.Fits s :=
  ⟨hne, List.all_eq_true.mp h⟩

theorem quoted_append (hs : Hole.quoted.Fits s) (ht : Hole.quoted.Fits t) :
    Hole.quoted.Fits (s ++ t) :=
  fun c hc => (List.mem_append.mp hc).elim (hs c) (ht c)

/-- A rendered path may stand in quotes. -/
theorem quoted_of_toConfigPath (h : toConfigPath t = .ok s) : Hole.quoted.Fits s := by
  intro c hc
  obtain ⟨hrender, hslash⟩ := toConfigPath_chars h c hc
  simp only [unrenderable, isAsciiControl, Bool.or_eq_false_iff, beq_eq_false_iff_ne,
    decide_eq_false_iff_not] at hrender
  obtain ⟨⟨⟨⟨hquote, hdollar⟩, -⟩, -⟩, hcontrol, -⟩ := hrender
  have hline : c ≠ '\n' := by
    rintro rfl
    exact hcontrol (by decide)
  simp [isQuotable, hquote, hslash, hdollar, hline]

theorem mem_toDigits {b : Nat} {c : Char} (h : c ∈ Nat.toDigits b n) : ∃ k, c = Nat.digitChar k := by
  have hcore : ∀ (fuel n : Nat) (acc : List Char), (∀ d ∈ acc, ∃ k, d = Nat.digitChar k) →
      ∀ d ∈ Nat.toDigitsCore b fuel n acc, ∃ k, d = Nat.digitChar k := by
    intro fuel
    induction fuel with
    | zero => exact fun n acc hacc => hacc
    | succ fuel ih =>
        intro n acc hacc
        have hcons : ∀ d ∈ Nat.digitChar (n % b) :: acc, ∃ k, d = Nat.digitChar k := by
          intro d hd
          rcases List.mem_cons.mp hd with rfl | hd
          · exact ⟨_, rfl⟩
          · exact hacc d hd
        rw [Nat.toDigitsCore]
        split_ifs
        · exact hcons
        · exact ih _ _ hcons
  exact hcore (n + 1) n [] (fun _ hd => absurd hd List.not_mem_nil) c h

theorem plain_toDigits (b n : Nat) : Hole.plain.Fits (Nat.toDigits b n) := by
  refine ⟨Nat.toDigits_ne_nil, fun c hc => ?_⟩
  obtain ⟨k, rfl⟩ := mem_toDigits hc
  by_cases hk : k < 16
  · have hall : ∀ k < 16, isPlain (Nat.digitChar k) = true := by decide
    exact hall k hk
  · have hstar : Nat.digitChar k = '*' := by
      unfold Nat.digitChar
      repeat rw [if_neg (by omega)]
    rw [hstar]
    decide

theorem isPlain_of_mem_intercalate {sep : List Char} {ts : List (List Char)}
    (hsep : sep.all isPlain = true) (h : ∀ t ∈ ts, ∀ c ∈ t, isPlain c = true) :
    ∀ c ∈ sep.intercalate ts, isPlain c = true := by
  induction ts with
  | nil => exact fun c hc => absurd hc List.not_mem_nil
  | cons t ts ih =>
      have ih := ih fun u hu => h u (List.mem_cons_of_mem _ hu)
      intro c hc
      cases ts with
      | nil =>
          have hc : c ∈ t := by simpa using hc
          exact h t List.mem_cons_self c hc
      | cons u ts =>
          have hc : c ∈ t ∨ c ∈ sep ∨ c ∈ sep.intercalate (u :: ts) := by
            simpa [List.intercalate] using hc
          rcases hc with hc | hc | hc
          · exact h t List.mem_cons_self c hc
          · exact List.all_eq_true.mp hsep c hc
          · exact ih c hc

theorem isPlain_ipv4Text (ip : List Nat) : ∀ c ∈ ipv4Text ip, isPlain c = true := by
  refine isPlain_of_mem_intercalate (by decide) fun t ht => ?_
  obtain ⟨n, -, rfl⟩ := List.mem_map.mp ht
  exact (plain_toDigits 10 n).2

theorem isPlain_segmentsText (segments : List Nat) :
    ∀ c ∈ segmentsText segments, isPlain c = true := by
  refine isPlain_of_mem_intercalate (by decide) fun t ht => ?_
  obtain ⟨n, -, rfl⟩ := List.mem_map.mp ht
  exact (plain_toDigits 16 n).2

theorem isPlain_ipv6Text (ip : List Nat) : ∀ c ∈ ipv6Text ip, isPlain c = true := by
  have hmapped : ∀ c ∈ "::ffff:".toList, isPlain c = true :=
    List.all_eq_true.mp (by decide)
  have hcolons : ∀ c ∈ "::".toList, isPlain c = true :=
    List.all_eq_true.mp (by decide)
  intro c hc
  unfold ipv6Text at hc
  split at hc
  · rcases List.mem_append.mp hc with hc | hc
    · exact hmapped c hc
    · exact isPlain_ipv4Text _ c hc
  · simp only at hc
    split_ifs at hc
    · rcases List.mem_append.mp hc with hc | hc
      · rcases List.mem_append.mp hc with hc | hc
        · exact isPlain_segmentsText _ c hc
        · exact hcolons c hc
      · exact isPlain_segmentsText _ c hc
    · exact isPlain_segmentsText _ c hc

/-- An address is a plain word. -/
theorem plain_toText (a : SocketAddr) : Hole.plain.Fits a.toText := by
  have hport : ∀ n, ∀ c ∈ decimal n, isPlain c = true := fun n => (plain_toDigits 10 n).2
  cases a with
  | v4 a =>
      refine ⟨by simp [SocketAddr.toText, SocketAddrV4.toText], fun c hc => ?_⟩
      rcases List.mem_append.mp hc with hc | hc
      · exact isPlain_ipv4Text _ c hc
      · rcases List.mem_cons.mp hc with rfl | hc
        · decide
        · exact hport _ c hc
  | v6 a =>
      have hclose : ∀ c ∈ "]:".toList, isPlain c = true :=
        List.all_eq_true.mp (by decide)
      refine ⟨by simp [SocketAddr.toText, SocketAddrV6.toText], fun c hc => ?_⟩
      rcases List.mem_cons.mp hc with rfl | hc
      · decide
      rcases List.mem_append.mp hc with hc | hc
      · rcases List.mem_append.mp hc with hc | hc
        · rcases List.mem_append.mp hc with hc | hc
          · exact isPlain_ipv6Text _ c hc
          · split_ifs at hc
            · exact absurd hc List.not_mem_nil
            · rcases List.mem_cons.mp hc with rfl | hc
              · decide
              · exact hport _ c hc
        · exact hclose c hc
      · exact hport _ c hc

end Holes

/-! ### Reading what is rendered -/

section Read

variable {ctx : Context} {ps : List Piece} {names : List String} {r r' : Reading (Atom String)}
  {ds : List (Directive (Atom String))} {n m : Nat}

def Piece.among (names : List String) : Piece → Bool
  | .text _ => true
  | .var name => names.contains name

/-- The values of these variables fit where the variables stand. -/
def Fitting (names : List String) (ctx : Context) : Prop :=
  ∀ name ∈ names, (holeKind name).Fits (valueIn ctx name)

/-- A table, with its variables replaced. -/
def filled (ctx : Context) (ds : List (Directive (Atom String))) : List (Directive Char) :=
  ds.map (Directive.fill (valueIn ctx))

/-- A run of a text, from one level to another. -/
def Reads (n m : Nat) (text : List Char) (ds : List (Directive Char)) : Prop :=
  Nginx.run (Reading.step id) (level n) text = some (level m, ds)

theorem Reads.append {k : Nat} {s t : List Char} {ds es : List (Directive Char)}
    (hs : Reads n m s ds) (ht : Reads m k t es) : Reads n k (s ++ t) (ds ++ es) :=
  Nginx.run_append hs ht

theorem Reads.read {s : List Char} {ds : List (Directive Char)} (h : Reads 0 0 s ds) :
    Nginx.read s = some ds :=
  Nginx.read_of_run h rfl

theorem reads_pieces (hfit : Fitting names ctx) (hps : ps.all (Piece.among names) = true)
    (h : Nginx.run (Nginx.sketch holeKind) (level n) (atoms ps) = some (level m, ds)) :
    Reads n m (ps.flatMap (Template.fill ctx)) (filled ctx ds) := by
  refine run_pieces (fun name hname => hfit name ?_) h
  have hp := List.all_eq_true.mp hps _ hname
  simpa [Piece.among] using hp

theorem fits_nil : Fitting [] ctx := fun _ h => absurd h List.not_mem_nil

theorem fits_cons {name : String} (h : (holeKind name).Fits (valueIn ctx name))
    (hrest : Fitting names ctx) : Fitting (name :: names) ctx := by
  intro k hk
  rcases List.mem_cons.mp hk with rfl | hk
  · exact h
  · exact hrest k hk

end Read

/-! ### The contexts -/

def siteContext (home serverName docroot listen block location : List Char) : Context :=
  [("custom_site_dir", home ++ "/config/custom/sites/".toList ++ serverName ++ ".d".toList),
    ("php_upstream_block", block),
    ("php_location", location),
    ("listen_addr", listen),
    ("server_name", serverName),
    ("docroot", docroot),
    ("access_log", siteLogDir home serverName ++ "/access.log".toList),
    ("error_log", siteLogDir home serverName ++ "/error.log".toList),
    ("access_log_format", accessLogFormatName)]

def locationContext (home serverName pass : List Char) : Context :=
  [("php_pass", pass),
    ("custom_site_glob",
      home ++ "/config/custom/sites/".toList ++ serverName ++ ".d/*.conf".toList)]

def defaultContext (home docroot listen location : List Char) : Context :=
  [("custom_sites_dir", home ++ "/config/custom/sites".toList),
    ("listen_addr", listen),
    ("docroot", docroot),
    ("php_location", location)]

def mainContext (home : List Char) (settings : WebServerSettings) : Context :=
  [("custom_sites_dir", home ++ "/config/custom/sites".toList),
    ("pid_path", home ++ "/run/nginx.pid".toList),
    ("error_log", home ++ "/logs/nginx.error.log".toList),
    ("access_log", home ++ "/logs/nginx.access.log".toList),
    ("access_log_format", accessLogFormatName),
    ("temp_dir", home ++ "/run/nginx".toList),
    ("generated_sites_glob", home ++ "/config/generated/nginx/sites/*.conf".toList),
    ("custom_sites_glob", home ++ "/config/custom/sites/*.conf".toList),
    ("worker_connections", decimal settings.workerConnections.get),
    ("client_max_body_size", settings.clientMaxBodySize),
    ("keepalive_timeout", decimal settings.keepaliveTimeout.get),
    ("tcp_nodelay", settings.tcpNodelay.asStr),
    ("fastcgi_connect_timeout", decimal settings.fastcgiConnectTimeout.get),
    ("fastcgi_send_timeout", decimal settings.fastcgiSendTimeout.get),
    ("fastcgi_read_timeout", decimal settings.fastcgiReadTimeout.get),
    ("gzip", settings.gzip.asStr),
    ("gzip_extra", NginxAdapter.gzipExtra settings)]

/-- What a web server's settings were parsed to. -/
structure Parsed (settings : WebServerSettings) : Prop where
  bodySize : bodySizeParse settings.clientMaxBodySize = .ok settings.clientMaxBodySize
  types : GzipTypes settings.gzipTypes

/-- The defaults are what their own parsers return. -/
theorem parsed_uncheckedDefaults : Parsed uncheckedDefaults :=
  ⟨by decide, gzipTypes_uncheckedDefaults⟩

section Fits

variable {home serverName docroot listen block location pass : List Char}
  {settings : WebServerSettings}

theorem quoted_suffix (hhome : Hole.quoted.Fits home) {suffix : List Char}
    (h : suffix.all isQuotable = true) : Hole.quoted.Fits (home ++ suffix) :=
  quoted_append hhome (List.all_eq_true.mp h)

theorem quoted_siteLogDir (hhome : Hole.quoted.Fits home) (hname : Hole.plain.Fits serverName) :
    Hole.quoted.Fits (siteLogDir home serverName) :=
  quoted_append (quoted_suffix hhome (by decide)) hname.quotable

theorem fits_siteContext (hhome : Hole.quoted.Fits home) (hname : Hole.plain.Fits serverName)
    (hdocroot : Hole.quoted.Fits docroot) (hlisten : Hole.plain.Fits listen) :
    Fitting ["custom_site_dir", "listen_addr", "server_name", "docroot", "access_log", "error_log",
      "access_log_format"] (siteContext home serverName docroot listen block location) := by
  have hlogs := quoted_siteLogDir hhome hname
  have hdir : Hole.quoted.Fits
      (home ++ "/config/custom/sites/".toList ++ serverName ++ ".d".toList) :=
    quoted_suffix (quoted_append (quoted_suffix hhome (by decide)) hname.quotable) (by decide)
  have haccess : Hole.quoted.Fits (siteLogDir home serverName ++ "/access.log".toList) :=
    quoted_suffix hlogs (by decide)
  have herror : Hole.quoted.Fits (siteLogDir home serverName ++ "/error.log".toList) :=
    quoted_suffix hlogs (by decide)
  have hformat : Hole.plain.Fits accessLogFormatName := plain_literal (by decide) (by decide)
  exact fits_cons hdir (fits_cons hlisten (fits_cons hname (fits_cons hdocroot (fits_cons haccess
    (fits_cons herror (fits_cons hformat fits_nil))))))

theorem fits_locationContext (hhome : Hole.quoted.Fits home) (hname : Hole.plain.Fits serverName) :
    Fitting ["custom_site_glob"] (locationContext home serverName pass) := by
  have hglob : Hole.quoted.Fits
      (home ++ "/config/custom/sites/".toList ++ serverName ++ ".d/*.conf".toList) :=
    quoted_suffix (quoted_append (quoted_suffix hhome (by decide)) hname.quotable) (by decide)
  exact fits_cons hglob fits_nil

theorem fits_defaultContext (hhome : Hole.quoted.Fits home) (hdocroot : Hole.quoted.Fits docroot)
    (hlisten : Hole.plain.Fits listen) :
    Fitting ["custom_sites_dir", "listen_addr", "docroot"]
      (defaultContext home docroot listen location) := by
  have hdir : Hole.quoted.Fits (home ++ "/config/custom/sites".toList) :=
    quoted_suffix hhome (by decide)
  exact fits_cons hdir (fits_cons hlisten (fits_cons hdocroot fits_nil))

theorem plain_asStr (o : OnOff) : Hole.plain.Fits o.asStr := by
  unfold OnOff.asStr
  split
  · exact plain_literal (by decide) (by decide)
  · exact plain_literal (by decide) (by decide)

theorem plain_bodySize {s : List Char} (h : bodySizeParse s = .ok s) : Hole.plain.Fits s := by
  have hdigits : sizeDigits s ≠ [] ∧ ∀ c ∈ sizeDigits s, isAsciiDigit c = true := by
    unfold bodySizeParse at h
    split_ifs at h
    simp only at h
    by_cases hok : (!(sizeDigits s).isEmpty && (sizeDigits s).all isAsciiDigit) = true
    · simpa using hok
    · rw [Bool.not_eq_true] at hok
      simp [hok] at h
  obtain ⟨hne, hall⟩ := hdigits
  have hchars : ∀ c ∈ s, (isAsciiDigit c || isAsciiAlphabetic c) = true := by
    intro c hc
    unfold sizeDigits at hall
    split_ifs at hall with hlast
    · obtain ⟨last, hsome, halpha⟩ := (Option.any_eq_true _ _).mp hlast
      obtain ⟨init, rfl⟩ := List.getLast?_eq_some_iff.mp hsome
      rw [List.dropLast_concat] at hall
      rcases List.mem_append.mp hc with hc | hc
      · simp [hall c hc]
      · rw [List.mem_singleton.mp hc, halpha, Bool.or_true]
    · simp [hall c hc]
  refine plain_of_class (by decide) ?_ hchars
  rintro rfl
  exact hne rfl

theorem fits_mainContext (hhome : Hole.quoted.Fits home) (h : Parsed settings) :
    Fitting ["custom_sites_dir", "pid_path", "error_log", "access_log", "access_log_format",
      "temp_dir", "generated_sites_glob", "custom_sites_glob", "worker_connections",
      "client_max_body_size", "keepalive_timeout", "tcp_nodelay", "fastcgi_connect_timeout",
      "fastcgi_send_timeout", "fastcgi_read_timeout", "gzip"] (mainContext home settings) := by
  have hformat : Hole.plain.Fits accessLogFormatName := plain_literal (by decide) (by decide)
  have hpath : ∀ {suffix : List Char}, suffix.all isQuotable = true →
      Hole.quoted.Fits (home ++ suffix) := fun hs => quoted_suffix hhome hs
  have hnumber : ∀ n, Hole.plain.Fits (decimal n) := plain_toDigits 10
  have hsites : "/config/custom/sites".toList.all isQuotable = true := by decide
  have hpid : "/run/nginx.pid".toList.all isQuotable = true := by decide
  have herror : "/logs/nginx.error.log".toList.all isQuotable = true := by decide
  have haccess : "/logs/nginx.access.log".toList.all isQuotable = true := by decide
  have htemp : "/run/nginx".toList.all isQuotable = true := by decide
  have hgenerated : "/config/generated/nginx/sites/*.conf".toList.all isQuotable = true := by
    decide
  have hcustom : "/config/custom/sites/*.conf".toList.all isQuotable = true := by
    decide
  exact fits_cons (hpath hsites) (fits_cons (hpath hpid) (fits_cons (hpath herror)
    (fits_cons (hpath haccess) (fits_cons hformat (fits_cons (hpath htemp)
      (fits_cons (hpath hgenerated) (fits_cons (hpath hcustom) (fits_cons (hnumber _)
        (fits_cons (plain_bodySize h.bodySize) (fits_cons (hnumber _) (fits_cons (plain_asStr _)
          (fits_cons (hnumber _) (fits_cons (hnumber _) (fits_cons (hnumber _)
            (fits_cons (plain_asStr _) fits_nil)))))))))))))))

end Fits

/-! ### The upstream -/

inductive UpstreamKind where
  | unixSocket
  | tcpPorts (ports : Nat)
  deriving DecidableEq, Repr

def PhpUpstream.kind : PhpUpstream → UpstreamKind
  | unixSocket _ => .unixSocket
  | tcpPorts ports => .tcpPorts ports.length

/-- The upstream block, where there is one. -/
def upstreamDirectives (name : List Char) : PhpUpstream → List (Directive Char)
  | .unixSocket _ => []
  | .tcpPorts ports =>
      filled [("upstream_name", name)] upstreamTable ++
        ports.flatMap fun a => filled [("addr", a.toText)] serverTable

/-- The directives that pass a request on; `socket` is the path of a Unix socket. -/
def passDirectives (name socket : List Char) : PhpUpstream → List (Directive Char)
  | .unixSocket _ => filled [("socket", socket)] unixPassTable
  | .tcpPorts _ => filled [("upstream_name", name)] tcpPassTable

section Upstream

variable {name block pass : List Char} {up : PhpUpstream} {ports : List SocketAddr}

theorem text_unixPass (socket : List Char) :
    "fastcgi_pass \"unix:".toList ++ socket ++ "\";".toList =
      unixPass.flatMap (Template.fill [("socket", socket)]) := by
  simp only [unixPass, List.flatMap_cons, List.flatMap_nil, Template.fill, List.append_nil,
    List.append_assoc]
  rfl

theorem text_tcpPass (name : List Char) :
    "fastcgi_pass ".toList ++ name ++ (";\n        " ++
        "fastcgi_next_upstream error timeout invalid_header http_500;").toList =
      tcpPass.flatMap (Template.fill [("upstream_name", name)]) := by
  simp only [tcpPass, List.flatMap_cons, List.flatMap_nil, Template.fill, List.append_nil,
    List.append_assoc]
  rfl

theorem text_upstreamOpen (name : List Char) :
    "upstream ".toList ++ name ++ " \x7b\n".toList =
      upstreamOpen.flatMap (Template.fill [("upstream_name", name)]) := by
  simp only [upstreamOpen, List.flatMap_cons, List.flatMap_nil, Template.fill, List.append_nil,
    List.append_assoc]
  rfl

theorem text_upstreamServer (addr : List Char) :
    "    server ".toList ++ addr ++ " max_fails=1 fail_timeout=1s;\n".toList =
      upstreamServer.flatMap (Template.fill [("addr", addr)]) := by
  simp only [upstreamServer, List.flatMap_cons, List.flatMap_nil, Template.fill, List.append_nil,
    List.append_assoc]
  rfl

theorem reads_upstreamServer (a : SocketAddr) :
    Reads 1 1 ("    server ".toList ++ a.toText ++ " max_fails=1 fail_timeout=1s;\n".toList)
      (filled [("addr", a.toText)] serverTable) := by
  rw [text_upstreamServer]
  have hfit : Fitting ["addr"] [("addr", a.toText)] := fits_cons (plain_toText a) fits_nil
  exact reads_pieces hfit (by decide) sketch_upstreamServer

/-- The block and the directives of an upstream, read where they stand. -/
theorem reads_upstreamParts (hname : Hole.plain.Fits name)
    (h : NginxAdapter.upstreamParts up name = .ok (block, pass)) :
    Reads 0 0 block (upstreamDirectives name up) ∧
      ∃ socket, (∀ p, up = .unixSocket p → toConfigPath p = .ok socket) ∧
        Reads 2 2 pass (passDirectives name socket up) := by
  have hfit : Fitting ["upstream_name"] [("upstream_name", name)] := fits_cons hname fits_nil
  cases up with
  | unixSocket p =>
      obtain ⟨socket, hsocket, h⟩ := bind_eq_ok.mp h
      cases h
      refine ⟨rfl, socket, fun q hq => ?_, ?_⟩
      · cases hq
        exact hsocket
      · rw [text_unixPass]
        have hfit : Fitting ["socket"] [("socket", socket)] :=
          fits_cons (quoted_of_toConfigPath hsocket) fits_nil
        exact reads_pieces hfit (by decide) sketch_unixPass
  | tcpPorts ports =>
      cases h
      refine ⟨?_, [], nofun, ?_⟩
      · have hopen : Reads 0 1 ("upstream ".toList ++ name ++ " \x7b\n".toList)
            (filled [("upstream_name", name)] upstreamTable) := by
          rw [text_upstreamOpen]
          exact reads_pieces hfit (by decide) sketch_upstreamOpen
        have hservers := Nginx.run_flatMap reads_upstreamServer ports
        have hclose : Reads 1 0 "\x7d\n\n".toList [] := by
          unfold Reads
          decide
        have hall := (hopen.append hservers).append hclose
        rw [List.append_nil] at hall
        exact hall
      · rw [text_tcpPass]
        exact reads_pieces hfit (by decide) sketch_tcpPass

end Upstream

/-! ### The files -/

section Files

variable {home serverName docroot listen block location pass : List Char}
  {blockDs locationDs passDs : List (Directive Char)} {settings : WebServerSettings}

/-- The PHP location of a server block. -/
theorem reads_location (hhome : Hole.quoted.Fits home) (hname : Hole.plain.Fits serverName)
    (hpass : Reads 2 2 pass passDs) :
    Reads 1 1 (phpLocation.substitute (locationContext home serverName pass))
      (filled (locationContext home serverName pass) locationHead ++
        (passDs ++ filled (locationContext home serverName pass) locationTail)) := by
  have hvar : phpLocation.pieces[3]? = some (.var "php_pass") := rfl
  rw [Template.substitute, flatMap_fill_split hvar]
  have hfit : Fitting _ (locationContext home serverName pass) := fits_locationContext hhome hname
  have hhead := reads_pieces hfit (by decide) sketch_locationHead
  have htail := reads_pieces hfit (by decide) sketch_locationTail
  exact hhead.append (hpass.append htail)

/-- A site's file. -/
theorem read_site (hhome : Hole.quoted.Fits home) (hname : Hole.plain.Fits serverName)
    (hdocroot : Hole.quoted.Fits docroot) (hlisten : Hole.plain.Fits listen)
    (hblock : Reads 0 0 block blockDs) (hlocation : Reads 1 1 location locationDs) :
    Nginx.read (siteConf.substitute
        (siteContext home serverName docroot listen block location)) =
      some (blockDs ++
        (filled (siteContext home serverName docroot listen block location) siteTable ++
          locationDs)) := by
  have hblockVar : siteConf.pieces[6]? = some (.var "php_upstream_block") := rfl
  have hlocationVar : (siteConf.pieces.drop 7)[37]? = some (.var "php_location") := rfl
  have hfit : Fitting _ (siteContext home serverName docroot listen block location) :=
    fits_siteContext hhome hname hdocroot hlisten
  have hhead := reads_pieces hfit (by decide) sketch_siteHead
  have hsite := reads_pieces hfit (by decide) sketch_site
  have htail := reads_pieces hfit (by decide) sketch_siteTail
  have hall := hhead.append (hblock.append (hsite.append (hlocation.append htail)))
  simp only [filled, List.map_nil, List.nil_append, List.append_nil] at hall
  rw [Template.substitute, flatMap_fill_split hblockVar, flatMap_fill_split hlocationVar]
  exact hall.read

/-- The catch-all. -/
theorem read_default (hhome : Hole.quoted.Fits home) (hdocroot : Hole.quoted.Fits docroot)
    (hlisten : Hole.plain.Fits listen) (hlocation : Reads 1 1 location locationDs) :
    Nginx.read (defaultSiteConf.substitute (defaultContext home docroot listen location)) =
      some (filled (defaultContext home docroot listen location) defaultTable ++
        locationDs) := by
  have hvar : defaultSiteConf.pieces[29]? = some (.var "php_location") := rfl
  have hfit : Fitting _ (defaultContext home docroot listen location) :=
    fits_defaultContext hhome hdocroot hlisten
  have hhead := reads_pieces hfit (by decide) sketch_default
  have htail := reads_pieces hfit (by decide) sketch_defaultTail
  have hall := hhead.append (hlocation.append htail)
  simp only [filled, List.map_nil, List.append_nil] at hall
  rw [Template.substitute, flatMap_fill_split hvar]
  exact hall.read

/-- The lines that only matter once gzip is on. -/
def gzipDirectives (settings : WebServerSettings) : List (Directive Char) :=
  if !settings.gzip.isOn then []
  else
    filled [("level", decimal settings.gzipCompLevel.get)] gzipLevelTable ++
      if settings.gzipTypes.isEmpty then []
      else [⟨1, "gzip_types".toList :: settings.gzipTypes, false⟩]

theorem text_gzipLevel (level : List Char) :
    "\n    gzip_comp_level ".toList ++ level ++ [';'] =
      gzipLevel.flatMap (Template.fill [("level", level)]) := by
  simp only [gzipLevel, List.flatMap_cons, List.flatMap_nil, Template.fill, List.append_nil,
    List.append_assoc]
  rfl

theorem plain_gzipType {t : List Char} (h : GzipType t) : Hole.plain.Fits t := by
  refine plain_of_class (by decide) ?_ (mimeChar_of_shaped h.shaped)
  rintro rfl
  exact absurd h.shaped (by decide)

theorem asDirective_ne_nil {types : List (List Char)} (h : GzipTypes types) (hne : types ≠ []) :
    asDirective types ≠ [] := by
  obtain ⟨t, types, rfl⟩ := List.exists_cons_of_ne_nil hne
  have ht := (plain_gzipType (h.each t List.mem_cons_self)).1
  obtain ⟨c, t, rfl⟩ := List.exists_cons_of_ne_nil ht
  cases types <;> simp [asDirective, List.intercalate]

theorem reads_gzipTypes {types : List (List Char)} (h : GzipTypes types) (hne : types ≠ []) :
    Reads 1 1 ("\n    gzip_types ".toList ++ (asDirective types ++ [';']))
      [⟨1, "gzip_types".toList :: types, false⟩] := by
  have hname : Nginx.run (Reading.step id) (level 1) "\n    gzip_types ".toList =
      some (⟨.blank, ["gzip_types".toList], 1⟩, []) := by
    decide
  exact Nginx.run_append hname (Nginx.run_words (List.cons_ne_nil "gzip_types".toList []) hne
    fun t ht => plain_gzipType (h.each t ht))

theorem reads_gzipExtra (h : Parsed settings) :
    Reads 1 1 (NginxAdapter.gzipExtra settings) (gzipDirectives settings) := by
  have hlevel : Reads 1 1
      ("\n    gzip_comp_level ".toList ++ decimal settings.gzipCompLevel.get ++ [';'])
      (filled [("level", decimal settings.gzipCompLevel.get)] gzipLevelTable) := by
    rw [text_gzipLevel]
    have hfit : Fitting ["level"] [("level", decimal settings.gzipCompLevel.get)] :=
      fits_cons (plain_toDigits 10 _) fits_nil
    exact reads_pieces hfit (by decide) sketch_gzipLevel
  unfold NginxAdapter.gzipExtra gzipDirectives
  cases settings.gzip.isOn with
  | false => exact rfl
  | true =>
      simp only [Bool.not_true, Bool.false_eq_true, if_false]
      by_cases htypes : settings.gzipTypes = []
      · simpa [htypes, asDirective] using hlevel
      · have hnonempty := asDirective_ne_nil h.types htypes
        rw [if_neg (by simpa using hnonempty), if_neg (by simpa using htypes), List.append_assoc,
          List.append_assoc]
        exact hlevel.append (reads_gzipTypes h.types htypes)

/-- The main configuration. -/
theorem read_main (hhome : Hole.quoted.Fits home) (h : Parsed settings) :
    Nginx.read (mainConf.substitute (mainContext home settings)) =
      some (filled (mainContext home settings) mainHead ++
        (gzipDirectives settings ++ filled (mainContext home settings) mainTail)) := by
  have hvar : mainConf.pieces[72]? = some (.var "gzip_extra") := rfl
  have hfit := fits_mainContext hhome h
  have hhead := reads_pieces hfit (by decide) sketch_mainHead
  have htail := reads_pieces hfit (by decide) sketch_mainTail
  have hall := hhead.append ((reads_gzipExtra h).append htail)
  rw [Template.substitute, flatMap_fill_split hvar]
  exact hall.read

end Files

end OpenVHost.Conf
