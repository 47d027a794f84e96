/-
# The directives of the templates

Every template of the web server, read with its variables as holes: the directives it has
stand here as tables. A variable stands in quotes or in a comment, or it is a plain part of a
word.

* `run_pieces` — a run of pieces of a template, read with its variables replaced.
-/

import OpenVHost.Conf.Templates
import OpenVHost.Nginx.Sketch

namespace OpenVHost.Conf

open Nginx (Atom Hole Directive Reading fillWord sketch word)

/-! ### Templates as texts with holes -/

def Piece.atoms : Piece → List (Atom String)
  | .text s => word s
  | .var name => [.hole name]

def atoms (ps : List Piece) : List (Atom String) := ps.flatMap Piece.atoms

/-- The value a context has for a name. -/
def valueIn (ctx : Context) (name : String) : List Char := (ctx.lookup name).getD []

/-- The variables that stand in quotes, or in comments. -/
def quotedVars : List String :=
  ["custom_site_dir", "custom_sites_dir", "custom_site_glob", "custom_sites_glob",
    "generated_sites_glob", "docroot", "access_log", "error_log", "pid_path", "temp_dir", "socket"]

def holeKind (name : String) : Hole := if name ∈ quotedVars then .quoted else .plain

/-- Between two directives of a block at this depth. -/
def level {α : Type} (depth : Nat) : Reading α := ⟨.blank, [], depth⟩

section Pieces

variable {ctx : Context} {ps : List Piece} {name : String}

theorem fillWord_atoms (ctx : Context) (ps : List Piece) :
    fillWord (valueIn ctx) (atoms ps) = ps.flatMap (Template.fill ctx) := by
  induction ps with
  | nil => rfl
  | cons p ps ih =>
      rw [atoms, List.flatMap_cons, Nginx.fillWord_append, List.flatMap_cons]
      rw [atoms] at ih
      rw [ih]
      cases p with
      | text s => rw [Piece.atoms, word, Nginx.fillWord_letters, Template.fill]
      | var name => rw [Piece.atoms, Nginx.fillWord_hole, Template.fill, valueIn]

theorem hole_mem_atoms (h : .hole name ∈ atoms ps) : .var name ∈ ps := by
  obtain ⟨p, hp, hmem⟩ := List.mem_flatMap.mp h
  cases p with
  | text s =>
      obtain ⟨c, -, hc⟩ := List.mem_map.mp hmem
      cases hc
  | var n =>
      cases List.mem_singleton.mp hmem
      exact hp

/-- The pieces of a template, read with their variables replaced. -/
theorem run_pieces {r r' : Reading (Atom String)} {ds : List (Directive (Atom String))}
    (hfit : ∀ name, .var name ∈ ps → (holeKind name).Fits (valueIn ctx name))
    (h : Nginx.run (sketch holeKind) r (atoms ps) = some (r', ds)) :
    Nginx.run (Reading.step id) (r.fill (valueIn ctx)) (ps.flatMap (Template.fill ctx)) =
      some (r'.fill (valueIn ctx), ds.map (Directive.fill (valueIn ctx))) := by
  rw [← fillWord_atoms]
  exact Nginx.run_fill (fun name hname => hfit name (hole_mem_atoms hname)) h

theorem flatMap_fill_split {n : Nat} (h : ps[n]? = some (.var name)) :
    ps.flatMap (Template.fill ctx) =
      (ps.take n).flatMap (Template.fill ctx) ++
        (valueIn ctx name ++ (ps.drop (n + 1)).flatMap (Template.fill ctx)) := by
  obtain ⟨hn, hp⟩ := List.getElem?_eq_some_iff.mp h
  conv => lhs; rw [← List.take_append_drop n ps, List.drop_eq_getElem_cons hn, hp]
  rw [List.flatMap_append, List.flatMap_cons]
  rfl

/-- The pieces of a template and its characters. To spell a template out once is cheaper than
to compute the characters of each text. -/
inductive Spelled : List Piece → List (Atom String) → Prop where
  | nil : Spelled [] []
  | text {ps : List Piece} {text : List (Atom String)} (s : List Char) (h : Spelled ps text) :
      Spelled (.text (String.ofList s) :: ps) (s.map .letter ++ text)
  | var {ps : List Piece} {text : List (Atom String)} (name : String) (h : Spelled ps text) :
      Spelled (.var name :: ps) (.hole name :: text)

theorem atoms_of_spelled {text : List (Atom String)} (h : Spelled ps text) : atoms ps = text := by
  induction h with
  | nil => rfl
  | text s h ih =>
      rw [atoms] at ih
      rw [atoms, List.flatMap_cons, ih, Piece.atoms, word, String.toList_ofList]
  | var name h ih =>
      rw [atoms] at ih
      rw [atoms, List.flatMap_cons, ih]
      rfl

theorem run_spelled {text : List (Atom String)} {r : Reading (Atom String)}
    {result : Option (Reading (Atom String) × List (Directive (Atom String)))}
    (h : Spelled ps text) (hrun : Nginx.run (sketch holeKind) r text = result) :
    Nginx.run (sketch holeKind) r (atoms ps) = result := by
  rw [atoms_of_spelled h, hrun]

end Pieces

/-! ### The tables -/

def hole (name : String) : List (Atom String) := [.hole name]

/-- A directive without a block, and one with a block. -/
def simple (depth : Nat) (words : List (List (Atom String))) : Directive (Atom String) :=
  ⟨depth, words, false⟩

def block (depth : Nat) (words : List (List (Atom String))) : Directive (Atom String) :=
  ⟨depth, words, true⟩

/-- `nginx/site.conf`, without the upstream block and the PHP location. -/
def siteTable : List (Directive (Atom String)) := [
  block 0 [word "server"],
  simple 1 [word "listen", hole "listen_addr"],
  simple 1 [word "server_name", hole "server_name"],
  simple 1 [word "root", hole "docroot"],
  simple 1 [word "index", word "index.php", word "index.html"],
  simple 1 [word "access_log", hole "access_log", hole "access_log_format"],
  simple 1 [word "error_log", hole "error_log", word "warn"],
  block 1 [word "location", word "/"],
  simple 2 [word "try_files", word "$uri", word "$uri/", word "/index.php$is_args$args"],
  block 1 [word "location", word "~", word "/\\."],
  simple 2 [word "deny", word "all"]]

/-- `nginx/default-site.conf`, without the PHP location. -/
def defaultTable : List (Directive (Atom String)) := [
  block 0 [word "server"],
  simple 1 [word "listen", hole "listen_addr", word "default_server"],
  simple 1 [word "server_name", word "_"],
  simple 1 [word "root", hole "docroot"],
  simple 1 [word "index", word "index.php", word "index.html"],
  block 1 [word "location", word "/"],
  simple 2 [word "try_files", word "$uri", word "$uri/", word "=404"],
  block 1 [word "location", word "~", word "/\\."],
  simple 2 [word "deny", word "all"]]

/-- `nginx/php-location.conf` up to the pass directive. -/
def locationHead : List (Directive (Atom String)) := [
  block 1 [word "location", word "~", word "\\.php$"],
  simple 2 [word "try_files", word "$uri", word "=404"]]

/-- A parameter that is passed on to PHP. -/
def fastcgiParam (name value : String) : Directive (Atom String) :=
  simple 2 [word "fastcgi_param", word name, word value]

/-- `nginx/php-location.conf` below the pass directive. -/
def locationTail : List (Directive (Atom String)) := [
  fastcgiParam "SCRIPT_FILENAME" "$document_root$fastcgi_script_name",
  fastcgiParam "SCRIPT_NAME" "$fastcgi_script_name",
  fastcgiParam "REDIRECT_STATUS" "200",
  fastcgiParam "QUERY_STRING" "$query_string",
  fastcgiParam "REQUEST_METHOD" "$request_method",
  fastcgiParam "CONTENT_TYPE" "$content_type",
  fastcgiParam "CONTENT_LENGTH" "$content_length",
  fastcgiParam "REQUEST_URI" "$request_uri",
  fastcgiParam "DOCUMENT_URI" "$document_uri",
  fastcgiParam "DOCUMENT_ROOT" "$document_root",
  fastcgiParam "SERVER_PROTOCOL" "$server_protocol",
  fastcgiParam "GATEWAY_INTERFACE" "CGI/1.1",
  fastcgiParam "SERVER_SOFTWARE" "nginx",
  fastcgiParam "REMOTE_ADDR" "$remote_addr",
  fastcgiParam "REMOTE_PORT" "$remote_port",
  fastcgiParam "SERVER_ADDR" "$server_addr",
  fastcgiParam "SERVER_PORT" "$server_port",
  fastcgiParam "SERVER_NAME" "$server_name",
  simple 2 [word "include", hole "custom_site_glob"]]

/-- `nginx/main.conf` up to the lines that only matter once gzip is on. -/
def mainHead : List (Directive (Atom String)) := [
  simple 0 [word "daemon", word "off"],
  simple 0 [word "worker_processes", word "1"],
  simple 0 [word "pid", hole "pid_path"],
  simple 0 [word "error_log", hole "error_log", word "warn"],
  simple 0 [word "error_log", word "stderr", word "notice"],
  block 0 [word "events"],
  simple 1 [word "worker_connections", hole "worker_connections"],
  block 0 [word "http"],
  block 1 [word "map", word "$request_uri", word "$request_path"],
  simple 2 [word "~^(?<p>[^?]*)", word "$p"],
  simple 1 [word "log_format", hole "access_log_format",
    word ("$remote_addr - [$time_local] \"$request_method $request_path $server_protocol\" " ++
      "$status $body_bytes_sent")],
  simple 1 [word "access_log", hole "access_log", hole "access_log_format"],
  simple 1 [word "client_max_body_size", hole "client_max_body_size"],
  simple 1 [word "keepalive_timeout", hole "keepalive_timeout"],
  simple 1 [word "tcp_nodelay", hole "tcp_nodelay"],
  simple 1 [word "fastcgi_connect_timeout", hole "fastcgi_connect_timeout"],
  simple 1 [word "fastcgi_send_timeout", hole "fastcgi_send_timeout"],
  simple 1 [word "fastcgi_read_timeout", hole "fastcgi_read_timeout"],
  simple 1 [word "gzip", hole "gzip"]]

/-- A type of `types`, with the suffixes of its files. -/
def typeOf (type : String) (suffixes : List String) : Directive (Atom String) :=
  simple 2 (word type :: suffixes.map word)

/-- `nginx/main.conf` from there on. -/
def mainTail : List (Directive (Atom String)) := [
  block 1 [word "types"],
  typeOf "text/html" ["html", "htm"],
  typeOf "text/css" ["css"],
  typeOf "text/xml" ["xml"],
  typeOf "text/plain" ["txt"],
  typeOf "application/javascript" ["js", "mjs"],
  typeOf "application/json" ["json", "map"],
  typeOf "application/pdf" ["pdf"],
  typeOf "application/zip" ["zip"],
  typeOf "image/svg+xml" ["svg", "svgz"],
  typeOf "image/png" ["png"],
  typeOf "image/jpeg" ["jpeg", "jpg"],
  typeOf "image/gif" ["gif"],
  typeOf "image/webp" ["webp"],
  typeOf "image/avif" ["avif"],
  typeOf "image/x-icon" ["ico"],
  typeOf "font/woff" ["woff"],
  typeOf "font/woff2" ["woff2"],
  typeOf "font/ttf" ["ttf"],
  typeOf "video/mp4" ["mp4"],
  simple 1 [word "default_type", word "application/octet-stream"],
  simple 1 [word "client_body_temp_path", hole "temp_dir" ++ word "/client_body"],
  simple 1 [word "proxy_temp_path", hole "temp_dir" ++ word "/proxy"],
  simple 1 [word "fastcgi_temp_path", hole "temp_dir" ++ word "/fastcgi"],
  simple 1 [word "uwsgi_temp_path", hole "temp_dir" ++ word "/uwsgi"],
  simple 1 [word "scgi_temp_path", hole "temp_dir" ++ word "/scgi"],
  simple 1 [word "include", hole "generated_sites_glob"],
  simple 1 [word "include", hole "custom_sites_glob"]]

section Sketches

/-- The templates, each read once. -/
theorem sketch_templates :
    Nginx.run (sketch holeKind) (level 0) (atoms (siteConf.pieces.take 6)) =
      some (level 0, []) ∧
    Nginx.run (sketch holeKind) (level 0) (atoms ((siteConf.pieces.drop 7).take 37)) =
      some (level 1, siteTable) ∧
    Nginx.run (sketch holeKind) (level 1) (atoms ((siteConf.pieces.drop 7).drop 38)) =
      some (level 0, []) ∧
    Nginx.run (sketch holeKind) (level 0) (atoms (defaultSiteConf.pieces.take 29)) =
      some (level 1, defaultTable) ∧
    Nginx.run (sketch holeKind) (level 1) (atoms (defaultSiteConf.pieces.drop 30)) =
      some (level 0, []) ∧
    Nginx.run (sketch holeKind) (level 1) (atoms (phpLocation.pieces.take 3)) =
      some (level 2, locationHead) ∧
    Nginx.run (sketch holeKind) (level 2) (atoms (phpLocation.pieces.drop 4)) =
      some (level 1, locationTail) ∧
    Nginx.run (sketch holeKind) (level 0) (atoms (mainConf.pieces.take 72)) =
      some (level 1, mainHead) ∧
    Nginx.run (sketch holeKind) (level 1) (atoms (mainConf.pieces.drop 73)) =
      some (level 0, mainTail) := by
  refine ⟨?_, ?_, ?_, ?_, ?_, ?_, ?_, ?_, ?_⟩
  · apply run_spelled
    · repeat' first | apply Spelled.nil | apply Spelled.text | apply Spelled.var
    · decide +kernel
  · apply run_spelled
    · repeat' first | apply Spelled.nil | apply Spelled.text | apply Spelled.var
    · decide +kernel
  · apply run_spelled
    · repeat' first | apply Spelled.nil | apply Spelled.text
    · decide
  · apply run_spelled
    · repeat' first | apply Spelled.nil | apply Spelled.text | apply Spelled.var
    · decide +kernel
  · apply run_spelled
    · repeat' first | apply Spelled.nil | apply Spelled.text
    · decide
  · apply run_spelled
    · repeat' first | apply Spelled.nil | apply Spelled.text
    · decide
  · apply run_spelled
    · repeat' first | apply Spelled.nil | apply Spelled.text | apply Spelled.var
    · decide +kernel
  · apply run_spelled
    · repeat' first | apply Spelled.nil | apply Spelled.text | apply Spelled.var
    · decide +kernel
  · apply run_spelled
    · repeat' first | apply Spelled.nil | apply Spelled.text | apply Spelled.var
    · decide +kernel

theorem sketch_siteHead :
    Nginx.run (sketch holeKind) (level 0) (atoms (siteConf.pieces.take 6)) = some (level 0, []) :=
  sketch_templates.1

theorem sketch_site :
    Nginx.run (sketch holeKind) (level 0) (atoms ((siteConf.pieces.drop 7).take 37)) = some (level 1, siteTable) :=
  sketch_templates.2.1

theorem sketch_siteTail :
    Nginx.run (sketch holeKind) (level 1) (atoms ((siteConf.pieces.drop 7).drop 38)) = some (level 0, []) :=
  sketch_templates.2.2.1

theorem sketch_default :
    Nginx.run (sketch holeKind) (level 0) (atoms (defaultSiteConf.pieces.take 29)) = some (level 1, defaultTable) :=
  sketch_templates.2.2.2.1

theorem sketch_defaultTail :
    Nginx.run (sketch holeKind) (level 1) (atoms (defaultSiteConf.pieces.drop 30)) = some (level 0, []) :=
  sketch_templates.2.2.2.2.1

theorem sketch_locationHead :
    Nginx.run (sketch holeKind) (level 1) (atoms (phpLocation.pieces.take 3)) = some (level 2, locationHead) :=
  sketch_templates.2.2.2.2.2.1

theorem sketch_locationTail :
    Nginx.run (sketch holeKind) (level 2) (atoms (phpLocation.pieces.drop 4)) = some (level 1, locationTail) :=
  sketch_templates.2.2.2.2.2.2.1

theorem sketch_mainHead :
    Nginx.run (sketch holeKind) (level 0) (atoms (mainConf.pieces.take 72)) = some (level 1, mainHead) :=
  sketch_templates.2.2.2.2.2.2.2.1

theorem sketch_mainTail :
    Nginx.run (sketch holeKind) (level 1) (atoms (mainConf.pieces.drop 73)) = some (level 0, mainTail) :=
  sketch_templates.2.2.2.2.2.2.2.2

/-- The texts that are composed without a template, as pieces. -/
def unixPass : List Piece := [.text "fastcgi_pass \"unix:", .var "socket", .text "\";"]

def tcpPass : List Piece :=
  [.text "fastcgi_pass ", .var "upstream_name",
    .text ";\n        fastcgi_next_upstream error timeout invalid_header http_500;"]

def upstreamOpen : List Piece := [.text "upstream ", .var "upstream_name", .text " \x7b\n"]

def upstreamServer : List Piece :=
  [.text "    server ", .var "addr", .text " max_fails=1 fail_timeout=1s;\n"]

def gzipLevel : List Piece := [.text "\n    gzip_comp_level ", .var "level", .text ";"]

def unixPassTable : List (Directive (Atom String)) :=
  [simple 2 [word "fastcgi_pass", word "unix:" ++ hole "socket"]]

def tcpPassTable : List (Directive (Atom String)) := [
  simple 2 [word "fastcgi_pass", hole "upstream_name"],
  simple 2 [word "fastcgi_next_upstream", word "error", word "timeout", word "invalid_header",
    word "http_500"]]

def upstreamTable : List (Directive (Atom String)) :=
  [block 0 [word "upstream", hole "upstream_name"]]

def serverTable : List (Directive (Atom String)) :=
  [simple 1 [word "server", hole "addr", word "max_fails=1", word "fail_timeout=1s"]]

def gzipLevelTable : List (Directive (Atom String)) :=
  [simple 1 [word "gzip_comp_level", hole "level"]]

theorem sketch_unixPass :
    Nginx.run (sketch holeKind) (level 2) (atoms unixPass) = some (level 2, unixPassTable) := by
  decide

theorem sketch_tcpPass :
    Nginx.run (sketch holeKind) (level 2) (atoms tcpPass) = some (level 2, tcpPassTable) := by
  apply run_spelled
  · repeat' first | apply Spelled.nil | apply Spelled.text | apply Spelled.var
  · decide

theorem sketch_upstreamOpen :
    Nginx.run (sketch holeKind) (level 0) (atoms upstreamOpen) = some (level 1, upstreamTable) := by
  decide

theorem sketch_upstreamServer :
    Nginx.run (sketch holeKind) (level 1) (atoms upstreamServer) =
      some (level 1, serverTable) := by
  decide

theorem sketch_gzipLevel :
    Nginx.run (sketch holeKind) (level 1) (atoms gzipLevel) = some (level 1, gzipLevelTable) := by
  decide

end Sketches

end OpenVHost.Conf
