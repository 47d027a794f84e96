/-
# The configuration templates

The text of every template, as the pieces between its variables, and what it is
to substitute the variables. The template engine is a parameter: `Tera` says
only that it substitutes a template's variables verbatim.

* `Template.substitute_of_infix` — a run of pieces of a template is in what it renders to.
-/

import OpenVHost.Text.Utf8

namespace OpenVHost.Conf

/-- A piece of a template: text, or `{{ name }}`. -/
inductive Piece where
  | text (s : String)
  | var (name : String)
  deriving DecidableEq, Repr

/-- A template and the name it is registered under. -/
structure Template where
  name : String
  pieces : List Piece
  deriving DecidableEq, Repr

/-- The variables of a render and their values. -/
abbrev Context := List (String × List Char)

namespace Template

/-- The variables a template reads. -/
def vars (t : Template) : List String :=
  t.pieces.filterMap fun
    | .text _ => none
    | .var name => some name

/-- A piece with its variable replaced. -/
def fill (ctx : Context) : Piece → List Char
  | .text s => s.toList
  | .var name => (ctx.lookup name).getD []

/-- The template's text with every variable replaced by its value. -/
def substitute (t : Template) (ctx : Context) : List Char := t.pieces.flatMap (fill ctx)

end Template

/-- The template engine. With autoescaping off, a template whose variables all
have a value renders to its text with the values put in. -/
class Tera where
  render : Template → Context → Except String (List Char)
  verbatim : ∀ t ctx, (∀ v ∈ t.vars, (ctx.lookup v).isSome) →
    render t ctx = .ok (t.substitute ctx)

/-- An engine that does that and refuses everything else. -/
@[reducible] def verbatimTera : Tera where
  render t ctx :=
    if ∀ v ∈ t.vars, (ctx.lookup v).isSome then .ok (t.substitute ctx)
    else .error "a variable has no value"
  verbatim _ _ h := if_pos h

/-! ### The templates -/

/-- `nginx/main.conf` -/
def mainConf : Template where
  name := "nginx/main.conf"
  pieces := [
    .text "# ---------------------------------------------------------------------------\n",
    .text "# GENERATED by OpenVHost — DO NOT EDIT. Regenerated idempotently; your edits\n",
    .text "# will be lost. To customize, add files under:\n",
    .text "#   ", .var "custom_sites_dir", .text "\n",
    .text "# ---------------------------------------------------------------------------\n",
    .text "daemon off;\n",
    .text "worker_processes 1;\n",
    .text "pid \"", .var "pid_path", .text "\";\n",
    .text "error_log \"", .var "error_log", .text "\" warn;\n",
    .text "error_log stderr notice;\n",
    .text "\n",
    .text "events \x7b\n",
    .text "    worker_connections ", .var "worker_connections", .text ";\n",
    .text "\x7d\n",
    .text "\n",
    .text "http \x7b\n",
    .text "    # $request_path = $request_uri (the ORIGINAL request URI, never\n",
    .text "    # rewritten) with everything from the first \"?\" onward stripped, so it\n",
    .text "    # is BOTH the actually-requested path (not the internal front-controller\n",
    .text "    # rewrite target site.conf.tera's `try_files $uri $uri/\n",
    .text "    # /index.php$is_args$args;` sends nearly every routed request to — $uri\n",
    .text "    # itself is evaluated POST-rewrite, which is why it is not used here)\n",
    .text "    # AND never carries a query string. This is the ONLY place\n",
    .text "    # $request_uri may appear in this file — see log_format below.\n",
    .text "    map $request_uri $request_path \x7b\n",
    .text "        ~^(?<p>[^?]*)  $p;\n",
    .text "    \x7d\n",
    .text "    # Explicit, named, and built on $request_path (never $uri/$request/$args)\n",
    .text "    # so a site's access log never carries a request's raw query string —\n",
    .text "    # $request/$args/$query_string/$arg_* would let a\n",
    .text "    # `?token=…`/`?api_key=…` reach a file the UI renders and users\n",
    .text "    # screenshot (P1 live-log-viewer design, spec D5).\n",
    .text "    # Site access logs (site.conf.tera) reference this SAME named format.\n",
    .text "    log_format ", .var "access_log_format",
    .text " '$remote_addr - [$time_local] ",
    .text "\"$request_method $request_path $server_protocol\" ",
    .text "$status $body_bytes_sent';\n",
    .text "    access_log \"", .var "access_log",
    .text "\" ", .var "access_log_format", .text ";\n",
    .text "    client_max_body_size ", .var "client_max_body_size", .text ";\n",
    .text "    keepalive_timeout ", .var "keepalive_timeout", .text ";\n",
    .text "    tcp_nodelay ", .var "tcp_nodelay", .text ";\n",
    .text "    fastcgi_connect_timeout ", .var "fastcgi_connect_timeout", .text ";\n",
    .text "    fastcgi_send_timeout ", .var "fastcgi_send_timeout", .text ";\n",
    .text "    fastcgi_read_timeout ", .var "fastcgi_read_timeout", .text ";\n",
    .text "    gzip ", .var "gzip", .text ";", .var "gzip_extra", .text "\n",
    .text "    types \x7b\n",
    .text "        text/html                             html htm;\n",
    .text "        text/css                              css;\n",
    .text "        text/xml                              xml;\n",
    .text "        text/plain                            txt;\n",
    .text "        application/javascript                js mjs;\n",
    .text "        application/json                      json map;\n",
    .text "        application/pdf                       pdf;\n",
    .text "        application/zip                       zip;\n",
    .text "        image/svg+xml                         svg svgz;\n",
    .text "        image/png                             png;\n",
    .text "        image/jpeg                            jpeg jpg;\n",
    .text "        image/gif                             gif;\n",
    .text "        image/webp                            webp;\n",
    .text "        image/avif                            avif;\n",
    .text "        image/x-icon                          ico;\n",
    .text "        font/woff                             woff;\n",
    .text "        font/woff2                            woff2;\n",
    .text "        font/ttf                              ttf;\n",
    .text "        video/mp4                             mp4;\n",
    .text "    \x7d\n",
    .text "    default_type application/octet-stream;\n",
    .text "    client_body_temp_path \"", .var "temp_dir", .text "/client_body\";\n",
    .text "    proxy_temp_path \"", .var "temp_dir", .text "/proxy\";\n",
    .text "    fastcgi_temp_path \"", .var "temp_dir", .text "/fastcgi\";\n",
    .text "    uwsgi_temp_path \"", .var "temp_dir", .text "/uwsgi\";\n",
    .text "    scgi_temp_path \"", .var "temp_dir", .text "/scgi\";\n",
    .text "\n",
    .text "    include \"", .var "generated_sites_glob", .text "\";\n",
    .text "    include \"", .var "custom_sites_glob", .text "\";\n",
    .text "\x7d\n"]

/-- `nginx/site.conf` -/
def siteConf : Template where
  name := "nginx/site.conf"
  pieces := [
    .text "# ---------------------------------------------------------------------------\n",
    .text "# GENERATED by OpenVHost — DO NOT EDIT. To customize this site, add files under:\n",
    .text "#   ", .var "custom_site_dir", .text "\n",
    .text "# ---------------------------------------------------------------------------\n",
    .var "php_upstream_block", .text "server \x7b\n",
    .text "    listen ", .var "listen_addr", .text ";\n",
    .text "    server_name ", .var "server_name", .text ";\n",
    .text "    root \"", .var "docroot", .text "\";\n",
    .text "    index index.php index.html;\n",
    .text "    # Per-site, not the global nginx.access.log/nginx.error.log (P1\n",
    .text "    # live-log-viewer design, spec D1): overriding these in a server block\n",
    .text "    # replaces, rather than adds to, the http-level ones, so this site's\n",
    .text "    # lines land ONLY here — attributable to this site, not mixed with\n",
    .text "    # every other site's. Same named format main.conf.tera declares.\n",
    .text "    access_log \"", .var "access_log",
    .text "\" ", .var "access_log_format", .text ";\n",
    .text "    error_log \"", .var "error_log", .text "\" warn;\n",
    .text "\n",
    .text "    location / \x7b\n",
    .text "        try_files $uri $uri/ /index.php$is_args$args;\n",
    .text "    \x7d\n",
    .text "\n",
    .text "    # Must come BEFORE the PHP location below: nginx matches regex locations\n",
    .text "    # in file order and takes the first match, so if this were listed after\n",
    .text "    # the PHP location, a request like /.env.php or /.git/x.php would hit\n",
    .text "    # the PHP location first and execute instead of being denied.\n",
    .text "    location ~ /\\. \x7b\n",
    .text "        deny all;\n",
    .text "    \x7d\n",
    .text "\n",
    .var "php_location", .text "\n",
    .text "\x7d\n"]

/-- `nginx/php-location.conf` -/
def phpLocation : Template where
  name := "nginx/php-location.conf"
  pieces := [
    .text "    location ~ \\.php$ \x7b\n",
    .text "        try_files $uri =404;\n",
    .text "        ", .var "php_pass", .text "\n",
    .text "        fastcgi_param SCRIPT_FILENAME $document_root$fastcgi_script_name;\n",
    .text "        fastcgi_param SCRIPT_NAME $fastcgi_script_name;\n",
    .text "        fastcgi_param REDIRECT_STATUS 200;\n",
    .text "        fastcgi_param QUERY_STRING $query_string;\n",
    .text "        fastcgi_param REQUEST_METHOD $request_method;\n",
    .text "        fastcgi_param CONTENT_TYPE $content_type;\n",
    .text "        fastcgi_param CONTENT_LENGTH $content_length;\n",
    .text "        fastcgi_param REQUEST_URI $request_uri;\n",
    .text "        fastcgi_param DOCUMENT_URI $document_uri;\n",
    .text "        fastcgi_param DOCUMENT_ROOT $document_root;\n",
    .text "        fastcgi_param SERVER_PROTOCOL $server_protocol;\n",
    .text "        fastcgi_param GATEWAY_INTERFACE CGI/1.1;\n",
    .text "        fastcgi_param SERVER_SOFTWARE nginx;\n",
    .text "        fastcgi_param REMOTE_ADDR $remote_addr;\n",
    .text "        fastcgi_param REMOTE_PORT $remote_port;\n",
    .text "        fastcgi_param SERVER_ADDR $server_addr;\n",
    .text "        fastcgi_param SERVER_PORT $server_port;\n",
    .text "        fastcgi_param SERVER_NAME $server_name;\n",
    .text "        include \"", .var "custom_site_glob", .text "\";\n",
    .text "    \x7d\n"]

/-- `nginx/default-site.conf` -/
def defaultSiteConf : Template where
  name := "nginx/default-site.conf"
  pieces := [
    .text "# ---------------------------------------------------------------------------\n",
    .text "# GENERATED by OpenVHost — DO NOT EDIT. This is the catch-all served when a\n",
    .text "# request matches no site. To customize, add files under:\n",
    .text "#   ", .var "custom_sites_dir", .text "\n",
    .text "# ---------------------------------------------------------------------------\n",
    .text "server \x7b\n",
    .text "    listen ", .var "listen_addr", .text " default_server;\n",
    .text "    server_name _;\n",
    .text "    root \"", .var "docroot", .text "\";\n",
    .text "    index index.php index.html;\n",
    .text "\n",
    .text "    location / \x7b\n",
    .text "        try_files $uri $uri/ =404;\n",
    .text "    \x7d\n",
    .text "\n",
    .text "    # Must come BEFORE the PHP location below: nginx matches regex locations\n",
    .text "    # in file order and takes the first match, so if this were listed after\n",
    .text "    # the PHP location, a request like /.env.php or /.git/x.php would hit\n",
    .text "    # the PHP location first and execute instead of being denied.\n",
    .text "    location ~ /\\. \x7b\n",
    .text "        deny all;\n",
    .text "    \x7d\n",
    .text "\n",
    .var "php_location", .text "\n",
    .text "\x7d\n"]

/-- `php-fpm/pool.conf` -/
def poolConf : Template where
  name := "php-fpm/pool.conf"
  pieces := [
    .text "; ---------------------------------------------------------------------------\n",
    .text "; GENERATED by OpenVHost — DO NOT EDIT. To customize this pool, add files under:\n",
    .text ";   ", .var "custom_pool_dir", .text "\n",
    .text "; ---------------------------------------------------------------------------\n",
    .text "[global]\n",
    .text "error_log = ", .var "error_log", .text "\n",
    .text "\n",
    .text "[www]\n",
    .text "listen = ", .var "socket", .text "\n",
    .text "pm = ondemand\n",
    .text "pm.max_children = 4\n",
    .text "catch_workers_output = yes\n",
    .text "; Stated explicitly (A6): if php-fpm's own default here ever flipped, the\n",
    .text "; desktop app's inherited environment — which on a terminal-launched dev\n",
    .text "; build carries whatever the user's shell exports — would be visible to\n",
    .text "; every script this pool runs.\n",
    .text "clear_env = yes\n",
    .text "; Stated explicitly rather than relied on as php-fpm's own default (the same\n",
    .text "; move this project already made for nginx's mandatory `-e`): without\n",
    .text "; try_files $uri =404 at the nginx layer, this is what stops php-fpm from\n",
    .text "; executing a request for a file that isn't actually a .php script.\n",
    .text "security.limit_extensions = .php\n",
    .text "; P1 live-log-viewer design, Task 7 live-proof finding: php-fpm is launched\n",
    .text "; with `-n` (no php.ini — stack.rs::php_fpm_spec's real invocation), which\n",
    .text "; leaves PHP's COMPILED-IN default for log_errors in effect (Off). Without\n",
    .text "; this, an uncaught PHP fatal was captured in NO log at all — not this\n",
    .text "; pool's own error_log above, and no FastCGI stderr record for nginx to log\n",
    .text "; either — proven live at the raw FastCGI-protocol level, bypassing nginx\n",
    .text "; entirely (crates/openvhost-core/tests/site_logs_e2e.rs is the full-stack\n",
    .text "; version of the same proof). display_errors defaulting to Off closes the\n",
    .text "; other half of the same gap: without it, every uncaught error is dumped\n",
    .text "; straight into the HTTP response body — full file-system paths and a stack\n",
    .text "; trace — visible to any client that can reach 127.0.0.1:8080, the same\n",
    .text "; disclosure class this project already treats as a security concern for\n",
    .text "; the phpinfo() catch-all (security audit A1).\n",
    .text ";\n",
    .text "; Security audit M1: log_errors stays php_admin_flag — a script must not be\n",
    .text "; able to call ini_set('log_errors', 0) to go dark, since the log viewer's\n",
    .text "; usefulness depends on it. display_errors deliberately uses the WEAKER\n",
    .text "; php_flag form instead: php_admin_flag can only be set here (or in the\n",
    .text "; main php-fpm config) and can never be changed at runtime, so\n",
    .text "; ini_set('display_errors', 1) — the single most common PHP debugging\n",
    .text "; incantation — would silently return false and do nothing. The security\n",
    .text "; value of Off comes from it being the DEFAULT a script has to deliberately\n",
    .text "; opt out of, not from making it unoverridable: by the time a script calls\n",
    .text "; ini_set() at all it has already executed arbitrary PHP as this user, so\n",
    .text "; locking the directive buys nothing further and only costs debuggability.\n",
    .text "; Do not \"harmonize\" this with log_errors above — they differ on purpose.\n",
    .text ";\n",
    .text "; Whole-branch review (canonical-form fix): php.net's documented directive\n",
    .text "; form for a boolean is php_admin_flag/php_flag, not php_admin_value/\n",
    .text "; php_value — FPM's string→bool coercion made the _value form work anyway\n",
    .text "; (proven live by site_logs_e2e.rs), but this is the form php.net's own\n",
    .text "; docs and every other php-fpm pool config actually use.\n",
    .text "php_admin_flag[log_errors] = On\n",
    .text "php_flag[display_errors] = Off\n",
    .text "include=", .var "custom_pool_glob", .text "\n"]

/-! ### What a template renders to -/

section Substitute

variable {t : Template} {ctx : Context}

/-- A run of pieces of a template is in what the template renders to. -/
theorem Template.substitute_of_infix {ps : List Piece} (h : ps <:+: t.pieces) :
    ps.flatMap (fill ctx) <:+: t.substitute ctx := by
  obtain ⟨before, after, heq⟩ := h
  refine ⟨before.flatMap (fill ctx), after.flatMap (fill ctx), ?_⟩
  rw [Template.substitute, ← heq, List.flatMap_append, List.flatMap_append]

/-- What stands around a variable is rendered around its value. -/
theorem Template.infix_of_var (name : String) {before after : String} {value : List Char}
    (hpieces : [.text before, .var name, .text after] <:+: t.pieces)
    (hvalue : ctx.lookup name = some value) :
    before.toList ++ (value ++ after.toList) <:+: t.substitute ctx := by
  have h : _ <:+: t.substitute ctx := substitute_of_infix hpieces
  simpa [fill, hvalue] using h

theorem Template.value_infix (name : String) {value : List Char} (hvar : .var name ∈ t.pieces)
    (hvalue : ctx.lookup name = some value) : value <:+: t.substitute ctx := by
  obtain ⟨before, after, heq⟩ := List.append_of_mem hvar
  have h : _ <:+: t.substitute ctx :=
    substitute_of_infix ⟨before, after, (by simp [heq] : before ++ [.var name] ++ after = t.pieces)⟩
  simpa [fill, hvalue] using h

/-- A variable among the names of a context has a value. -/
theorem lookup_isSome_of_mem {name : String} (h : name ∈ ctx.map Prod.fst) :
    (ctx.lookup name).isSome := by
  induction ctx with
  | nil => simp at h
  | cons entry ctx ih =>
      rw [List.lookup_cons]
      split
      · rfl
      · next hne =>
          rw [List.map_cons, List.mem_cons] at h
          exact ih (h.resolve_left fun heq => by simp [heq] at hne)

end Substitute

end OpenVHost.Conf
