/-
# Where the servers log and where the logs are looked for

`LogPaths` joins the home with the names of a log; the rendered files have the home's rendered
text with the same names behind it. The two are one path unless the renderer rewrites the home.

* `samePath_rendered_iff` — for which homes the two derivations agree.
* `mem_logDirs` — the directories of a plan.
* `LogsAgree` — the rendered files log where `LogPaths` says, in the directories of the plan.
* `logs_agree_iff` — in which plans they do.
-/

import OpenVHost.Conf.Pool
import OpenVHost.Conf.SamePath
import OpenVHost.Site.Names
import OpenVHost.Site.Plan

namespace OpenVHost.Site

open FileTree Io Text Conf

/-! ### The paths as texts -/

namespace LogPaths

def rootText (home : Home) : List Char := joinText home.text "logs".toList

def nginxErrorText (home : Home) : List Char := joinText (rootText home) "nginx.error.log".toList

def nginxAccessText (home : Home) : List Char := joinText (rootText home) "nginx.access.log".toList

def phpFpmErrorText (home : Home) (major : PhpVersion) : List Char :=
  joinText (joinText (joinText (rootText home) "services".toList)
    ("php-fpm-".toList ++ major.asStr)) "error.log".toList

def siteDirText (home : Home) (domain : Domain) : List Char :=
  joinText (joinText (rootText home) "sites".toList) domain.asStr

def siteAccessText (home : Home) (domain : Domain) : List Char :=
  joinText (siteDirText home domain) "access.log".toList

def siteErrorText (home : Home) (domain : Domain) : List Char :=
  joinText (siteDirText home domain) "error.log".toList

end LogPaths

/-- A text names the place in the home that its names behind those of the home lead to. -/
def Beneath (home : Home) (s : List Char) (p : Path) : Prop :=
  ∃ names, components s = components home.text ++ names ∧ p = home.dir ++ names

/-- The directory of a log. -/
def DirOf (home : Home) (log : List Char) (dir : Path) : Prop :=
  ∃ name, Beneath home log (dir ++ [name])

/-! ### The logs of a rendered file -/

/-- The files that the directives of a name give in a file of the web server; `stderr` is none. -/
def nginxLogs (name contents : List Char) : Option (List (List Char)) :=
  (Nginx.read contents).map fun ds =>
    ((Nginx.paramsOf name ds).filterMap List.head?).filter (· != "stderr".toList)

/-- A file of the web server gives these paths for its logs, and no others. -/
def GivesLogs (f : GeneratedFile) (name : String) (paths : List (List Char)) : Prop :=
  ∃ logs, nginxLogs name.toList f.contents = some logs ∧ List.Forall₂ SamePath logs paths

structure NginxLogsTo (f : GeneratedFile) (errors accesses : List (List Char)) : Prop where
  errors : GivesLogs f "error_log" errors
  accesses : GivesLogs f "access_log" accesses

section Agree

variable [Uuid]

/-- The directory of a site's logs, or of the log of an installed major. -/
def LogDirOf (input : ApplyInput) (dir : Path) : Prop :=
  (∃ s ∈ servable input.sites, DirOf input.home (LogPaths.siteErrorText input.home s.domain) dir ∧
    DirOf input.home (LogPaths.siteAccessText input.home s.domain) dir) ∨
  ∃ rt ∈ input.php, ∃ major, PhpVersion.parse rt.major = .ok major ∧
    DirOf input.home (LogPaths.phpFpmErrorText input.home major) dir

/-- **The log viewer and the servers name the same files**: each kind of rendered file logs where
`LogPaths` says, the directories of the plan are those of the logs of sites and pools, and they
lie below the root, apart from each other. -/
structure LogsAgree [Tera] (input : ApplyInput) (p : ApplyPlan) : Prop where
  main : ∀ f, NginxAdapter.generateMainConfig input.home input.settings = .ok f →
    NginxLogsTo f [LogPaths.nginxErrorText input.home] [LogPaths.nginxAccessText input.home]
  catchAll : ∀ up f, NginxAdapter.generateDefaultSiteConfig input.home listenAddr up = .ok f →
    NginxLogsTo f [] []
  site : ∀ s ∈ servable input.sites, ∀ f, renderSite input s = .ok f →
    NginxLogsTo f [LogPaths.siteErrorText input.home s.domain]
      [LogPaths.siteAccessText input.home s.domain]
  pool : ∀ rt ∈ input.php, ∀ f, renderPool input rt = .ok (some f) →
    ∃ major log, PhpVersion.parse rt.major = .ok major ∧ LogsTo f log ∧
      SamePath log (LogPaths.phpFpmErrorText input.home major)
  siteListed : ∀ s ∈ servable input.sites, ∃ dir ∈ p.logDirs,
    DirOf input.home (LogPaths.siteErrorText input.home s.domain) dir ∧
      DirOf input.home (LogPaths.siteAccessText input.home s.domain) dir
  poolListed : ∀ rt ∈ input.php, ∀ major, PhpVersion.parse rt.major = .ok major →
    ∃ dir ∈ p.logDirs, DirOf input.home (LogPaths.phpFpmErrorText input.home major) dir
  nothingElse : ∀ dir ∈ p.logDirs, LogDirOf input dir
  below : ∀ dir ∈ p.logDirs, LogPaths.root input.home <+: dir ∧ dir ≠ LogPaths.root input.home
  sitesApart : ∀ a ∈ servable input.sites, ∀ b ∈ servable input.sites, a ≠ b →
    LogPaths.siteDir input.home a.domain ≠ LogPaths.siteDir input.home b.domain
  majorsApart : ∀ a b : PhpVersion, a.asStr ≠ b.asStr →
    (LogPaths.phpFpmError input.home a).dropLast ≠ (LogPaths.phpFpmError input.home b).dropLast
  kindsApart : ∀ (d : Domain) (v : PhpVersion),
    LogPaths.siteDir input.home d ≠ (LogPaths.phpFpmError input.home v).dropLast

end Agree

/-! ### Rendered and joined -/

section Rendered

variable {home : Home} {homeStr p s : List Char}

/-- **The two derivations of a path agree** for the homes that the renderer leaves as they are, the
empty one apart. -/
theorem samePath_rendered_iff {t : List Char} (hjoin : Joined p s t)
    (h : toConfigPath p = .ok homeStr) :
    SamePath (homeStr ++ '/' :: s) t ↔ p ≠ [] ∧ '\\' ∉ p := by
  have hrel := hjoin.relative
  rw [hjoin.eq]
  constructor
  · intro hsame
    constructor
    · rintro rfl
      have hnil : homeStr = [] := by
        have hself : toConfigPath [] = .ok [] := rfl
        rw [hself] at h
        exact (Except.ok.inj h).symm
      have habs := hsame.absolute
      rw [hnil, joinText, hrel] at habs
      have hfalse : true = isAbsolute s := by simpa [isAbsolute] using habs
      rw [hrel] at hfalse
      cases hfalse
    · intro hslash
      have hcomp := hsame.components
      rw [components_append_slash, components_joinText hrel] at hcomp
      have hparts := List.append_cancel_right hcomp
      obtain ⟨n, hn, hc⟩ := mem_components (by decide) (by decide) hslash
      rw [← hparts] at hn
      exact (toConfigPath_chars h _ (mem_of_mem_components hn hc)).2 rfl
  · rintro ⟨hne, hslash⟩
    have haccepts := toConfigPath_accepts_iff.mp ⟨homeStr, h⟩
    have hself : toConfigPath p = .ok p := by
      refine toConfigPath_eq_self_iff.mpr fun c hc => ⟨haccepts c hc, ?_⟩
      rintro rfl
      exact hslash hc
    rw [hself] at h
    cases h
    exact samePath_joinText hne hrel

end Rendered

/-! ### The names behind the home -/

section Names

variable {home : Home} {log : List Char} {dir names : Path} {n : Name}

theorem dirOf_iff (h : components log = components home.text ++ (names ++ [n])) :
    DirOf home log dir ↔ dir = home.dir ++ names := by
  constructor
  · rintro ⟨name, rest, hrest, hdir⟩
    obtain rfl := List.append_cancel_left (h.symm.trans hrest)
    rw [← List.append_assoc] at hdir
    exact (List.append_inj' hdir rfl).1
  · rintro rfl
    exact ⟨n, names ++ [n], h, List.append_assoc _ _ _⟩

theorem components_siteLog (h : OneName n) (home : Home) (d : Domain) :
    components (joinText (LogPaths.siteDirText home d) n) =
      components home.text ++ (["logs".toList, "sites".toList, d.asStr] ++ [n]) := by
  rw [components_join h, LogPaths.siteDirText, components_join d.oneName_asStr,
    components_join (by decide), LogPaths.rootText, components_join (by decide)]
  simp

theorem components_phpFpmErrorText (home : Home) (v : PhpVersion) :
    components (LogPaths.phpFpmErrorText home v) = components home.text ++
      (["logs".toList, "services".toList, "php-fpm-".toList ++ v.asStr] ++ ["error.log".toList]) := by
  rw [LogPaths.phpFpmErrorText, components_join (by decide),
    components_join (v.oneName_append (by decide)), components_join (by decide), LogPaths.rootText,
    components_join (by decide)]
  simp

theorem joined_siteLog (h : OneName n) (home : Home) (d : Domain) :
    Joined home.text ("logs/sites".toList ++ '/' :: d.asStr ++ '/' :: n)
      (joinText (LogPaths.siteDirText home d) n) := by
  have hlogs : OneName "logs".toList := by decide
  have hsites : OneName "sites".toList := by decide
  exact (((Joined.name hlogs home.text).join hsites).join d.oneName_asStr).join h

theorem joined_phpFpmErrorText (home : Home) (v : PhpVersion) :
    Joined home.text ("logs/services".toList ++ '/' :: ("php-fpm-".toList ++ v.asStr) ++
      '/' :: "error.log".toList) (LogPaths.phpFpmErrorText home v) := by
  have hlogs : OneName "logs".toList := by decide
  have hservices : OneName "services".toList := by decide
  have herror : OneName "error.log".toList := by decide
  exact (((Joined.name hlogs home.text).join hservices).join
    (v.oneName_append (by decide))).join herror

/-- A log of a site is in the site's directory. -/
theorem dirOf_siteLog (h : OneName n) (d : Domain) :
    DirOf home (joinText (LogPaths.siteDirText home d) n) dir ↔ dir = LogPaths.siteDir home d := by
  rw [dirOf_iff (components_siteLog h home d), LogPaths.siteDir, LogPaths.root, List.append_assoc]
  rfl

theorem dirOf_phpFpmError (v : PhpVersion) :
    DirOf home (LogPaths.phpFpmErrorText home v) dir ↔
      dir = (LogPaths.phpFpmError home v).dropLast := by
  rw [dirOf_iff (components_phpFpmErrorText home v), LogPaths.phpFpmError, LogPaths.root]
  simp

end Names

/-! ### The directories of a plan -/

section LogDirs

variable {home : Home} {dir : Path}

theorem poolLogDir_iff {rt : PhpRuntime} : poolLogDir home rt = .ok dir ↔
    ∃ major, PhpVersion.parse rt.major = .ok major ∧
      dir = (LogPaths.phpFpmError home major).dropLast := by
  unfold poolLogDir
  cases PhpVersion.parse rt.major with
  | error e => simp
  | ok major => simp [eq_comm]

theorem siteDir_inj {a b : Domain} (h : LogPaths.siteDir home a = LogPaths.siteDir home b) :
    a.asStr = b.asStr := by
  simpa [LogPaths.siteDir] using h

theorem poolDir_inj {a b : PhpVersion} (h : (LogPaths.phpFpmError home a).dropLast =
    (LogPaths.phpFpmError home b).dropLast) : a.asStr = b.asStr := by
  simpa [LogPaths.phpFpmError] using h

theorem siteDir_ne_poolDir (d : Domain) (v : PhpVersion) :
    LogPaths.siteDir home d ≠ (LogPaths.phpFpmError home v).dropLast := by
  simp [LogPaths.siteDir, LogPaths.phpFpmError]

variable [Uuid] {input : ApplyInput} {dirs : List Path}

/-- **The directories of a plan** are those of the logs of its sites and pools. -/
theorem mem_logDirs (h : logDirs input = .ok dirs) : dir ∈ dirs ↔ LogDirOf input dir := by
  obtain ⟨pools, hpools, h⟩ := bind_eq_ok.mp h
  cases h
  rw [mem_sortByPath, List.mem_append, mem_mapM' hpools, List.mem_map, or_comm]
  refine or_congr (exists_congr fun s => and_congr_right fun _ => ?_)
    (exists_congr fun rt => and_congr_right fun _ => ?_)
  · rw [LogPaths.siteErrorText, LogPaths.siteAccessText, dirOf_siteLog (by decide),
      dirOf_siteLog (by decide), and_self, eq_comm]
  · rw [poolLogDir_iff]
    exact exists_congr fun major => and_congr_right fun _ => (dirOf_phpFpmError major).symm

theorem below_of_mem_logDirs (h : logDirs input = .ok dirs) (hdir : dir ∈ dirs) :
    LogPaths.root input.home <+: dir ∧ dir ≠ LogPaths.root input.home := by
  obtain ⟨a, b, rfl, -, -⟩ := (logDirs_ok h).2 dir hdir
  refine ⟨List.prefix_append _ _, fun heq => ?_⟩
  have hlen := congrArg List.length heq
  simp at hlen

end LogDirs

/-! ### The logs that are rendered -/

section Logs

open Nginx (paramsOf)

variable {f : GeneratedFile} {name : String} {log : List Char} {paths : List (List Char)}
  {home : Home} {homeStr : List Char}

theorem givesLogs_iff {logs : List (List Char)} (h : nginxLogs name.toList f.contents = some logs) :
    GivesLogs f name paths ↔ List.Forall₂ SamePath logs paths := by
  constructor
  · rintro ⟨logs', hlogs', hall⟩
    rw [h] at hlogs'
    cases hlogs'
    exact hall
  · exact fun hall => ⟨logs, h, hall⟩

theorem givesLogs_one {log path : List Char} (h : nginxLogs name.toList f.contents = some [log]) :
    GivesLogs f name [path] ↔ SamePath log path := by
  rw [givesLogs_iff h]
  simp

/-- What a directive names, `stderr` apart, where it is a path with a slash. -/
theorem files_eq (hlog : '/' ∈ log) (ps : List (List Char)) (others : List (List (List Char)))
    (hothers : (others.filterMap List.head?).filter (· != "stderr".toList) = []) :
    (((log :: ps) :: others).filterMap List.head?).filter (· != "stderr".toList) = [log] := by
  have hfile : (log != "stderr".toList) = true := by
    rw [bne_iff_ne]
    rintro rfl
    revert hlog
    decide
  have hheads : ((log :: ps) :: others).filterMap List.head? =
      log :: others.filterMap List.head? := rfl
  rw [hheads, List.filter_cons, if_pos hfile, hothers]

/-- The logs of the main configuration. -/
theorem logs_generateMainConfig [Tera] {settings : WebServerSettings} (hsettings : Parsed settings)
    (h : NginxAdapter.generateMainConfig home settings = .ok f) :
    ∃ homeStr, toConfigPath home.text = .ok homeStr ∧
      nginxLogs "error_log".toList f.contents =
        some [homeStr ++ '/' :: "logs/nginx.error.log".toList] ∧
      nginxLogs "access_log".toList f.contents =
        some [homeStr ++ '/' :: "logs/nginx.access.log".toList] := by
  obtain ⟨homeStr, hhome, hread⟩ := read_generateMainConfig hsettings h
  have hpaths : MainPaths homeStr (mainDirectives homeStr settings) :=
    mainPaths_mainDirectives settings
  refine ⟨homeStr, hhome, ?_, ?_⟩
  · rw [nginxLogs, hread, Option.map_some, hpaths.errorLog]
    exact congrArg some (files_eq (by simp) _ _ (by decide))
  · rw [nginxLogs, hread, Option.map_some, hpaths.accessLog]
    exact congrArg some (files_eq (by simp) _ _ rfl)

/-- The logs of a site's file. -/
theorem logs_generateSiteConfig [Tera] {ctx : RenderCtx} (hname : Nginx.Hole.plain.Fits ctx.serverName)
    (hupstream : Nginx.Hole.plain.Fits ctx.upstreamName)
    (h : NginxAdapter.generateSiteConfig ctx = .ok f) :
    ∃ homeStr, toConfigPath ctx.home.text = .ok homeStr ∧
      nginxLogs "error_log".toList f.contents =
        some [siteLogDir homeStr ctx.serverName ++ "/error.log".toList] ∧
      nginxLogs "access_log".toList f.contents =
        some [siteLogDir homeStr ctx.serverName ++ "/access.log".toList] := by
  obtain ⟨homeStr, docroot, socket, hhome, -, -, hread⟩ :=
    read_generateSiteConfig hname hupstream h
  have hpaths : SitePaths homeStr ctx.serverName docroot (siteDirectives homeStr ctx.serverName
    docroot ctx.listenAddr.toText ctx.upstreamName socket ctx.phpUpstream) :=
    sitePaths_siteDirectives
  refine ⟨homeStr, hhome, ?_, ?_⟩
  · rw [nginxLogs, hread, Option.map_some, hpaths.errorLog]
    exact congrArg some (files_eq (by simp) _ _ rfl)
  · rw [nginxLogs, hread, Option.map_some, hpaths.accessLog]
    exact congrArg some (files_eq (by simp) _ _ rfl)

/-- The catch-all has no logs of its own. -/
theorem logs_generateDefaultSiteConfig [Tera] {listen : SocketAddr} {up : Option PhpUpstream}
    (h : NginxAdapter.generateDefaultSiteConfig home listen up = .ok f) :
    nginxLogs "error_log".toList f.contents = some [] ∧
      nginxLogs "access_log".toList f.contents = some [] := by
  obtain ⟨homeStr, docroot, socket, -, -, -, hread⟩ := read_generateDefaultSiteConfig h
  have hnone : ∀ {name : String}, Nginx.sketchParams name defaultTable = [] →
      (Nginx.sketchParams name locationHead = [] ∧ Nginx.sketchParams name locationTail = [] ∧
        Nginx.sketchParams name unixPassTable = [] ∧ Nginx.sketchParams name tcpPassTable = []) →
      nginxLogs name.toList f.contents = some [] := by
    intro name hdefault hlocation
    rw [nginxLogs, hread, Option.map_some, paramsOf_defaultDirectives hdefault]
    cases up with
    | none => rfl
    | some up =>
        dsimp only
        rw [paramsOf_locationDirectives_eq_nil hlocation]
        rfl
  exact ⟨hnone (by decide) (by decide), hnone (by decide) (by decide)⟩

end Logs

/-! ### Each kind of file -/

section Files

variable [Uuid] [Tera] {input : ApplyInput} {f : GeneratedFile}

/-- The main configuration logs where `LogPaths` says for these homes only. -/
theorem main_agrees_iff (hsettings : Parsed input.settings)
    (h : NginxAdapter.generateMainConfig input.home input.settings = .ok f) :
    NginxLogsTo f [LogPaths.nginxErrorText input.home] [LogPaths.nginxAccessText input.home] ↔
      input.home.text ≠ [] ∧ '\\' ∉ input.home.text := by
  obtain ⟨homeStr, hhome, herror, haccess⟩ := logs_generateMainConfig hsettings h
  have hlogs : OneName "logs".toList := by decide
  have hname : ∀ {n : Name}, OneName n →
      (SamePath (homeStr ++ '/' :: ("logs".toList ++ '/' :: n))
          (joinText (LogPaths.rootText input.home) n) ↔
        input.home.text ≠ [] ∧ '\\' ∉ input.home.text) := fun hn =>
    samePath_rendered_iff ((Joined.name hlogs input.home.text).join hn) hhome
  constructor
  · intro hfile
    exact (hname (by decide)).mp ((givesLogs_one herror).mp hfile.errors)
  · intro hplain
    constructor
    · exact (givesLogs_one herror).mpr ((hname (by decide)).mpr hplain)
    · exact (givesLogs_one haccess).mpr ((hname (by decide)).mpr hplain)

theorem site_agrees {s : Site} (hne : input.home.text ≠ []) (hslash : '\\' ∉ input.home.text)
    (h : renderSite input s = .ok f) :
    NginxLogsTo f [LogPaths.siteErrorText input.home s.domain]
      [LogPaths.siteAccessText input.home s.domain] := by
  obtain ⟨socket, -, h⟩ := bind_eq_ok.mp h
  obtain ⟨ctx, hctx, h⟩ := bind_eq_ok.mp h
  obtain ⟨rfl, hname, hupstream⟩ := plain_of_renderCtx (conf_eq_ok hctx)
  obtain ⟨homeStr, hhome, herror, haccess⟩ :=
    logs_generateSiteConfig hname hupstream (conf_eq_ok h)
  have hsame : ∀ {n : Name}, OneName n →
      SamePath (siteLogDir homeStr s.domain.asStr ++ '/' :: n)
        (joinText (LogPaths.siteDirText input.home s.domain) n) := by
    intro n hn
    have := (samePath_rendered_iff (joined_siteLog hn input.home s.domain) hhome).mpr ⟨hne, hslash⟩
    simpa [siteLogDir] using this
  constructor
  · exact (givesLogs_one herror).mpr (hsame (by decide))
  · exact (givesLogs_one haccess).mpr (hsame (by decide))

theorem pool_agrees {rt : PhpRuntime} {major : PhpVersion} (hne : input.home.text ≠ [])
    (hslash : '\\' ∉ input.home.text) (hmajor : PhpVersion.parse rt.major = .ok major)
    (h : renderPool input rt = .ok (some f)) :
    ∃ log, LogsTo f log ∧ SamePath log (LogPaths.phpFpmErrorText input.home major) := by
  have htext : major.asStr = rt.major := by
    unfold PhpVersion.parse at hmajor
    split at hmajor
    next => exact (Except.ok.inj hmajor) ▸ rfl
    next => split at hmajor <;> cases hmajor
  have hline : '\n' ∉ rt.major := by
    rw [← htext]
    intro hc
    rcases major.digit_or_dot _ hc with hc | hc
    · exact absurd hc (by decide)
    · exact absurd hc (by decide)
  obtain ⟨socket, -, h⟩ := bind_eq_ok.mp h
  obtain ⟨homeStr, hhome, hlogs⟩ := logsTo_generatePoolConfig hline (conf_eq_ok h)
  refine ⟨_, hlogs, ?_⟩
  have := (samePath_rendered_iff (joined_phpFpmErrorText input.home major) hhome).mpr ⟨hne, hslash⟩
  simpa [phpFpmLogDir, htext] using this

end Files

/-! ### Plans -/

section Plans

variable [Uuid] [Tera] {input : ApplyInput} {p : ApplyPlan} {d d' : Disk}

/-- What a plan that is returned has been made from. -/
theorem plan_ok (h : plan input d = .ok p d') :
    (∃ files, renderSet input = .ok files) ∧ logDirs input = .ok p.logDirs := by
  have hplan : wp (plan input)
      (fun p _ => (∃ files, renderSet input = .ok files) ∧ logDirs input = .ok p.logDirs)
      (fun _ _ => True) d := by
    unfold plan
    rw [wp_bind, wp_ofExcept]
    cases hfiles : renderSet input with
    | error e => trivial
    | ok files =>
        show wp (_ >>= _) _ _ d
        rw [wp_bind]
        refine wp_mono (wp_true _ d) (fun wanted d₁ _ => ?_) fun _ _ _ => trivial
        rw [wp_bind]
        refine wp_mono (wp_true _ d₁) (fun owned d₂ _ => ?_) fun _ _ _ => trivial
        rw [wp_bind]
        refine wp_mono (wp_true _ d₂) (fun stale d₃ _ => ?_) fun _ _ _ => trivial
        rw [wp_bind, wp_ofExcept]
        cases hdirs : logDirs input with
        | error e => trivial
        | ok dirs => exact ⟨⟨files, rfl⟩, rfl⟩
  unfold wp at hplan
  rw [h] at hplan
  exact hplan

/-- **Where the log viewer and the servers agree**: in the plans of a home whose text is not empty
and holds no backslash, and in which no two sites that are served share a domain. -/
theorem logs_agree_iff (hsettings : Parsed input.settings) (h : plan input d = .ok p d') :
    LogsAgree input p ↔
      input.home.text ≠ [] ∧ '\\' ∉ input.home.text ∧
        ∀ a ∈ servable input.sites, ∀ b ∈ servable input.sites,
          a.domain.asStr = b.domain.asStr → a = b := by
  obtain ⟨⟨files, hfiles⟩, hdirs⟩ := plan_ok h
  obtain ⟨main, -, -, -, -, hmain, -⟩ := renderSet_parts hfiles
  constructor
  · intro hagree
    obtain ⟨hne, hslash⟩ := (main_agrees_iff hsettings hmain).mp (hagree.main main hmain)
    refine ⟨hne, hslash, fun a ha b hb heq => ?_⟩
    by_contra hab
    refine hagree.sitesApart a ha b hb hab ?_
    rw [LogPaths.siteDir, heq, LogPaths.siteDir]
  · rintro ⟨hne, hslash, hdomains⟩
    constructor
    · exact fun f hf => (main_agrees_iff hsettings hf).mpr ⟨hne, hslash⟩
    · intro up f hf
      obtain ⟨herror, haccess⟩ := logs_generateDefaultSiteConfig hf
      exact ⟨⟨_, herror, .nil⟩, ⟨_, haccess, .nil⟩⟩
    · exact fun s _ f hf => site_agrees hne hslash hf
    · intro rt hrt f hf
      have hvalid := (logDirs_ok hdirs).1 rt hrt
      have hmajor : PhpVersion.parse rt.major = .ok ⟨rt.major, hvalid⟩ := dif_pos hvalid
      obtain ⟨log, hlog, hsame⟩ := pool_agrees hne hslash hmajor hf
      exact ⟨_, log, hmajor, hlog, hsame⟩
    · intro s hs
      have herror : DirOf input.home (LogPaths.siteErrorText input.home s.domain)
          (LogPaths.siteDir input.home s.domain) := (dirOf_siteLog (by decide) s.domain).mpr rfl
      have haccess : DirOf input.home (LogPaths.siteAccessText input.home s.domain)
          (LogPaths.siteDir input.home s.domain) := (dirOf_siteLog (by decide) s.domain).mpr rfl
      exact ⟨_, (mem_logDirs hdirs).mpr (.inl ⟨s, hs, herror, haccess⟩), herror, haccess⟩
    · intro rt hrt major hmajor
      have hdir : DirOf input.home (LogPaths.phpFpmErrorText input.home major)
          (LogPaths.phpFpmError input.home major).dropLast := (dirOf_phpFpmError major).mpr rfl
      exact ⟨_, (mem_logDirs hdirs).mpr (.inr ⟨rt, hrt, major, hmajor, hdir⟩), hdir⟩
    · exact fun dir hdir => (mem_logDirs hdirs).mp hdir
    · exact fun dir hdir => below_of_mem_logDirs hdirs hdir
    · exact fun a ha b hb hab heq => hab (hdomains a ha b hb (siteDir_inj heq))
    · exact fun a b hab heq => hab (poolDir_inj heq)
    · exact siteDir_ne_poolDir

end Plans

/-! ### A home with a backslash -/

section Sample

attribute [local instance] verbatimTera hyphenatedUuid

/-- A home with one site and PHP 8.4. -/
theorem logs_agree_blog :
    ∃ p d', plan (ingressInput [blogSite]) ⟨Tree.ofNodes [(["h".toList], .dir none)], [], []⟩ =
      .ok p d' ∧ LogsAgree (ingressInput [blogSite]) p := by
  have hreturns : returns (plan (ingressInput [blogSite]))
      ⟨Tree.ofNodes [(["h".toList], .dir none)], [], []⟩ = true := by decide
  obtain ⟨p, d', hplan⟩ := exists_of_returns hreturns
  refine ⟨p, d', hplan, (logs_agree_iff parsed_uncheckedDefaults hplan).mpr ?_⟩
  refine ⟨by decide, by decide, fun a ha b hb _ => ?_⟩
  obtain rfl := List.mem_singleton.mp ha
  exact (List.mem_singleton.mp hb).symm

theorem backslash_plain : Plain ["h\\x".toList] := by decide

/-- A home whose one name has a backslash in it, and nothing to serve. -/
def backslashInput : ApplyInput :=
  ⟨⟨"/h\\x".toList, ["h\\x".toList], backslash_plain⟩, [], [], uncheckedDefaults, none⟩

/-- **In a home with a backslash** the server logs below another directory. -/
theorem logs_disagree_backslash :
    ¬ ∀ (input : ApplyInput) (p : ApplyPlan) (d d' : Disk), Parsed input.settings →
      plan input d = .ok p d' → LogsAgree input p := by
  intro hall
  have hreturns : returns (plan backslashInput)
      ⟨Tree.ofNodes [(["h\\x".toList], .dir none)], [], []⟩ = true := by decide
  obtain ⟨p, d', hplan⟩ := exists_of_returns hreturns
  have hagree := hall _ p _ d' parsed_uncheckedDefaults hplan
  obtain ⟨⟨files, hfiles⟩, -⟩ := plan_ok hplan
  obtain ⟨main, -, -, -, -, hmain, -⟩ := renderSet_parts hfiles
  have hplain := (main_agrees_iff parsed_uncheckedDefaults hmain).mp (hagree.main main hmain)
  exact hplain.2 (by decide)

end Sample

end OpenVHost.Site
