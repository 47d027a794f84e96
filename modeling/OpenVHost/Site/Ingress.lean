/-
# What the parsers admit can be rendered

The parsers of a site and the renderer hold a grammar each. `Domain` and
`PhpVersion` admit a subset of what the renderer accepts; `SiteId` keeps the
spelling of the UUID, and `Docroot` admits `#`, `;` and `\`, which
`toConfigPath` refuses or spells differently.

* `Renders` — what the renderer is to make of every admitted site.
* `renderSet_returns_iff` — a set is rendered exactly when each part is.
* `renders_iff` — the sites for which it does.
-/

import OpenVHost.Site.RenderSet

namespace OpenVHost.Site

open FileTree Text Conf

section Parsed

theorem Domain.validHostname (d : Domain) :
    d.asStr ≠ [] ∧ d.asStr.all validHostnameChar = true ∧ [] ∉ d.asStr.splitOn '.' := by
  refine ⟨d.ne_nil, ?_, ?_⟩
  · refine List.all_eq_true.mpr fun c hc => ?_
    rcases d.label_char c hc with rfl | h
    · decide
    · unfold labelChar at h
      unfold validHostnameChar
      simp only [Bool.or_eq_true] at h ⊢
      tauto
  · intro h
    have hv := d.valid
    simp only [validDomain, Bool.and_eq_true] at hv
    exact absurd (List.all_eq_true.mp hv.2 [] h) (by decide)

theorem Domain.quote_notMem (d : Domain) : '"' ∉ d.asStr := by
  intro h
  rcases d.label_char _ h with h | h
  · exact absurd h (by decide)
  · exact absurd h (by decide)

theorem PhpVersion.validComponent (v : PhpVersion) : Conf.validComponent v.asStr = true := by
  have hspecial := v.oneName.2
  rw [special_eq_false] at hspecial
  obtain ⟨hne, hdot, hdots⟩ := hspecial
  have hall : v.asStr.all (fun c => isAsciiLowercase c || isAsciiDigit c || c == '.' || c == '_' ||
      c == '-') = true := by
    refine List.all_eq_true.mpr fun c hc => ?_
    rcases v.digit_or_dot c hc with rfl | h
    · decide
    · simp [h]
  unfold Conf.validComponent
  rw [hall]
  simp [hne, hdot, hdots]

theorem isAsciiDigit_renderable {c : Char} (h : isAsciiDigit c = true) : unrenderable c = false := by
  have hrange : 48 ≤ c.toNat ∧ c.toNat ≤ 57 := by simpa [isAsciiDigit] using h
  have hne : ∀ x : Char, (x.toNat < 48 ∨ 57 < x.toNat) → c ≠ x := by
    rintro x hx rfl
    omega
  have hcontrol : isAsciiControl c = false := by
    unfold isAsciiControl
    simp only [Bool.or_eq_false_iff, decide_eq_false_iff_not, beq_eq_false_iff_ne]
    omega
  simp [unrenderable, hcontrol, hne '"' (by decide), hne '$' (by decide), hne '#' (by decide),
    hne ';' (by decide)]

theorem PhpVersion.renderable (v : PhpVersion) : ∀ c ∈ v.asStr, unrenderable c = false := by
  intro c hc
  rcases v.digit_or_dot c hc with rfl | h
  · decide
  · exact isAsciiDigit_renderable h

/-- A docroot holds what is not rendered only as `#` and `;`. -/
theorem Docroot.renderable_iff (d : Docroot) :
    (∀ c ∈ d.asStr, unrenderable c = false) ↔ ∀ c ∈ d.asStr, c ≠ '#' ∧ c ≠ ';' := by
  have hv := d.valid
  simp only [validDocroot, Bool.and_eq_true, List.all_eq_true] at hv
  refine forall₂_congr fun c hc => ?_
  have hchar := hv.2 c hc
  simp only [docrootChar, Bool.not_eq_true', Bool.or_eq_false_iff, beq_eq_false_iff_ne] at hchar
  simp only [unrenderable, Bool.or_eq_false_iff, beq_eq_false_iff_ne, hchar.2]
  tauto

theorem Docroot.quote_notMem (d : Docroot) : '"' ∉ d.asStr := by
  intro h
  have hv := d.valid
  simp only [validDocroot, Bool.and_eq_true, List.all_eq_true] at hv
  exact absurd (hv.2 _ h) (by decide)

end Parsed

/-! ### The pieces of a site's file -/

section Pieces

variable [Uuid]

/-- The characters of an upstream's name. -/
def upstreamChar (c : Char) : Bool := isAsciiLowercase c || isAsciiDigit c || c == '_'

theorem validUpstreamName_iff (id : SiteId) :
    validUpstreamName (upstreamName id) = true ↔ ∀ c ∈ id.asStr, c ≠ '-' → upstreamChar c = true := by
  have hprefix : "php_".toList.all upstreamChar = true := by decide
  have hvalid : validUpstreamName (upstreamName id) =
      (id.asStr.filter (· != '-')).all upstreamChar := by
    show (!(upstreamName id).isEmpty && (upstreamName id).all upstreamChar) = _
    rw [upstreamName, List.all_append, hprefix]
    rfl
  rw [hvalid]
  simp only [List.all_eq_true, List.mem_filter, bne_iff_ne, ne_eq, and_imp]

omit [Uuid] in
theorem mem_joinText {p s : List Char} {c : Char} (h : c ∈ joinText p s) :
    c ∈ p ∨ c = '/' ∨ c ∈ s := by
  unfold joinText at h
  split at h
  · exact .inr (.inr h)
  · split at h
    · exact (List.mem_append.mp h).imp id .inr
    · rcases List.mem_append.mp h with h | h
      · exact .inl h
      · exact .inr (List.mem_cons.mp h)

omit [Uuid] in
theorem renderable_of_all {s : List Char} (h : s.all (fun c => !unrenderable c) = true) :
    ∀ c ∈ s, unrenderable c = false := by
  simpa using h

omit [Uuid] in
/-- The socket of an accepted home and version is accepted. -/
theorem socketPath_renderable {home : Home} {v : PhpVersion} {sock : List Char}
    (hhome : ∃ s, toConfigPath home.text = .ok s) (h : socketPath home v.asStr = .ok sock) :
    ∃ s, toConfigPath sock = .ok s := by
  rw [toConfigPath_accepts_iff] at hhome ⊢
  unfold socketPath at h
  simp only at h
  split at h
  next => cases h
  next =>
    cases h
    intro c hc
    have hrun : ∀ c ∈ "run".toList, unrenderable c = false := renderable_of_all (by decide)
    have hpool : ∀ c ∈ "php-fpm-".toList, unrenderable c = false := renderable_of_all (by decide)
    have hsock : ∀ c ∈ ".sock".toList, unrenderable c = false := renderable_of_all (by decide)
    rcases mem_joinText hc with hc | rfl | hc
    · rcases mem_joinText hc with hc | rfl | hc
      · exact hhome c hc
      · decide
      · exact hrun c hc
    · decide
    · rcases List.mem_append.mp hc with hc | hc
      · rcases List.mem_append.mp hc with hc | hc
        · exact hpool c hc
        · exact v.renderable c hc
      · exact hsock c hc

end Pieces

section Rendering

variable [Uuid] [Tera] {input : ApplyInput}

/-- **A site's file**, where the home, the socket and the site's own texts are accepted. -/
theorem renderSite_served (input : ApplyInput) (site : Site)
    (hhome : ∃ s, toConfigPath input.home.text = .ok s)
    (hsock : ∃ s, socketPath input.home site.phpVersion.asStr = .ok s)
    (hup : validUpstreamName (upstreamName site.id) = true) {docroot : List Char}
    (hdocroot : toConfigPath site.docroot.asStr = .ok docroot) :
    ∃ f, renderSite input site = .ok f ∧ ServedFrom f.contents docroot := by
  obtain ⟨sock, hs⟩ := hsock
  have hsock := socketPath_renderable hhome hs
  obtain ⟨homeStr, hhome⟩ := hhome
  have hup' : PhpUpstream.unixSocket sock ≠ .tcpPorts [] := by simp
  obtain ⟨ctx, hctx⟩ := (renderCtx_new_ok input.home site.docroot.asStr listenAddr
    site.domain.validHostname site.phpVersion.validComponent hup').mpr hup
  have heq := renderCtx_new_eq hctx
  subst heq
  have hlisten : '"' ∉ listenAddr.toText := by decide
  obtain ⟨f, hf, hserved⟩ := generateSiteConfig_served ⟨input.home, site.domain.asStr,
    site.docroot.asStr, listenAddr, site.phpVersion.asStr, .unixSocket sock, upstreamName site.id⟩
    rfl hhome hdocroot hsock hlisten site.domain.quote_notMem
  have hctx' := congrArg conf hctx
  have hf' := congrArg conf hf
  exact ⟨f, bind_eq_ok.mpr ⟨sock, hs, bind_eq_ok.mpr ⟨_, hctx', hf'⟩⟩, hserved⟩

omit [Uuid] [Tera] in
/-- A loop that collects returns exactly when each step does. -/
theorem mapM'_returns_iff {ε α β : Type} {f : α → Except ε β} :
    ∀ {xs : List α}, (∃ ys, xs.mapM' f = .ok ys) ↔ ∀ x ∈ xs, ∃ y, f x = .ok y
  | [] => by
      constructor
      · intro _ x hx
        cases hx
      · exact fun _ => ⟨[], rfl⟩
  | x :: xs => by
      constructor
      · rintro ⟨ys, h⟩ z hz
        exact exists_of_mapM' h hz
      · intro h
        obtain ⟨y, hy⟩ := h x List.mem_cons_self
        obtain ⟨ys, hys⟩ := mapM'_returns_iff.mpr fun z hz => h z (List.mem_cons_of_mem _ hz)
        exact ⟨y :: ys, bind_eq_ok.mpr ⟨y, hy, bind_eq_ok.mpr ⟨ys, hys, rfl⟩⟩⟩

/-- What `renderSet` needs besides the sites. -/
structure FrameRenders (input : ApplyInput) : Prop where
  main : ∃ f, NginxAdapter.generateMainConfig input.home input.settings = .ok f
  default : ∃ up f, defaultUpstream input = .ok up ∧
    NginxAdapter.generateDefaultSiteConfig input.home listenAddr up = .ok f
  pools : ∀ rt ∈ input.php, ∃ r, renderPool input rt = .ok r

/-- What `renderSet` needs of one site. -/
def SiteRenders (input : ApplyInput) (site : Site) : Prop :=
  isServable site = true →
    (∃ rt ∈ input.php, rt.major = site.phpVersion.asStr) ∧ ∃ f, renderSite input site = .ok f

omit [Tera] in
theorem firstMissing_eq_none_iff : firstMissing input = none ↔
    ∀ site ∈ servable input.sites, ∃ rt ∈ input.php, rt.major = site.phpVersion.asStr := by
  simp [firstMissing, List.find?_eq_none]

/-- **A set is rendered exactly when its frame and each of its sites are.** -/
theorem renderSet_returns_iff :
    (∃ files, renderSet input = .ok files) ↔
      FrameRenders input ∧ ∀ site ∈ input.sites, SiteRenders input site := by
  have hmem : ∀ {site}, site ∈ servable input.sites ↔ site ∈ input.sites ∧ isServable site = true :=
    List.mem_filter
  constructor
  · rintro ⟨files, h⟩
    obtain ⟨main, up, default, sites, pools, hmain, hup, hdefault, hsites, hpools, -⟩ :=
      renderSet_parts h
    unfold renderSet at h
    split at h
    next => cases h
    next hmissing =>
      rw [firstMissing_eq_none_iff] at hmissing
      refine ⟨⟨⟨main, hmain⟩, ⟨up, default, hup, hdefault⟩,
        mapM'_returns_iff.mp ⟨pools, hpools⟩⟩, fun site hs hservable => ?_⟩
      exact ⟨hmissing site (hmem.mpr ⟨hs, hservable⟩),
        mapM'_returns_iff.mp ⟨sites, hsites⟩ site (hmem.mpr ⟨hs, hservable⟩)⟩
  · rintro ⟨⟨⟨main, hmain⟩, ⟨up, default, hup, hdefault⟩, hpools⟩, hall⟩
    have hmissing : firstMissing input = none :=
      firstMissing_eq_none_iff.mpr fun site hs => (hall site (hmem.mp hs).1 (hmem.mp hs).2).1
    obtain ⟨sites, hsites⟩ := mapM'_returns_iff.mpr fun site hs =>
      (hall site (hmem.mp hs).1 (hmem.mp hs).2).2
    obtain ⟨pools, hpools⟩ := mapM'_returns_iff.mpr hpools
    unfold renderSet
    rw [hmissing]
    refine ⟨_, bind_eq_ok.mpr ⟨main, ?_, bind_eq_ok.mpr ⟨up, hup, bind_eq_ok.mpr ⟨default, ?_,
      bind_eq_ok.mpr ⟨sites, hsites, bind_eq_ok.mpr ⟨pools, hpools, rfl⟩⟩⟩⟩⟩⟩
    · exact congrArg conf hmain
    · exact congrArg conf hdefault

/-! ### What is admitted -/

/-- What the renderer is to make of an admitted site: its upstream's name and its
docroot are accepted, its file names the docroot as it is stored, and a set that
renders without it renders with it, wherever its runtime is installed. -/
structure Renders (site : Site) : Prop where
  upstream : validUpstreamName (upstreamName site.id) = true
  accepted : ∃ s, toConfigPath site.docroot.asStr = .ok s
  served : ∀ input : ApplyInput, (∃ s, toConfigPath input.home.text = .ok s) →
    (∃ s, socketPath input.home site.phpVersion.asStr = .ok s) →
    ∃ f, renderSite input site = .ok f ∧ ServedFrom f.contents site.docroot.asStr
  joins : ∀ (input : ApplyInput) (before after : List Site), input.sites = before ++ after →
    (∃ files, renderSet input = .ok files) →
    (∃ rt ∈ input.php, rt.major = site.phpVersion.asStr) →
    ∃ files, renderSet { input with sites := before ++ site :: after } = .ok files

omit [Uuid] [Tera] in
/-- A version's socket fits below a short home. -/
theorem socketPath_short (v : PhpVersion) :
    ∃ s, socketPath ⟨"/h".toList, ["h".toList], by decide⟩ v.asStr = .ok s := by
  have hlen : utf8Len v.asStr ≤ 8 := by
    have hv := v.valid
    simp only [validPhpVersion, Bool.and_eq_true, decide_eq_true_eq] at hv
    exact hv.1
  have hjoin : joinText (joinText "/h".toList "run".toList)
      ("php-fpm-".toList ++ v.asStr ++ ".sock".toList) =
      "/h/run/php-fpm-".toList ++ v.asStr ++ ".sock".toList := by
    simp [joinText, isAbsolute]
  refine ⟨_, if_neg ?_⟩
  rw [hjoin]
  have hpre : utf8Len "/h/run/php-fpm-".toList = 15 := by decide
  have hpost : utf8Len ".sock".toList = 5 := by decide
  simp only [utf8Len, utf8_append, List.length_append] at hlen hpre hpost ⊢
  rw [hpre, hpost, maxSocketPathBytes]
  omega

/-- **The sites that are rendered as they were admitted**: the id is spelled in
lower case without braces or a prefix, and no `#`, `;` or `\` is in the docroot. -/
theorem renders_iff (site : Site) :
    Renders site ↔ (∀ c ∈ site.id.asStr, c ≠ '-' → upstreamChar c = true) ∧
      ∀ c ∈ site.docroot.asStr, c ≠ '#' ∧ c ≠ ';' ∧ c ≠ '\\' := by
  constructor
  · intro h
    refine ⟨(validUpstreamName_iff site.id).mp h.upstream, ?_⟩
    have hchars := site.docroot.renderable_iff.mp (toConfigPath_accepts_iff.mp h.accepted)
    obtain ⟨docroot, hdocroot⟩ := h.accepted
    -- a render below a short home shows what is written
    let input : ApplyInput := ⟨⟨"/h".toList, ["h".toList], by decide⟩, [], [], uncheckedDefaults, none⟩
    have hshort : toConfigPath "/h".toList = .ok "/h".toList := by decide
    have hhome : ∃ s, toConfigPath input.home.text = .ok s := ⟨_, hshort⟩
    have hsock := socketPath_short site.phpVersion
    obtain ⟨f, hf, hserved⟩ := h.served input hhome hsock
    obtain ⟨g, hg, hwritten⟩ := renderSite_served input site hhome hsock h.upstream hdocroot
    rw [hf] at hg
    cases hg
    have hquote : '"' ∉ docroot := fun hq => absurd (toConfigPath_chars hdocroot _ hq).1 (by decide)
    have heq := hserved.unique hwritten site.docroot.quote_notMem hquote
    rw [← heq] at hdocroot
    exact fun c hc => ⟨(hchars c hc).1, (hchars c hc).2, (toConfigPath_chars hdocroot c hc).2⟩
  · rintro ⟨hid, hdocroot⟩
    have hup := (validUpstreamName_iff site.id).mpr hid
    have hself : toConfigPath site.docroot.asStr = .ok site.docroot.asStr := by
      have hchars := site.docroot.renderable_iff.mpr fun c hc =>
        ⟨(hdocroot c hc).1, (hdocroot c hc).2.1⟩
      exact toConfigPath_eq_self_iff.mpr fun c hc => ⟨hchars c hc, (hdocroot c hc).2.2⟩
    refine ⟨hup, ⟨_, hself⟩, fun input hhome hsock =>
      renderSite_served input site hhome hsock hup hself, ?_⟩
    intro input before after hsites hfiles ⟨rt, hrt, hmajor⟩
    obtain ⟨hframe, hall⟩ := renderSet_returns_iff.mp hfiles
    rw [renderSet_returns_iff]
    refine ⟨⟨hframe.main, hframe.default, hframe.pools⟩, fun other hother hservable => ?_⟩
    rw [hsites] at hall
    rcases List.mem_append.mp hother with hother | hother
    · exact hall other (List.mem_append_left _ hother) hservable
    · rcases List.mem_cons.mp hother with rfl | hother
      · refine ⟨⟨rt, hrt, hmajor⟩, ?_⟩
        obtain ⟨main, hmain⟩ := hframe.main
        obtain ⟨homeStr, hhome, -⟩ := bind_eq_ok.mp hmain
        obtain ⟨r, hpool⟩ := hframe.pools rt hrt
        obtain ⟨sock, hsock, -⟩ := bind_eq_ok.mp hpool
        obtain ⟨f, hf, -⟩ := renderSite_served input _ ⟨homeStr, hhome⟩
          ⟨sock, hmajor ▸ hsock⟩ hup hself
        exact ⟨f, hf⟩
      · exact hall other (List.mem_append_right _ hother) hservable

end Rendering

/-! ### Runs -/

section Sample

attribute [local instance] verbatimTera hyphenatedUuid

/-- A site of PHP 8.4 as the parsers return it. -/
def sampleSite (id docroot : String) (hid : Uuid.parseStr id.toList = true)
    (hdocroot : validDocroot docroot.toList = true) : Site where
  id := ⟨id.toList, hid⟩
  name := ⟨"my".toList, by decide⟩
  domain := ⟨"my.test".toList, by decide⟩
  docroot := ⟨docroot.toList, hdocroot⟩
  webServer := .nginx
  phpVersion := ⟨"8.4".toList, by decide⟩
  enabled := true

/-- PHP 8.4 and the given sites. -/
def ingressInput (sites : List Site) : ApplyInput :=
  ⟨⟨"/h".toList, ["h".toList], by decide⟩, sites, [⟨"8.4".toList⟩], uncheckedDefaults, none⟩

def plainSite : Site :=
  sampleSite "123e4567-e89b-12d3-a456-426614174000" "/srv/my" (by decide) (by decide)

def hashSite : Site :=
  sampleSite "123e4567-e89b-12d3-a456-426614174000" "/srv/my#site" (by decide) (by decide)

def upperSite : Site :=
  sampleSite "123E4567-E89B-12D3-A456-426614174000" "/srv/my" (by decide) (by decide)

def backslashSite : Site :=
  sampleSite "123e4567-e89b-12d3-a456-426614174000" "/srv/a\\b" (by decide) (by decide)

/-- **Three admitted sites**: one whose docroot is refused and one whose id gives
no upstream name each keep the whole set from rendering, and one is served from
another directory. -/
theorem admitted_not_rendered :
    (∃ files, renderSet (ingressInput []) = .ok files) ∧
    (¬ Renders hashSite ∧ ¬ ∃ files, renderSet (ingressInput [hashSite]) = .ok files) ∧
    (¬ Renders upperSite ∧ ¬ ∃ files, renderSet (ingressInput [upperSite]) = .ok files) ∧
    ¬ Renders backslashSite ∧ ∃ f, renderSite (ingressInput [backslashSite]) backslashSite = .ok f ∧
      ServedFrom f.contents "/srv/a/b".toList := by
  have hreturns : ∀ sites, (∃ files, renderSet (ingressInput sites) = .ok files) ↔
      (renderSet (ingressInput sites)).toOption.isSome = true := by
    intro sites
    cases renderSet (ingressInput sites) <;> simp [Except.toOption]
  have hnone : ∃ files, renderSet (ingressInput []) = .ok files :=
    (hreturns []).mpr (by decide +kernel)
  have hblocks : ∀ site, (renderSet (ingressInput [site])).toOption.isSome = false →
      site.phpVersion.asStr = "8.4".toList →
      ¬ Renders site ∧ ¬ ∃ files, renderSet (ingressInput [site]) = .ok files := by
    intro site hsite hversion
    have hno : ¬ ∃ files, renderSet (ingressInput [site]) = .ok files := by
      rw [hreturns, hsite]
      simp
    refine ⟨fun h => hno (h.joins (ingressInput []) [] [] rfl hnone ?_), hno⟩
    exact ⟨⟨"8.4".toList⟩, List.mem_singleton_self _, hversion.symm⟩
  have hhome : toConfigPath "/h".toList = .ok "/h".toList := by decide
  have hslash : toConfigPath "/srv/a\\b".toList = .ok "/srv/a/b".toList := by decide
  have hname : validUpstreamName (upstreamName backslashSite.id) = true := by decide
  obtain ⟨f, hf, hserved⟩ := renderSite_served (ingressInput [backslashSite]) backslashSite
    ⟨_, hhome⟩ (socketPath_short _) hname hslash
  refine ⟨hnone, hblocks hashSite (by decide +kernel) rfl,
    hblocks upperSite (by decide +kernel) rfl, fun h => ?_, f, hf, hserved⟩
  obtain ⟨g, hg, hstored⟩ := h.served (ingressInput [backslashSite]) ⟨_, hhome⟩ (socketPath_short _)
  rw [hf] at hg
  cases hg
  exact absurd (hserved.unique hstored (by decide) backslashSite.docroot.quote_notMem) (by decide)

end Sample

end OpenVHost.Site
