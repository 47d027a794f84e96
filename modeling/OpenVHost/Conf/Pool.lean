/-
# What a pool listens on and where it logs

A pool file has one line that says what the pool listens on, the rendered path of its socket, and
one that says where it logs. No value that is put into the file brings a line with it.

* `listensOn_generatePoolConfig`, `logsTo_generatePoolConfig` — those lines.
* `toConfigPath_inj` — two sockets in one directory are rendered alike only where their names
  are alike.
-/

import OpenVHost.Conf.Injection

namespace OpenVHost.Conf

open FileTree Text
open Nginx (Atom Hole fillWord word)

/-- The lines of a pool file that start with a key. -/
def keyLines (key contents : List Char) : List (List Char) :=
  (contents.splitOn '\n').filter key.isPrefixOf

/-- A pool file that listens on this socket, and on nothing else. -/
def ListensOn (f : GeneratedFile) (socket : List Char) : Prop :=
  keyLines "listen".toList f.contents = ["listen = ".toList ++ socket]

theorem ListensOn.unique {f : GeneratedFile} {s t : List Char} (hs : ListensOn f s)
    (ht : ListensOn f t) : s = t := by
  have h := List.singleton_injective (hs.symm.trans ht)
  exact List.append_cancel_left h

/-- A pool file that logs here, and nowhere else. -/
def LogsTo (f : GeneratedFile) (log : List Char) : Prop :=
  keyLines "error_log".toList f.contents = ["error_log = ".toList ++ log]

/-! ### The lines of the template -/

section Lines

variable {text line : List (Atom String)} {values : String → List Char} {key : List Char}

/-- A line that may start with this key, by its first letter: one that starts with a hole might. -/
def mayStart (key : List Char) : List (Atom String) → Bool
  | .letter c :: _ => key.head?.all (· == c)
  | .hole _ :: _ => true
  | [] => key.isEmpty

theorem mayStart_of_starts (h : key.isPrefixOf (fillWord values line) = true) :
    mayStart key line = true := by
  obtain ⟨rest, hrest⟩ := List.isPrefixOf_iff_prefix.mp h
  cases key with
  | nil =>
      match line with
      | [] | .letter _ :: _ | .hole _ :: _ => rfl
  | cons first key =>
      cases line with
      | nil => cases hrest
      | cons a line =>
          cases a with
          | hole k => rfl
          | letter c =>
              have hc : first = c := (List.cons.inj hrest).1
              rw [← hc]
              exact beq_self_eq_true first

/-- The lines with a key are among those that may start with it. -/
theorem keyLines_fillWord (h : ∀ k, .hole k ∈ text → '\n' ∉ values k)
    (hlines : (text.splitOn (.letter '\n')).filter (mayStart key) = [line])
    (hline : key.isPrefixOf (fillWord values line) = true) :
    keyLines key (fillWord values text) = [fillWord values line] := by
  have hboth : ∀ l ∈ text.splitOn (.letter '\n'), key.isPrefixOf (fillWord values l) =
      (key.isPrefixOf (fillWord values l) && mayStart key l) := by
    intro l _
    cases hl : key.isPrefixOf (fillWord values l) with
    | false => rfl
    | true => rw [mayStart_of_starts hl, Bool.and_true]
  rw [keyLines, Nginx.lines_fillWord h, List.filter_map]
  have hfilter : (text.splitOn (.letter '\n')).filter (key.isPrefixOf ∘ fillWord values) =
      [line] := by
    refine (List.filter_congr hboth).trans ?_
    rw [← List.filter_filter, hlines]
    exact List.filter_cons_of_pos hline
  rw [hfilter, List.map_singleton]

end Lines

theorem lines_spelled {ps : List Piece} {text : List (Atom String)}
    {may : List (Atom String) → Bool} {lines : List (List (Atom String))} (h : Spelled ps text)
    (hlines : (text.splitOn (.letter '\n')).filter may = lines) :
    ((atoms ps).splitOn (.letter '\n')).filter may = lines := by
  rw [atoms_of_spelled h, hlines]

theorem listen_poolConf :
    ((atoms poolConf.pieces).splitOn (.letter '\n')).filter (mayStart "listen".toList) =
      [word "listen = " ++ hole "socket"] := by
  apply lines_spelled
  · repeat' first | apply Spelled.nil | apply Spelled.text | apply Spelled.var
  · decide

theorem log_poolConf :
    ((atoms poolConf.pieces).splitOn (.letter '\n')).filter (mayStart "error_log".toList) =
      [word "error_log = " ++ hole "error_log"] := by
  apply lines_spelled
  · repeat' first | apply Spelled.nil | apply Spelled.text | apply Spelled.var
  · decide

/-! ### Pool files -/

def poolContext (home major socket : List Char) : Context :=
  let pools := home ++ "/config/custom/php/".toList ++ major ++ "/pool.d".toList
  [("custom_pool_dir", pools),
    ("error_log", phpFpmLogDir home major ++ "/error.log".toList),
    ("socket", socket),
    ("custom_pool_glob", pools ++ "/*.conf".toList)]

section Pools

variable {home : Home} {homeStr major p s socket : List Char} {f : GeneratedFile}

theorem newline_of_toConfigPath (h : toConfigPath p = .ok s) : '\n' ∉ s :=
  fun hc => absurd (quoted_of_toConfigPath h _ hc) (by decide)

theorem newline_notMem_poolContext (hhome : '\n' ∉ homeStr) (hmajor : '\n' ∉ major)
    (hsocket : '\n' ∉ socket) :
    ∀ k ∈ ["custom_pool_dir", "error_log", "socket", "custom_pool_glob"],
      '\n' ∉ valueIn (poolContext homeStr major socket) k := by
  have hdir : '\n' ∉ homeStr ++ "/config/custom/php/".toList ++ major ++ "/pool.d".toList := by
    simp only [List.mem_append, not_or]
    exact ⟨⟨⟨hhome, by decide⟩, hmajor⟩, by decide⟩
  have hlog : '\n' ∉ phpFpmLogDir homeStr major ++ "/error.log".toList := by
    simp only [phpFpmLogDir, List.mem_append, not_or]
    exact ⟨⟨⟨hhome, by decide⟩, hmajor⟩, by decide⟩
  have hglob : '\n' ∉ homeStr ++ "/config/custom/php/".toList ++ major ++ "/pool.d".toList ++
      "/*.conf".toList := by
    rw [List.mem_append, not_or]
    exact ⟨hdir, by decide⟩
  intro k hk
  simp only [List.mem_cons, List.not_mem_nil, or_false] at hk
  rcases hk with rfl | rfl | rfl | rfl
  · exact hdir
  · exact hlog
  · exact hsocket
  · exact hglob

/-- The one line of a pool file with a key, where the major is one line. -/
theorem keyLines_generatePoolConfig [Tera] {key : List Char} {start name : String}
    (hmajor : '\n' ∉ major)
    (hlines : ((atoms poolConf.pieces).splitOn (.letter '\n')).filter (mayStart key) =
      [word start ++ hole name])
    (hstart : key <+: start.toList)
    (h : generatePoolConfig home major (.unixSocket p) = .ok (some f)) :
    ∃ homeStr socket, toConfigPath home.text = .ok homeStr ∧ toConfigPath p = .ok socket ∧
      keyLines key f.contents =
        [start.toList ++ valueIn (poolContext homeStr major socket) name] := by
  obtain ⟨homeStr, hhome, h⟩ := bind_eq_ok.mp h
  obtain ⟨socket, hsocket, h⟩ := bind_eq_ok.mp h
  obtain ⟨contents, hcontents, h⟩ := bind_eq_ok.mp h
  cases h
  refine ⟨homeStr, socket, hhome, hsocket, ?_⟩
  have hvars : ∀ v ∈ poolConf.vars,
      v ∈ ["custom_pool_dir", "error_log", "socket", "custom_pool_glob"] := by
    decide
  have hctx : contents = poolConf.substitute (poolContext homeStr major socket) :=
    substitute_of_render hvars hcontents
  have hvalues := newline_notMem_poolContext (newline_of_toConfigPath hhome) hmajor
    (newline_of_toConfigPath hsocket)
  have hline : fillWord (valueIn (poolContext homeStr major socket)) (word start ++ hole name) =
      start.toList ++ valueIn (poolContext homeStr major socket) name := by
    rw [Nginx.fillWord_append, word, Nginx.fillWord_letters, hole, Nginx.fillWord_hole]
  rw [hctx, Template.substitute, ← fillWord_atoms,
    keyLines_fillWord _ hlines _, hline]
  · exact fun k hk => hvalues k (hvars k (List.mem_filterMap.mpr ⟨_, hole_mem_atoms hk, rfl⟩))
  · rw [hline]
    exact List.isPrefixOf_iff_prefix.mpr (hstart.trans (List.prefix_append _ _))

/-- **What a pool listens on** is its socket, where the major is one line. -/
theorem listensOn_generatePoolConfig [Tera] (hmajor : '\n' ∉ major)
    (h : generatePoolConfig home major (.unixSocket p) = .ok (some f)) :
    ∃ socket, toConfigPath p = .ok socket ∧ ListensOn f socket := by
  have hkey : "listen".toList <+: "listen = ".toList := List.prefix_append _ [' ', '=', ' ']
  obtain ⟨_, socket, -, hsocket, hlines⟩ := keyLines_generatePoolConfig hmajor listen_poolConf
    hkey h
  exact ⟨socket, hsocket, hlines⟩

/-- **Where a pool logs** is in the directory of its major. -/
theorem logsTo_generatePoolConfig [Tera] (hmajor : '\n' ∉ major)
    (h : generatePoolConfig home major (.unixSocket p) = .ok (some f)) :
    ∃ homeStr, toConfigPath home.text = .ok homeStr ∧
      LogsTo f (phpFpmLogDir homeStr major ++ "/error.log".toList) := by
  have hkey : "error_log".toList <+: "error_log = ".toList := List.prefix_append _ [' ', '=', ' ']
  obtain ⟨homeStr, _, hhome, -, hlines⟩ := keyLines_generatePoolConfig hmajor log_poolConf
    hkey h
  exact ⟨homeStr, hhome, hlines⟩

end Pools

/-! ### Sockets -/

section Sockets

variable {p s t a b : List Char}

theorem toConfigPath_eq (h : toConfigPath p = .ok s) :
    s = (stripVerbatim p).map fun c => if c = '\\' then '/' else c := by
  unfold toConfigPath at h
  simp only at h
  split_ifs at h
  cases h
  rfl

/-- Only the first characters of a path decide which prefix is dropped. -/
theorem stripVerbatim_append (h : 8 ≤ p.length) :
    stripVerbatim (p ++ t) = stripVerbatim p ++ t := by
  have hpre : ∀ pre : List Char, pre.length ≤ 8 →
      pre.isPrefixOf (p ++ t) = pre.isPrefixOf p ∧
        (p ++ t).drop pre.length = p.drop pre.length ++ t := by
    intro pre hlen
    refine ⟨?_, List.drop_append_of_le_length (hlen.trans h)⟩
    rw [Bool.eq_iff_iff, List.isPrefixOf_iff_prefix, List.isPrefixOf_iff_prefix]
    refine ⟨fun hp => ?_, fun hp => hp.trans (List.prefix_append _ _)⟩
    exact List.prefix_of_prefix_length_le hp (List.prefix_append p t) (hlen.trans h)
  obtain ⟨hunc, huncDrop⟩ := hpre "\\\\?\\UNC\\".toList (by decide)
  obtain ⟨hverbatim, hverbatimDrop⟩ := hpre "\\\\?\\".toList (by decide)
  unfold stripVerbatim
  simp only [hunc, hverbatim, huncDrop, hverbatimDrop]
  split_ifs <;> simp only [List.append_assoc]

/-- **Two names in one directory are rendered apart**, where neither has a backslash. -/
theorem toConfigPath_inj (h : 8 ≤ p.length) (ha : '\\' ∉ a) (hb : '\\' ∉ b)
    (has : toConfigPath (p ++ a) = .ok s) (hbs : toConfigPath (p ++ b) = .ok s) : a = b := by
  have hslash : ∀ {c : List Char}, '\\' ∉ c →
      c.map (fun d => if d = '\\' then '/' else d) = c := by
    intro c hc
    refine (List.map_congr_left fun d hd => if_neg ?_).trans (List.map_id' c)
    rintro rfl
    exact hc hd
  have heq := (toConfigPath_eq has).symm.trans (toConfigPath_eq hbs)
  rw [stripVerbatim_append h, stripVerbatim_append h, List.map_append, List.map_append,
    hslash ha, hslash hb] at heq
  exact List.append_cancel_left heq

end Sockets

end OpenVHost.Conf
