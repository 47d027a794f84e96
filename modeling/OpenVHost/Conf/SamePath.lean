/-
# Two spellings of one path

Paths are compared by their components, so that a doubled slash or a `.` on the way makes no
difference between two texts.

* `components_append_slash` — a path in two parts has the components of both.
* `SamePath` — the texts of one path.
* `samePath_joinText` — a text put behind a slash is the same path as the text joined.
* `Joined` — names that are joined one after another, as one text.
-/

import OpenVHost.Conf.Render

namespace OpenVHost.Conf

open FileTree

section Components

variable {p s t : List Char} {c : Char} {n : Name}

theorem splitPath_append (s t : List Char) :
    splitPath (s ++ '/' :: t) = splitPath s ++ splitPath t :=
  List.splitOn_append_cons_self s t

/-- **A path in two parts has the components of both.** -/
theorem components_append_slash (s t : List Char) :
    components (s ++ '/' :: t) = components s ++ components t := by
  rw [components, splitPath_append, List.filter_append]
  rfl

theorem components_nil : components [] = [] := by
  rw [components, splitPath, List.splitOn_nil]
  rfl

theorem components_oneName (h : OneName n) : components n = [n] := by
  obtain ⟨hne, hdot, -⟩ := special_eq_false.mp h.2
  rw [components, splitPath, List.splitOn_eq_singleton h.1]
  simp [hne, hdot]

/-- A character that is no part of the notation is in one of the components. -/
theorem mem_components (hslash : c ≠ '/') (hdot : c ≠ '.') (hc : c ∈ s) :
    ∃ n ∈ components s, c ∈ n := by
  obtain ⟨n, hn, hcn⟩ : ∃ n ∈ splitPath s, c ∈ n := Text.mem_splitOn hslash hc
  refine ⟨n, List.mem_filter.mpr ⟨hn, ?_⟩, hcn⟩
  have hne : n ≠ [] := List.ne_nil_of_mem hcn
  have hnedot : n ≠ ['.'] := by
    rintro rfl
    exact hdot (List.mem_singleton.mp hcn)
  simp [hne, hnedot]

theorem mem_of_mem_components (hn : n ∈ components s) (hc : c ∈ n) : c ∈ s :=
  Text.mem_of_mem_splitOn (List.mem_of_mem_filter hn) hc

end Components

/-- The path starts with `.`, the one place where `Path::components` keeps it. -/
def startsAtCurDir (s : List Char) : Bool := (splitPath s).head? == some ['.']

/-- `==` on `Path`: the same components, starting from the same place. -/
structure SamePath (a b : List Char) : Prop where
  absolute : isAbsolute a = isAbsolute b
  curDir : startsAtCurDir a = startsAtCurDir b
  components : components a = components b

section SamePath

variable {a b c p s t : List Char}

theorem SamePath.refl (a : List Char) : SamePath a a := ⟨rfl, rfl, rfl⟩

/-- A slash that is doubled makes no difference. -/
theorem samePath_double_slash (p s : List Char) :
    SamePath (p ++ '/' :: '/' :: s) (p ++ '/' :: s) := by
  refine ⟨?_, ?_, ?_⟩
  · cases p with
    | nil => rfl
    | cons c p => rfl
  · have hhead : ∀ t, startsAtCurDir (p ++ '/' :: t) = startsAtCurDir p := by
      intro t
      obtain ⟨first, rest, heq⟩ : ∃ first rest, splitPath p = first :: rest :=
        List.exists_cons_of_ne_nil (List.splitOn_ne_nil '/' p)
      rw [startsAtCurDir, splitPath_append, startsAtCurDir, heq]
      rfl
    rw [hhead, hhead]
  · have hslash : components ('/' :: s) = components s := by
      have := components_append_slash [] s
      rwa [components_nil] at this
    rw [components_append_slash, hslash, components_append_slash]

/-- **Behind a slash or joined**, a relative text is the same path below another. -/
theorem samePath_joinText (hp : p ≠ []) (hs : isAbsolute s = false) :
    SamePath (p ++ '/' :: s) (joinText p s) := by
  unfold joinText
  rw [hs, if_neg Bool.false_ne_true]
  split
  next hlast =>
    have hslash : p.getLast? = some '/' := by simpa [hp] using hlast
    obtain ⟨q, rfl⟩ := List.getLast?_eq_some_iff.mp hslash
    rw [List.append_assoc, List.append_assoc]
    exact samePath_double_slash q s
  next => exact .refl _

theorem joinText_append (hs : s ≠ []) : joinText p (s ++ t) = joinText p s ++ t := by
  have habs : isAbsolute (s ++ t) = isAbsolute s := by
    obtain ⟨c, s, rfl⟩ := List.exists_cons_of_ne_nil hs
    rfl
  unfold joinText
  rw [habs]
  split_ifs <;> simp only [List.append_assoc, List.cons_append]

theorem components_joinText (hs : isAbsolute s = false) :
    components (joinText p s) = components p ++ components s := by
  by_cases hp : p = []
  · subst hp
    rw [joinText, hs, components_nil]
    rfl
  · rw [← (samePath_joinText hp hs).components, components_append_slash]

end SamePath

/-! ### Names joined one after another -/

section Joined

variable {p s t : List Char} {n : Name}

theorem isAbsolute_oneName (h : OneName n) : isAbsolute n = false := by
  cases n with
  | nil => rfl
  | cons c n =>
      have hc : c ≠ '/' := by
        rintro rfl
        exact h.1 List.mem_cons_self
      simp [isAbsolute, hc]

/-- Joining one name adds it to the components. -/
theorem components_join (h : OneName n) (p : List Char) :
    components (joinText p n) = components p ++ [n] := by
  rw [components_joinText (isAbsolute_oneName h), components_oneName h]

/-- `t` is what joining the names of `s` to `p` one after another gives. -/
structure Joined (p s t : List Char) : Prop where
  eq : t = joinText p s
  ne_nil : s ≠ []
  last : s.getLast? ≠ some '/'
  relative : isAbsolute s = false

namespace Joined

theorem last_oneName (h : OneName n) : n.getLast? ≠ some '/' :=
  fun hlast => h.1 (List.mem_of_getLast? hlast)

theorem name (h : OneName n) (p : List Char) : Joined p n (joinText p n) :=
  ⟨rfl, (special_eq_false.mp h.2).1, last_oneName h, isAbsolute_oneName h⟩

/-- What is joined does not end in a slash. -/
theorem last_joinText (h : Joined p s t) : t ≠ [] ∧ t.getLast? ≠ some '/' := by
  rw [h.eq, joinText]
  split_ifs
  · exact ⟨h.ne_nil, h.last⟩
  · refine ⟨by simp [h.ne_nil], ?_⟩
    rw [List.getLast?_append_of_ne_nil _ h.ne_nil]
    exact h.last
  · refine ⟨by simp, ?_⟩
    rw [List.getLast?_append_of_ne_nil _ (by simp), List.getLast?_cons_of_ne_nil h.ne_nil]
    exact h.last

/-- One name more. -/
theorem join (h : Joined p s t) (hn : OneName n) : Joined p (s ++ '/' :: n) (joinText t n) := by
  have habs : isAbsolute (s ++ '/' :: n) = false := by
    obtain ⟨c, s', rfl⟩ := List.exists_cons_of_ne_nil h.ne_nil
    exact h.relative
  constructor
  · obtain ⟨hne, hlast⟩ := h.last_joinText
    have hjoin : joinText t n = t ++ '/' :: n := by
      rw [joinText, isAbsolute_oneName hn, if_neg Bool.false_ne_true, if_neg]
      simpa using ⟨hne, hlast⟩
    rw [hjoin, h.eq, joinText_append h.ne_nil]
  · simp
  · have hne := (special_eq_false.mp hn.2).1
    rw [List.getLast?_append_of_ne_nil _ (by simp), List.getLast?_cons_of_ne_nil hne]
    exact last_oneName hn
  · exact habs

end Joined

end Joined

end OpenVHost.Conf
