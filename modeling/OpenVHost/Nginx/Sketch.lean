/-
# Texts with holes

A template is read before its holes are filled. A hole stands for a text whose characters do
nothing where it stands: a plain text is part of a word wherever a word could be, and a text
without quotes and backslashes is part of the quotes it stands in. Everything else the reader
refuses.

* `run_fill` — what the reader makes of a text with holes, filled, is what it makes of the
  filled text.
-/

import OpenVHost.Nginx.Reader

namespace Nginx

inductive Atom (κ : Type) where
  | letter (c : Char)
  | hole (k : κ)
  deriving DecidableEq, Repr

/-- What a hole is filled with. -/
inductive Hole where
  | plain
  | quoted
  deriving DecidableEq, Repr

/-- A character that is part of any word. -/
def isPlain (c : Char) : Bool :=
  !(isBlank c || c == ';' || c == '\x7b' || c == '\x7d' || c == '#' || c == '\\' || c == '"' ||
    c == '\'' || c == '$')

/-- A character that is part of the quotes it stands in, and of a comment. -/
def isQuotable (c : Char) : Bool := !(c == '"' || c == '\\' || c == '$' || c == '\n')

def Hole.Fits : Hole → List Char → Prop
  | plain, value => value ≠ [] ∧ ∀ c ∈ value, isPlain c = true
  | quoted, value => ∀ c ∈ value, isQuotable c = true

theorem isQuotable_of_isPlain {c : Char} (h : isPlain c = true) : isQuotable c = true := by
  simp only [isPlain, isBlank, isQuotable, Bool.not_eq_true', Bool.or_eq_false_iff] at h ⊢
  exact ⟨⟨⟨h.1.1.2, h.1.1.1.2⟩, h.2⟩, h.1.1.1.1.1.1.1.1.2⟩

theorem Hole.Fits.quotable {kind : Hole} {value : List Char} (h : kind.Fits value) :
    ∀ c ∈ value, isQuotable c = true := by
  cases kind with
  | plain => exact fun c hc => isQuotable_of_isPlain (h.2 c hc)
  | quoted => exact h

section Sketch

variable {κ : Type} (kind : κ → Hole)

/-- A step over a text with holes: a hole is one letter of the word it stands in. -/
def sketch (r : Reading (Atom κ)) : Atom κ → Stepped (Atom κ)
  | .letter c => r.step .letter c
  | .hole k =>
      match r.mode with
      | .comment => r.stay .comment
      | .blank =>
          if kind k = .plain then r.stay (.word .bare false false [.hole k]) else none
      | .word quote false dollar w =>
          if kind k = .plain ∨ (quote = .double ∧ dollar = false) then
            r.stay (.word quote false false (w ++ [.hole k]))
          else none
      | _ => none

/-! ### Filling -/

variable (values : κ → List Char)

def Atom.fill : Atom κ → List Char
  | letter c => [c]
  | hole k => values k

def fillWord (w : List (Atom κ)) : List Char := w.flatMap (Atom.fill values)

def Mode.fill : Mode (Atom κ) → Mode Char
  | blank => .blank
  | comment => .comment
  | closed => .closed
  | word quote escaped dollar w => .word quote escaped dollar (fillWord values w)

def Directive.fill (d : Directive (Atom κ)) : Directive Char :=
  ⟨d.depth, d.words.map (fillWord values), d.block⟩

def Reading.fill (r : Reading (Atom κ)) : Reading Char :=
  ⟨r.mode.fill values, r.words.map (fillWord values), r.depth⟩

/-- A step, filled. -/
def fillStep (p : Reading (Atom κ) × List (Directive (Atom κ))) :
    Reading Char × List (Directive Char) :=
  (p.1.fill values, p.2.map (Directive.fill values))

variable {values}

@[simp] theorem fillWord_nil : fillWord values [] = [] := rfl

@[simp] theorem fillWord_append (v w : List (Atom κ)) :
    fillWord values (v ++ w) = fillWord values v ++ fillWord values w := List.flatMap_append

@[simp] theorem fillWord_letters (s : List Char) : fillWord values (s.map .letter) = s := by
  induction s with
  | nil => rfl
  | cons c s ih => exact congrArg (c :: ·) ih

@[simp] theorem fillWord_letter (c : Char) : fillWord values [.letter c] = [c] := rfl

@[simp] theorem fillWord_hole (k : κ) : fillWord values [.hole k] = values k :=
  List.append_nil _

section Steps

variable (r : Reading (Atom κ))

theorem stay_fill (mode : Mode (Atom κ)) :
    (r.fill values).stay (mode.fill values) = (r.stay mode).map (fillStep values) := rfl

theorem put_fill (w : List (Atom κ)) :
    (r.fill values).put (fillWord values w) = (r.put w).fill values := by
  simp [Reading.fill, Reading.put]

theorem done_fill (block : Bool) :
    (r.fill values).done block = (r.done block).map (fillStep values) := by
  unfold Reading.done
  cases hwords : r.words with
  | nil => simp [Reading.fill, hwords]
  | cons w words => simp [Reading.fill, hwords, fillStep, Directive.fill, Mode.fill]

theorem leave_fill : (r.fill values).leave = r.leave.map (fillStep values) := by
  unfold Reading.leave
  cases hwords : r.words with
  | nil =>
      simp only [Reading.fill, hwords, List.map_nil]
      cases r.depth != 0 <;> rfl
  | cons w words => simp [Reading.fill, hwords]

theorem between_fill (c : Char) :
    (r.fill values).between id c = (r.between .letter c).map (fillStep values) := by
  unfold Reading.between
  split_ifs
  · rfl
  · exact done_fill r false
  · exact done_fill r true
  · exact leave_fill r
  all_goals rfl

theorem within_fill (quote : Quote) (w : List (Atom κ)) (c : Char) :
    (r.fill values).within id quote (fillWord values w) c =
      (r.within .letter quote w c).map (fillStep values) := by
  have hmore : (r.fill values).stay (.word quote false false (fillWord values w ++ [c])) =
      (r.stay (.word quote false false (w ++ [.letter c]))).map (fillStep values) := by
    rw [← stay_fill, Mode.fill, fillWord_append, fillWord_letter]
  unfold Reading.within
  cases quote with
  | bare =>
      simp only [put_fill]
      split_ifs
      · rfl
      · exact done_fill _ false
      · exact done_fill _ true
      · exact hmore
  | single =>
      simp only [put_fill]
      split_ifs
      · rfl
      · exact hmore
  | double =>
      simp only [put_fill]
      split_ifs
      · rfl
      · exact hmore

/-- A character does the same with the holes filled. -/
theorem step_fill (c : Char) :
    (r.fill values).step id c = (r.step .letter c).map (fillStep values) := by
  obtain ⟨mode, words, depth⟩ := r
  cases mode with
  | blank => exact between_fill _ c
  | comment =>
      simp only [Reading.step, Reading.fill, Mode.fill]
      split_ifs <;> rfl
  | closed =>
      simp only [Reading.step, Reading.fill, Mode.fill]
      split_ifs
      · rfl
      · exact done_fill ⟨.closed, words, depth⟩ false
      · exact done_fill ⟨.closed, words, depth⟩ true
      · rfl
      · rfl
  | word quote escaped dollar w =>
      simp only [Reading.step, Reading.fill, Mode.fill]
      split_ifs
      · simp [Reading.stay, fillStep, Reading.fill, Mode.fill]
      · simp [Reading.stay, fillStep, Reading.fill, Mode.fill]
      · rfl
      · simp [Reading.stay, fillStep, Reading.fill, Mode.fill]
      · exact within_fill ⟨.word quote escaped dollar w, words, depth⟩ quote w c

end Steps

/-! ### Holes -/

section Holes

variable {r : Reading Char} {words : List (List Char)} {depth : Nat} {value w : List Char}

/-- A plain text goes on with the word it stands in. -/
theorem run_word_plain {quote : Quote} {dollar : Bool} (hne : value ≠ [])
    (h : ∀ c ∈ value, isPlain c = true) :
    run (Reading.step id) ⟨.word quote false dollar w, words, depth⟩ value =
      some (⟨.word quote false false (w ++ value), words, depth⟩, []) := by
  have hstep : ∀ {c} dollar w, isPlain c = true →
      Reading.step id ⟨.word quote false dollar w, words, depth⟩ c =
        some (⟨.word quote false false (w ++ [c]), words, depth⟩, []) := by
    intro c dollar w hc
    simp only [isPlain, Bool.not_eq_true', Bool.or_eq_false_iff, beq_eq_false_iff_ne] at hc
    obtain ⟨⟨⟨⟨⟨⟨⟨⟨hblank, hsemi⟩, hopen⟩, -⟩, -⟩, hslash⟩, hdouble⟩, hsingle⟩, hdollar⟩ := hc
    cases quote <;>
      simp [Reading.step, Reading.within, Reading.stay, hblank, hsemi, hopen, hslash, hdouble,
        hsingle, hdollar]
  induction value generalizing dollar w with
  | nil => exact absurd rfl hne
  | cons c value ih =>
      have hc := hstep dollar w (h c List.mem_cons_self)
      cases value with
      | nil => exact run_cons hc rfl
      | cons d value =>
          have hrest := @ih (w ++ [c]) false (List.cons_ne_nil d value)
            fun e he => h e (List.mem_cons_of_mem _ he)
          rw [List.append_assoc] at hrest
          exact run_cons hc hrest

/-- Where a word could start, a plain text starts one. -/
theorem run_blank_plain (hne : value ≠ []) (h : ∀ c ∈ value, isPlain c = true) :
    run (Reading.step id) ⟨.blank, words, depth⟩ value =
      some (⟨.word .bare false false value, words, depth⟩, []) := by
  cases value with
  | nil => exact absurd rfl hne
  | cons c value =>
      have hc := h c List.mem_cons_self
      simp only [isPlain, Bool.not_eq_true', Bool.or_eq_false_iff, beq_eq_false_iff_ne] at hc
      obtain ⟨⟨⟨⟨⟨⟨⟨⟨hblank, hsemi⟩, hopen⟩, hclose⟩, hsharp⟩, hslash⟩, hdouble⟩, hsingle⟩, hdollar⟩ := hc
      have hstep : Reading.step id ⟨.blank, words, depth⟩ c =
          some (⟨.word .bare false false [c], words, depth⟩, []) := by
        simp [Reading.step, Reading.between, Reading.stay, hblank, hsemi, hopen, hclose, hsharp,
          hslash, hdouble, hsingle, hdollar]
      cases value with
      | nil => exact run_cons hstep rfl
      | cons d value =>
          exact run_cons hstep (run_word_plain (List.cons_ne_nil d value)
            fun e he => h e (List.mem_cons_of_mem _ he))

/-- Within quotes, a text without them is part of the word. -/
theorem run_quotes (h : ∀ c ∈ value, isQuotable c = true) :
    run (Reading.step id) ⟨.word .double false false w, words, depth⟩ value =
      some (⟨.word .double false false (w ++ value), words, depth⟩, []) := by
  induction value generalizing w with
  | nil => simp [run]
  | cons c value ih =>
      have hc := h c List.mem_cons_self
      simp only [isQuotable, Bool.not_eq_true', Bool.or_eq_false_iff, beq_eq_false_iff_ne] at hc
      obtain ⟨⟨⟨hdouble, hslash⟩, hdollar⟩, -⟩ := hc
      have hstep : Reading.step id ⟨.word .double false false w, words, depth⟩ c =
          some (⟨.word .double false false (w ++ [c]), words, depth⟩, []) := by
        simp [Reading.step, Reading.within, Reading.stay, hslash, hdouble, hdollar]
      have hrest := ih (w := w ++ [c]) fun e he => h e (List.mem_cons_of_mem _ he)
      rw [List.append_assoc] at hrest
      exact run_cons hstep hrest

/-- A comment goes on to the end of its line. -/
theorem run_comment (h : ∀ c ∈ value, isQuotable c = true) :
    run (Reading.step id) ⟨.comment, words, depth⟩ value =
      some (⟨.comment, words, depth⟩, []) := by
  induction value with
  | nil => rfl
  | cons c value ih =>
      have hc := h c List.mem_cons_self
      simp only [isQuotable, Bool.not_eq_true', Bool.or_eq_false_iff, beq_eq_false_iff_ne] at hc
      have hstep : Reading.step id ⟨.comment, words, depth⟩ c =
          some (⟨.comment, words, depth⟩, []) := by
        simp [Reading.step, Reading.stay, hc.2]
      exact run_cons hstep (ih fun e he => h e (List.mem_cons_of_mem _ he))

end Holes

theorem run_hole {kind : κ → Hole} {r r' : Reading (Atom κ)} {k : κ}
    {ds : List (Directive (Atom κ))} (hfit : (kind k).Fits (values k))
    (h : sketch kind r (.hole k) = some (r', ds)) :
    run (Reading.step id) (r.fill values) (values k) = some (fillStep values (r', ds)) := by
  obtain ⟨mode, words, depth⟩ := r
  cases mode with
  | comment =>
      cases h
      exact run_comment hfit.quotable
  | blank =>
      simp only [sketch] at h
      split_ifs at h with hk
      cases h
      rw [hk] at hfit
      rw [show fillStep values _ = (_, _) from rfl]
      have hrun : run (Reading.step id) ⟨.blank, words.map (fillWord values), depth⟩ (values k) =
          some (⟨.word .bare false false (values k), words.map (fillWord values), depth⟩, []) :=
        run_blank_plain hfit.1 hfit.2
      simpa [Reading.fill, Mode.fill] using hrun
  | closed => cases h
  | word quote escaped dollar w =>
      cases escaped with
      | true => cases h
      | false =>
          simp only [sketch] at h
          split_ifs at h with hk
          cases h
          have hgoal : fillStep values (⟨.word quote false false (w ++ [.hole k]), words, depth⟩, []) =
              (⟨.word quote false false (fillWord values w ++ values k),
                words.map (fillWord values), depth⟩, []) := by
            simp [fillStep, Reading.fill, Mode.fill]
          rw [hgoal]
          rcases hk with hk | ⟨rfl, rfl⟩
          · rw [hk] at hfit
            exact run_word_plain hfit.1 hfit.2
          · exact run_quotes hfit.quotable

/-- **A text with holes, filled**: what fits its hole changes nothing of how a text is read. -/
theorem run_fill {kind : κ → Hole} {text : List (Atom κ)} {r r' : Reading (Atom κ)}
    {ds : List (Directive (Atom κ))} (hfit : ∀ k, .hole k ∈ text → (kind k).Fits (values k))
    (h : run (sketch kind) r text = some (r', ds)) :
    run (Reading.step id) (r.fill values) (fillWord values text) =
      some (fillStep values (r', ds)) := by
  induction text generalizing r ds with
  | nil =>
      cases h
      rfl
  | cons a text ih =>
      obtain ⟨s, first, rest, hstep, hrest, rfl⟩ := run_cons_inv h
      have hfirst : run (Reading.step id) (r.fill values) (a.fill values) =
          some (fillStep values (s, first)) := by
        cases a with
        | letter c =>
            have hc : (r.fill values).step id c = some (fillStep values (s, first)) := by
              rw [step_fill, show r.step .letter c = some (s, first) from hstep]
              rfl
            have hnil : run (Reading.step id) (s.fill values) [] = some (s.fill values, []) := rfl
            have := run_cons hc hnil
            rwa [List.append_nil] at this
        | hole k => exact run_hole (hfit k List.mem_cons_self) hstep
      have hmore := run_append hfirst (ih (fun k hk => hfit k (List.mem_cons_of_mem _ hk)) hrest)
      rw [← List.map_append] at hmore
      exact hmore

end Sketch

/-! ### Words in a row -/

section Words

variable {words ts : List (List Char)} {depth : Nat}

/-- Plain words up to the end of a directive are its parameters. -/
theorem run_words (hwords : words ≠ []) (hne : ts ≠ [])
    (h : ∀ t ∈ ts, Hole.plain.Fits t) :
    run (Reading.step id) ⟨.blank, words, depth⟩ ([' '].intercalate ts ++ [';']) =
      some (⟨.blank, [], depth⟩, [⟨depth, words ++ ts, false⟩]) := by
  induction ts generalizing words with
  | nil => exact absurd rfl hne
  | cons t ts ih =>
      have ht := h t List.mem_cons_self
      have hword : run (Reading.step id) ⟨.blank, words, depth⟩ t =
          some (⟨.word .bare false false t, words, depth⟩, []) := run_blank_plain ht.1 ht.2
      cases ts with
      | nil =>
          have hend : run (Reading.step id) ⟨.word .bare false false t, words, depth⟩ [';'] =
              some (⟨.blank, [], depth⟩, [⟨depth, words ++ [t], false⟩]) := by
            simp [run, Reading.step, Reading.within, Reading.put, Reading.done, isBlank]
          simpa using run_append hword hend
      | cons u ts =>
          have hblank : Reading.step id ⟨.word .bare false false t, words, depth⟩ ' ' =
              some (⟨.blank, words ++ [t], depth⟩, []) := by
            simp [Reading.step, Reading.within, Reading.put, Reading.stay, isBlank]
          have hnext : words ++ [t] ≠ [] := by simp
          have hrest := ih hnext (List.cons_ne_nil u ts) fun v hv => h v (List.mem_cons_of_mem _ hv)
          have := run_append hword (run_cons hblank hrest)
          simpa [List.append_assoc] using this

end Words

/-! ### What a filled text says -/

section Filled

variable {κ : Type} {values other : κ → List Char} {ds : List (Directive (Atom κ))}

def Atom.isLetter : Atom κ → Bool
  | letter _ => true
  | hole _ => false

/-- A word of a text with holes. -/
def word (s : String) : List (Atom κ) := s.toList.map .letter

theorem fillWord_of_letters {w : List (Atom κ)} (h : w.all Atom.isLetter = true) :
    ∃ s : List Char, w = s.map .letter := by
  induction w with
  | nil => exact ⟨[], rfl⟩
  | cons a w ih =>
      rw [List.all_cons, Bool.and_eq_true] at h
      obtain ⟨s, rfl⟩ := ih h.2
      cases a with
      | letter c => exact ⟨c :: s, rfl⟩
      | hole k => cases h.1

theorem letters_injective : Function.Injective (List.map (Atom.letter (κ := κ))) :=
  List.map_injective_iff.mpr fun _ _ h => by cases h; rfl

/-- No name has a hole in it. -/
def Named (ds : List (Directive (Atom κ))) : Prop :=
  ∀ d ∈ ds, d.name.all Atom.isLetter = true

instance (ds : List (Directive (Atom κ))) : Decidable (Named ds) :=
  inferInstanceAs (Decidable (∀ d ∈ ds, d.name.all Atom.isLetter = true))

theorem fill_name (d : Directive (Atom κ)) : (d.fill values).name = fillWord values d.name := by
  unfold Directive.name Directive.fill
  cases d.words <;> rfl

theorem fill_params (d : Directive (Atom κ)) :
    (d.fill values).params = d.params.map (fillWord values) := by
  unfold Directive.params Directive.fill
  cases d.words <;> rfl

/-- **The shape of a filled text is the template's.** -/
theorem shape_fill (h : Named ds) :
    (ds.map (Directive.fill values)).map Directive.shape =
      (ds.map (Directive.fill other)).map Directive.shape := by
  rw [List.map_map, List.map_map]
  refine List.map_congr_left fun d hd => ?_
  obtain ⟨s, hs⟩ := fillWord_of_letters (h d hd)
  show (d.fill values).shape = (d.fill other).shape
  simp only [Directive.shape, fill_name, fill_params, hs, fillWord_letters, List.length_map]
  rfl

def Atom.hole? : Atom κ → Option κ
  | letter _ => none
  | hole k => some k

/-- The holes of a text's directives. -/
def holesIn (ds : List (Directive (Atom κ))) : List κ :=
  ds.flatMap fun d => d.words.flatten.filterMap Atom.hole?

theorem mem_holesIn {d : Directive (Atom κ)} {w : List (Atom κ)} {k : κ} (hd : d ∈ ds)
    (hw : w ∈ d.words) (hk : .hole k ∈ w) : k ∈ holesIn ds :=
  List.mem_flatMap.mpr ⟨d, hd, List.mem_filterMap.mpr
    ⟨.hole k, List.mem_flatten.mpr ⟨w, hw, hk⟩, rfl⟩⟩

theorem fillWord_congr {w : List (Atom κ)} (h : ∀ k, .hole k ∈ w → values k = other k) :
    fillWord values w = fillWord other w := by
  refine List.flatMap_congr fun a ha => ?_
  cases a with
  | letter c => rfl
  | hole k => exact h k ha

/-- Only the values of the holes matter. -/
theorem fill_congr (h : ∀ k ∈ holesIn ds, values k = other k) :
    ds.map (Directive.fill values) = ds.map (Directive.fill other) := by
  refine List.map_congr_left fun d hd => ?_
  have hwords : d.words.map (fillWord values) = d.words.map (fillWord other) :=
    List.map_congr_left fun w hw =>
      fillWord_congr fun k hk => h k (mem_holesIn hd hw hk)
  unfold Directive.fill
  rw [hwords]

/-- A `$` comes from the template. -/
theorem dollar_fillWord {w : List (Atom κ)} (h : ∀ k, .hole k ∈ w → '$' ∉ values k) :
    '$' ∈ fillWord values w ↔ .letter '$' ∈ w := by
  rw [fillWord, List.mem_flatMap]
  constructor
  · rintro ⟨a, ha, hc⟩
    cases a with
    | letter c => exact List.mem_singleton.mp hc ▸ ha
    | hole k => exact absurd hc (h k ha)
  · exact fun hw => ⟨_, hw, List.mem_singleton.mpr rfl⟩

variable [DecidableEq κ]

/-- The parameters of the directives of a name, before the holes are filled. -/
def sketchParams (name : String) (ds : List (Directive (Atom κ))) :
    List (List (List (Atom κ))) :=
  (ds.filter fun d => d.name = word name).map Directive.params

theorem paramsOf_fill (name : String) (h : Named ds) :
    paramsOf name.toList (ds.map (Directive.fill values)) =
      (sketchParams name ds).map (List.map (fillWord values)) := by
  induction ds with
  | nil => rfl
  | cons d ds ih =>
      have ih := ih fun e he => h e (List.mem_cons_of_mem _ he)
      obtain ⟨s, hs⟩ := fillWord_of_letters (h d List.mem_cons_self)
      have hname : (d.fill values).name = name.toList ↔ d.name = word name := by
        rw [fill_name, hs, fillWord_letters, word]
        exact letters_injective.eq_iff.symm
      unfold paramsOf sketchParams at ih ⊢
      rw [List.map_cons, List.filter_cons, List.filter_cons]
      by_cases hd : d.name = word name
      · rw [if_pos (decide_eq_true (hname.mpr hd)), if_pos (decide_eq_true hd), List.map_cons,
          List.map_cons, List.map_cons, fill_params, ih]
      · rw [if_neg (by simpa using fun e => hd (hname.mp e)), if_neg (by simpa using hd), ih]

/-- The parameters a variable may be in, before the holes are filled. -/
def sketchDollars (ds : List (Directive (Atom κ))) : List (List (Atom κ)) :=
  (ds.flatMap Directive.params).filter fun w => .letter '$' ∈ w

/-- **The parameters a variable may be in are the template's.** -/
theorem dollars_fill (h : ∀ k ∈ holesIn ds, '$' ∉ values k)
    (hletters : ∀ w ∈ sketchDollars ds, w.all Atom.isLetter = true) :
    dollars (ds.map (Directive.fill values)) = (sketchDollars ds).map (fillWord other) := by
  have hparams : (ds.map (Directive.fill values)).flatMap Directive.params =
      (ds.flatMap Directive.params).map (fillWord values) := by
    rw [List.flatMap_map, List.map_flatMap]
    exact List.flatMap_congr fun d _ => fill_params d
  have hdollar : ∀ w ∈ ds.flatMap Directive.params,
      ('$' ∈ fillWord values w ↔ .letter '$' ∈ w) := by
    intro w hw
    obtain ⟨d, hd, hw⟩ := List.mem_flatMap.mp hw
    exact dollar_fillWord fun k hk => h k (mem_holesIn hd (List.mem_of_mem_tail hw) hk)
  have hfilter : (ds.flatMap Directive.params).filter (fun w => '$' ∈ fillWord values w) =
      sketchDollars ds := by
    refine List.filter_congr fun w hw => ?_
    simp only [hdollar w hw]
  rw [dollars, hparams, List.filter_map]
  show List.map _ ((ds.flatMap Directive.params).filter (fun w => '$' ∈ fillWord values w)) = _
  rw [hfilter]
  refine List.map_congr_left fun w hw => ?_
  obtain ⟨s, rfl⟩ := fillWord_of_letters (hletters w hw)
  rw [fillWord_letters, fillWord_letters]

end Filled

/-! ### Lines -/

section Lines

variable {κ : Type} [DecidableEq κ] {values : κ → List Char} {text : List (Atom κ)}

theorem splitOn_append_left {s t : List Char} (h : '\n' ∉ s) :
    (s ++ t).splitOn '\n' = (t.splitOn '\n').modifyHead (s ++ ·) := by
  induction s with
  | nil =>
      rw [List.nil_append]
      cases t.splitOn '\n' <;> rfl
  | cons c s ih =>
      obtain ⟨hc, hs⟩ := not_or.mp (mt List.mem_cons.mpr h)
      have ih := ih hs
      rw [List.splitOn_eq_splitOnP] at ih ⊢
      rw [List.cons_append, List.splitOnP_cons_eq_if_modifyHead,
        if_neg (by simpa using fun e => hc e.symm), ih, List.splitOn_eq_splitOnP,
        List.modifyHead_modifyHead]
      rfl

/-- **The lines of a filled text** are the filled lines, where no value has more than one. -/
theorem lines_fillWord (h : ∀ k, .hole k ∈ text → '\n' ∉ values k) :
    (fillWord values text).splitOn '\n' =
      (text.splitOn (.letter '\n')).map (fillWord values) := by
  have hhead : ∀ {ls : List (List (Atom κ))} {s : List Char} {a : Atom κ}, a.fill values = s →
      (ls.map (fillWord values)).modifyHead (s ++ ·) =
        (ls.modifyHead (a :: ·)).map (fillWord values) := by
    rintro ls s a rfl
    cases ls <;> rfl
  induction text with
  | nil => rfl
  | cons a text ih =>
      have ih := ih fun k hk => h k (List.mem_cons_of_mem _ hk)
      rw [@List.splitOn_eq_splitOnP (Atom κ), List.splitOnP_cons_eq_if_modifyHead,
        ← List.splitOn_eq_splitOnP]
      by_cases ha : a = .letter '\n'
      · subst ha
        rw [if_pos (by simp), List.map_cons, ← ih]
        rfl
      · have hvalue : '\n' ∉ a.fill values := by
          cases a with
          | letter c =>
              intro hc
              rw [List.mem_singleton.mp hc] at ha
              exact ha rfl
          | hole k => exact h k List.mem_cons_self
        rw [if_neg (by simpa using ha), ← hhead rfl, ← ih, ← splitOn_append_left hvalue]
        rfl

end Lines

end Nginx
