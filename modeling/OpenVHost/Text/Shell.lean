/-
# A fragment of the shell's language

A command is a keyword and one word, a word is plain characters and double quotes. Between the
quotes a backslash, a dollar sign and the closing quote keep a meaning, and every other character
stands for itself. A line with anything else in it is no command here.

* `Reads` — how a word is read, one character after the other, and how readings compose.
* `Reads.escape` — a text with its special characters escaped stands for itself.
* `Command.run` — what `export NAME=word` and `printf %s word` do to the variables.
* `run_front`, `runAll_front` — the line that puts a text before what a variable has.
-/

import Mathlib.Logic.Function.Basic
import Mathlib.Data.List.Basic

namespace Text.Shell

/-! ### Words -/

/-- The variables that are set. -/
abbrev Variables := List Char → Option (List Char)

/-- A piece of a word. -/
inductive Part where
  | char (c : Char)
  | parameter (name : List Char)
  deriving DecidableEq, Repr

/-- What a word becomes. A variable that is not set is empty, and what a variable has is not read
again. -/
def expand (vars : Variables) (w : List Part) : List Char :=
  w.flatMap fun
    | .char c => [c]
    | .parameter name => (vars name).getD []

section Expand

variable (vars : Variables)

@[simp] theorem expand_append (w w' : List Part) :
    expand vars (w ++ w') = expand vars w ++ expand vars w' := List.flatMap_append

@[simp] theorem expand_chars (s : List Char) : expand vars (s.map .char) = s := by
  induction s with
  | nil => rfl
  | cons c s ih => exact congrArg (c :: ·) ih

@[simp] theorem expand_char (c : Char) : expand vars [.char c] = [c] := rfl

@[simp] theorem expand_parameter (name : List Char) :
    expand vars [.parameter name] = (vars name).getD [] := List.append_nil _

end Expand

def isNameStart (c : Char) : Bool := c.isAlpha || c == '_'

def isNameChar (c : Char) : Bool := c.isAlphanum || c == '_'

/-- The characters that mean something between double quotes. -/
def isSpecial (c : Char) : Bool := c == '"' || c == '\\' || c == '$' || c == '\x60'

/-- The characters that stand for themselves outside quotes, wherever they are in a word. -/
def isPlain (c : Char) : Bool :=
  c.isAlphanum || c == '_' || c == '/' || c == '.' || c == ',' || c == '-' || c == '+' ||
    c == ':' || c == '@' || c == '%'

/-- Where in a word a reader is. -/
inductive Mode where
  | bare
  | quoted
  /-- After a backslash between quotes. -/
  | escaped
  /-- After a dollar sign between quotes. -/
  | dollar
  | name (n : List Char)
  deriving DecidableEq, Repr

/-- A character between double quotes. A backquote would run a command. -/
def quotedStep (c : Char) : Option (List Part × Mode) :=
  if c == '"' then some ([], .bare)
  else if c == '\\' then some ([], .escaped)
  else if c == '$' then some ([], .dollar)
  else if c == '\x60' then none
  else some ([.char c], .quoted)

def step : Mode → Char → Option (List Part × Mode)
  | .bare, c =>
      if c == '"' then some ([], .quoted)
      else if isPlain c then some ([.char c], .bare)
      else none
  | .quoted, c => quotedStep c
  | .escaped, c =>
      if c == '\n' then some ([], .quoted)
      else if isSpecial c then some ([.char c], .quoted)
      else some ([.char '\\', .char c], .quoted)
  | .dollar, c => if isNameStart c then some ([], .name [c]) else none
  | .name n, c =>
      if isNameChar c then some ([], .name (n ++ [c]))
      else (quotedStep c).map fun (w, mode) => (.parameter n :: w, mode)

def read : Mode → List Char → Option (List Part × Mode)
  | mode, [] => some ([], mode)
  | mode, c :: rest =>
      (step mode c).bind fun (w, mode) => (read mode rest).map fun (w', mode) => (w ++ w', mode)

/-- The word that a text is. -/
def word (s : List Char) : Option (List Part) :=
  (read .bare s).bind fun (w, mode) => if mode = .bare then some w else none

/-! ### Readings -/

/-- From one place in a word to another, and the pieces on the way. -/
def Reads (mode : Mode) (s : List Char) (w : List Part) (mode' : Mode) : Prop :=
  read mode s = some (w, mode')

namespace Reads

variable {mode mode' mode'' : Mode} {s s' : List Char} {w w' : List Part} {c : Char}

theorem nil (mode : Mode) : Reads mode [] [] mode := rfl

theorem cons (h : step mode c = some (w, mode')) (h' : Reads mode' s w' mode'') :
    Reads mode (c :: s) (w ++ w') mode'' := by
  rw [Reads, read, h, Option.bind_some]
  exact congrArg (Option.map fun x => (w ++ x.1, x.2)) h'

theorem one (h : step mode c = some (w, mode')) : Reads mode [c] w mode' := by
  have := cons h (nil mode')
  rwa [List.append_nil] at this

/-- **Readings compose.** -/
theorem append (h : Reads mode s w mode') (h' : Reads mode' s' w' mode'') :
    Reads mode (s ++ s') (w ++ w') mode'' := by
  induction s generalizing mode w with
  | nil =>
      obtain ⟨rfl, rfl⟩ := Prod.mk.inj (Option.some.inj h)
      exact h'
  | cons c s ih =>
      rw [Reads, read, Option.bind_eq_some_iff] at h
      obtain ⟨⟨w₁, mode₁⟩, hstep, hrest⟩ := h
      obtain ⟨⟨w₂, mode₂⟩, hread, hw⟩ := Option.map_eq_some_iff.mp hrest
      obtain ⟨rfl, rfl⟩ := Prod.mk.inj hw
      have hcomposed := cons hstep (ih hread)
      rwa [← List.append_assoc] at hcomposed

theorem word (h : Reads .bare s w .bare) : word s = some w := by
  rw [Shell.word, h, Option.bind_some]
  exact if_pos rfl

/-- A character that stands for itself between quotes. -/
theorem literal (hc : isSpecial c = false) : Reads .quoted [c] [.char c] .quoted := by
  apply one
  obtain ⟨⟨⟨hquote, hslash⟩, hdollar⟩, hback⟩ : ((c ≠ '"' ∧ c ≠ '\\') ∧ c ≠ '$') ∧ c ≠ '\x60' := by
    simpa [isSpecial] using hc
  simp [step, quotedStep, hquote, hslash, hdollar, hback]

/-- A character after a backslash. -/
theorem escaped (hc : isSpecial c = true) : Reads .quoted ['\\', c] [.char c] .quoted := by
  have hslash : Reads .quoted ['\\'] [] .escaped := rfl
  have hnewline : (c == '\n') = false := by
    rw [beq_eq_false_iff_ne]
    rintro rfl
    exact absurd hc (by decide)
  apply hslash.append
  apply one
  simp only [step, hnewline, hc, if_true]
  rfl

end Reads

/-- A text with a backslash before its special characters. -/
def escape (s : List Char) : List Char :=
  s.flatMap fun c => if isSpecial c then ['\\', c] else [c]

/-- **An escaped text stands for itself.** -/
theorem Reads.escape (s : List Char) : Reads .quoted (escape s) (s.map .char) .quoted := by
  induction s with
  | nil => exact Reads.nil .quoted
  | cons c s ih =>
      have hc : Reads .quoted (if isSpecial c then ['\\', c] else [c]) [.char c] .quoted := by
        cases h : isSpecial c with
        | true => exact Reads.escaped h
        | false => exact Reads.literal h
      exact hc.append ih

/-! ### Names -/

/-- A name that a variable can have. -/
def isName : List Char → Bool
  | [] => false
  | c :: rest => isNameStart c && rest.all isNameChar

theorem Reads.name {n s : List Char} (hs : s.all isNameChar = true) :
    Reads (.name n) s [] (.name (n ++ s)) := by
  induction s generalizing n with
  | nil =>
      rw [List.append_nil]
      exact Reads.nil _
  | cons c s ih =>
      rw [List.all_cons, Bool.and_eq_true] at hs
      have hstep : step (.name n) c = some ([], .name (n ++ [c])) := if_pos hs.1
      have hrest := ih (n := n ++ [c]) hs.2
      rw [List.append_assoc] at hrest
      exact Reads.cons hstep hrest

/-- A variable that ends the quotes. -/
theorem Reads.parameter {n : List Char} (hn : isName n = true) :
    Reads .quoted ('$' :: n ++ ['"']) [.parameter n] .bare := by
  obtain _ | ⟨c, n⟩ := n
  · cases hn
  · obtain ⟨hc, hrest⟩ := Bool.and_eq_true_iff.mp hn
    have hdollar : Reads .quoted ['$'] [] .dollar := rfl
    have hstart : Reads .dollar [c] [] (.name [c]) := Reads.one (if_pos hc)
    have hname : Reads (.name [c]) n [] (.name (c :: n)) := Reads.name hrest
    have hclose : Reads (.name (c :: n)) ['"'] [.parameter (c :: n)] .bare := rfl
    exact hdollar.append (hstart.append (hname.append hclose))

/-! ### Commands -/

inductive Command where
  /-- `export NAME=word`. -/
  | exports (name : List Char) (value : List Part)
  /-- `printf %s word`. -/
  | prints (value : List Part)
  deriving DecidableEq, Repr

def exportKeyword : List Char := "export ".toList

def printfKeyword : List Char := "printf %s ".toList

/-- A name, an equals sign and a word. -/
def assignment (s : List Char) : Option (List Char × List Part) :=
  let name := s.takeWhile (· != '=')
  match s.dropWhile (· != '=') with
  | [] => none
  | _ :: value => if isName name then (word value).map (Prod.mk name) else none

def command (line : List Char) : Option Command :=
  match exportKeyword.isPrefixOf? line with
  | some rest => (assignment rest).map fun (name, value) => .exports name value
  | none => (printfKeyword.isPrefixOf? line).bind fun rest => (word rest).map .prints

/-- The variables after a command, and what it prints. -/
def Command.run (vars : Variables) : Command → Variables × List Char
  | exports name value => (Function.update vars name (some (expand vars value)), [])
  | prints value => (vars, expand vars value)

def run (vars : Variables) (line : List Char) : Option (Variables × List Char) :=
  (command line).map (Command.run vars)

/-- The lines of a script, one after the other. -/
def runAll (vars : Variables) : List (List Char) → Option (Variables × List Char)
  | [] => some (vars, [])
  | line :: lines =>
      (run vars line).bind fun (vars, out) =>
        (runAll vars lines).map fun (vars, out') => (vars, out ++ out')

section Commands

variable {vars : Variables} {name value : List Char} {w : List Part}

theorem isPrefixOf?_append (keyword rest : List Char) :
    keyword.isPrefixOf? (keyword ++ rest) = some rest :=
  List.isPrefixOf?_eq_some_iff_append_eq.mpr rfl

theorem assignment_eq (hname : isName name = true) (hvalue : word value = some w) :
    assignment (name ++ '=' :: value) = some (name, w) := by
  have hne : ∀ c ∈ name, (c != '=') = true := by
    intro c hc
    rw [bne_iff_ne]
    rintro rfl
    obtain _ | ⟨b, name⟩ := name
    · cases hc
    · obtain ⟨hb, hrest⟩ := Bool.and_eq_true_iff.mp hname
      rcases List.mem_cons.mp hc with rfl | hc
      · exact absurd hb (by decide)
      · exact absurd (List.all_eq_true.mp hrest _ hc) (by decide)
  have htake : (name ++ '=' :: value).takeWhile (· != '=') = name := by
    rw [List.takeWhile_append_of_pos hne]
    simp
  have hdrop : (name ++ '=' :: value).dropWhile (· != '=') = '=' :: value := by
    rw [List.dropWhile_append_of_pos hne]
    simp
  simp only [assignment, htake, hdrop, if_pos hname, hvalue, Option.map_some]

/-- `export NAME=word` sets one variable and prints nothing. -/
theorem run_export (hname : isName name = true) (hvalue : word value = some w) :
    run vars (exportKeyword ++ (name ++ '=' :: value)) =
      some (Function.update vars name (some (expand vars w)), []) := by
  rw [run, command, isPrefixOf?_append]
  dsimp only
  rw [assignment_eq hname hvalue]
  rfl

/-- `printf %s word` prints the word and sets nothing. -/
theorem run_printf (hvalue : word value = some w) :
    run vars (printfKeyword ++ value) = some (vars, expand vars w) := by
  have hexport : exportKeyword.head? = some 'e' := by decide
  have hprintf : printfKeyword.head? = some 'p' := by decide
  have hnot : exportKeyword.isPrefixOf? (printfKeyword ++ value) = none := by
    obtain ⟨keyword, hkeyword⟩ := List.head?_eq_some_iff.mp hexport
    obtain ⟨keyword', hkeyword'⟩ := List.head?_eq_some_iff.mp hprintf
    rw [hkeyword, hkeyword', List.cons_append, List.isPrefixOf?]
    exact if_neg (by decide)
  rw [run, command, hnot, isPrefixOf?_append]
  dsimp only
  rw [Option.bind_some, hvalue]
  rfl

/-- The word that is what a variable has. -/
theorem word_parameter (hname : isName name = true) :
    word ('"' :: '$' :: name ++ ['"']) = some [.parameter name] := by
  have hopen : Reads .bare ['"'] [] .quoted := rfl
  exact (hopen.append (Reads.parameter hname)).word

/-- The line that puts a text and a separator before what a variable has. -/
def front (name s : List Char) (sep : Char) : List Char :=
  exportKeyword ++ (name ++ '=' :: '"' :: (escape s ++ (sep :: ('$' :: name ++ ['"']))))

theorem word_front {sep : Char} (hsep : isSpecial sep = false) (hname : isName name = true)
    (s : List Char) :
    word ('"' :: (escape s ++ (sep :: ('$' :: name ++ ['"'])))) =
      some (s.map .char ++ ([.char sep] ++ [.parameter name])) := by
  have hopen : Reads .bare ['"'] [] .quoted := rfl
  have htail := (Reads.literal hsep).append (Reads.parameter hname)
  exact (hopen.append ((Reads.escape s).append htail)).word

/-- **What the line does**: it changes the one variable, whatever characters the text has, and runs
nothing that the text may look like. -/
theorem run_front {sep : Char} (hsep : isSpecial sep = false) (hname : isName name = true)
    (s : List Char) :
    run vars (front name s sep) =
      some (Function.update vars name (some (s ++ sep :: (vars name).getD [])), []) := by
  rw [front, run_export hname (word_front hsep hname s), expand_append, expand_append, expand_chars,
    expand_char, expand_parameter]
  rfl

/-- A text and a separator, so many times before another text. -/
def fronts (s : List Char) (sep : Char) : Nat → List Char → List Char
  | 0, old => old
  | n + 1, old => s ++ sep :: fronts s sep n old

theorem fronts_succ (s : List Char) (sep : Char) (n : Nat) (old : List Char) :
    fronts s sep n (s ++ sep :: old) = fronts s sep (n + 1) old := by
  induction n with
  | zero => rfl
  | succ n ih => exact congrArg (s ++ sep :: ·) ih

/-- **A profile with the line in it, read again and again.** -/
theorem runAll_front {sep : Char} (hsep : isSpecial sep = false) (hname : isName name = true)
    (s : List Char) (n : Nat) (vars : Variables) :
    ∃ vars', runAll vars (List.replicate (n + 1) (front name s sep)) = some (vars', []) ∧
      vars' name = some (fronts s sep (n + 1) ((vars name).getD [])) ∧
      ∀ other, other ≠ name → vars' other = vars other := by
  induction n generalizing vars with
  | zero =>
      refine ⟨_, by rw [List.replicate_one, runAll, run_front hsep hname]; rfl, ?_, ?_⟩
      · exact Function.update_self ..
      · intro other h
        exact Function.update_of_ne h ..
  | succ n ih =>
      obtain ⟨vars', hrun, hname', hother⟩ :=
        ih (Function.update vars name (some (s ++ sep :: (vars name).getD [])))
      refine ⟨vars', ?_, ?_, ?_⟩
      · rw [List.replicate_succ, runAll, run_front hsep hname, Option.bind_some]
        dsimp only
        rw [hrun]
        rfl
      · rw [hname', Function.update_self]
        exact congrArg some (fronts_succ s sep (n + 1) _)
      · intro other h
        rw [hother other h, Function.update_of_ne h]

end Commands

end Text.Shell
