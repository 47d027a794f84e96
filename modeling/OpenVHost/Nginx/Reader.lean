/-
# Reading a configuration

A configuration is read character by character: words are separated by blanks, quotes end at
their mark unless a backslash escapes it, and outside quotes a `;` ends a directive and a `{`
starts its block. A `#` where a word could start comments the rest of its line.

What a letter of a word is is left open, so that the reader also reads texts that are not
all characters.

* `run_append` — a text is read piece by piece.
* `read` — the directives of a whole configuration, with the depth each stands at.
-/

import Mathlib.Data.List.Basic

namespace Nginx

inductive Quote where
  | bare
  | single
  | double
  deriving DecidableEq, Repr

/-- Where a reader stands. -/
inductive Mode (α : Type) where
  /-- Where a word could start. -/
  | blank
  | comment
  /-- After the mark that ends the quotes. -/
  | closed
  /-- Within a word: after a backslash, after a `$`, and what has been read of it. -/
  | word (quote : Quote) (escaped dollar : Bool) (letters : List α)
  deriving DecidableEq, Repr

/-- A directive, with the depth of the block it stands in. -/
structure Directive (α : Type) where
  depth : Nat
  words : List (List α)
  /-- It has a block. -/
  block : Bool
  deriving DecidableEq, Repr

/-- How far a reader is: the words of the directive that is being read, and its depth. -/
structure Reading (α : Type) where
  mode : Mode α
  words : List (List α)
  depth : Nat
  deriving DecidableEq, Repr

def isBlank (c : Char) : Bool := c == ' ' || c == '\t' || c == '\r' || c == '\n'

/-- What a backslash and a character stand for. -/
def unescape (c : Char) : List Char :=
  if c = '"' ∨ c = '\'' ∨ c = '\\' then [c]
  else if c = 't' then ['\t']
  else if c = 'r' then ['\r']
  else if c = 'n' then ['\n']
  else ['\\', c]

/-- What a step comes to: where the reader is, and the directives that are complete. -/
abbrev Stepped (α : Type) := Option (Reading α × List (Directive α))

namespace Reading

variable {α : Type}

def start : Reading α := ⟨.blank, [], 0⟩

def stay (r : Reading α) (mode : Mode α) : Stepped α := some ({ r with mode := mode }, [])

/-- The end of a word. -/
def put (r : Reading α) (word : List α) : Reading α := { r with words := r.words ++ [word] }

/-- The end of a directive, or the start of its block. -/
def done (r : Reading α) (block : Bool) : Stepped α :=
  if r.words.isEmpty then none
  else some (⟨.blank, [], if block then r.depth + 1 else r.depth⟩, [⟨r.depth, r.words, block⟩])

/-- The end of a block. -/
def leave (r : Reading α) : Stepped α :=
  if r.words.isEmpty && r.depth != 0 then some (⟨.blank, [], r.depth - 1⟩, []) else none

variable (letter : Char → α)

/-- A character where a word could start. -/
def between (r : Reading α) (c : Char) : Stepped α :=
  if isBlank c then r.stay .blank
  else if c = ';' then r.done false
  else if c = '\x7b' then r.done true
  else if c = '\x7d' then r.leave
  else if c = '#' then r.stay .comment
  else if c = '\\' then r.stay (.word .bare true false [])
  else if c = '"' then r.stay (.word .double false false [])
  else if c = '\'' then r.stay (.word .single false false [])
  else r.stay (.word .bare false (c == '$') [letter c])

/-- A character that ends a word, or belongs to it. -/
def within (r : Reading α) (quote : Quote) (w : List α) (c : Char) : Stepped α :=
  let more := r.stay (.word quote false false (w ++ [letter c]))
  match quote with
  | .double => if c = '"' then (r.put w).stay .closed else more
  | .single => if c = '\'' then (r.put w).stay .closed else more
  | .bare =>
      if isBlank c then (r.put w).stay .blank
      else if c = ';' then (r.put w).done false
      else if c = '\x7b' then (r.put w).done true
      else more

def step (r : Reading α) (c : Char) : Stepped α :=
  match r.mode with
  | .blank => r.between letter c
  | .comment => r.stay (if c = '\n' then .blank else .comment)
  | .closed =>
      if isBlank c then r.stay .blank
      else if c = ';' then r.done false
      else if c = '\x7b' then r.done true
      else if c = ')' then r.stay (.word .bare false false [letter c])
      else none
  | .word quote escaped dollar w =>
      if escaped then r.stay (.word quote false false (w ++ (unescape c).map letter))
      else if c = '\x7b' ∧ dollar then r.stay (.word quote false true (w ++ [letter c]))
      else if c = '\\' then r.stay (.word quote true false w)
      else if c = '$' then r.stay (.word quote false true (w ++ [letter c]))
      else r.within letter quote w c

/-- Where a configuration may end. -/
def complete (r : Reading α) : Bool :=
  r.words.isEmpty && r.depth == 0 &&
    match r.mode with
    | .blank | .comment => true
    | _ => false

end Reading

/-! ### Runs -/

section Run

variable {σ β ω : Type}

/-- The steps of a reader over a text. -/
def run (step : σ → β → Option (σ × List ω)) (s : σ) : List β → Option (σ × List ω)
  | [] => some (s, [])
  | b :: text =>
      match step s b with
      | none => none
      | some (s, out) =>
          match run step s text with
          | none => none
          | some (s, more) => some (s, out ++ more)

variable {step : σ → β → Option (σ × List ω)} {s s' s'' : σ} {b : β} {text more : List β}
  {out out' : List ω}

theorem run_cons (h : step s b = some (s', out)) (hrest : run step s' text = some (s'', out')) :
    run step s (b :: text) = some (s'', out ++ out') := by
  simp only [run, h, hrest]

theorem run_cons_inv (h : run step s (b :: text) = some (s'', out)) :
    ∃ s' first rest, step s b = some (s', first) ∧ run step s' text = some (s'', rest) ∧
      out = first ++ rest := by
  simp only [run] at h
  cases hstep : step s b with
  | none => simp [hstep] at h
  | some first =>
      simp only [hstep] at h
      cases hrest : run step first.1 text with
      | none => simp [hrest] at h
      | some rest =>
          simp only [hrest, Option.some.injEq, Prod.mk.injEq] at h
          obtain ⟨rfl, rfl⟩ := h
          exact ⟨first.1, first.2, rest.2, rfl, hrest, rfl⟩

/-- **A text is read piece by piece.** -/
theorem run_append (h : run step s text = some (s', out))
    (hmore : run step s' more = some (s'', out')) :
    run step s (text ++ more) = some (s'', out ++ out') := by
  induction text generalizing s out with
  | nil =>
      cases h
      exact hmore
  | cons b text ih =>
      obtain ⟨s₁, first, rest, hstep, hrest, rfl⟩ := run_cons_inv h
      rw [List.cons_append, List.append_assoc]
      exact run_cons hstep (ih hrest)

/-- Pieces that leave a reader where it was. -/
theorem run_flatMap {γ : Type} {f : γ → List β} {g : γ → List ω}
    (h : ∀ x, run step s (f x) = some (s, g x)) (xs : List γ) :
    run step s (xs.flatMap f) = some (s, xs.flatMap g) := by
  induction xs with
  | nil => rfl
  | cons x xs ih => exact run_append (h x) ih

end Run

/-! ### Configurations -/

/-- The directives of a configuration, if it is one. -/
def read (s : List Char) : Option (List (Directive Char)) :=
  match run (Reading.step id) .start s with
  | some (r, ds) => if r.complete then some ds else none
  | none => none

theorem read_of_run {s : List Char} {r : Reading Char} {ds : List (Directive Char)}
    (h : run (Reading.step id) .start s = some (r, ds)) (hr : r.complete = true) :
    read s = some ds := by
  simp only [read, h, hr, if_true]

namespace Directive

variable {α : Type}

def name (d : Directive α) : List α := d.words.headD []

def params (d : Directive α) : List (List α) := d.words.tail

/-- What is left of a directive without its parameters: how deep it stands, its name, how many
parameters it has, and whether it has a block. -/
structure Shape (α : Type) where
  depth : Nat
  name : List α
  params : Nat
  block : Bool
  deriving DecidableEq, Repr

def shape (d : Directive α) : Shape α := ⟨d.depth, d.name, d.params.length, d.block⟩

end Directive

/-- The parameters of the directives of a name. -/
def paramsOf (name : List Char) (ds : List (Directive Char)) : List (List (List Char)) :=
  (ds.filter fun d => d.name = name).map Directive.params

/-- The parameters a variable may be in. -/
def dollars (ds : List (Directive Char)) : List (List Char) :=
  (ds.flatMap Directive.params).filter fun w => '$' ∈ w

theorem paramsOf_append (name : List Char) (ds es : List (Directive Char)) :
    paramsOf name (ds ++ es) = paramsOf name ds ++ paramsOf name es := by
  simp only [paramsOf, List.filter_append, List.map_append]

theorem dollars_append (ds es : List (Directive Char)) :
    dollars (ds ++ es) = dollars ds ++ dollars es := by
  simp only [dollars, List.flatMap_append, List.filter_append]

example : read "a \"b; \x7b\" c; # \x7d\nd \x7b e $\x7bf\x7d; \x7d".toList =
    some [⟨0, ["a".toList, "b; \x7b".toList, "c".toList], false⟩, ⟨0, ["d".toList], true⟩,
      ⟨1, ["e".toList, "$\x7bf\x7d".toList], false⟩] := by decide

end Nginx
