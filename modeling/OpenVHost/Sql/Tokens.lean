/-
# The tokens of a script

A script is read character by character, under `NO_BACKSLASH_ESCAPES`: quotes end at the
first mark that is not doubled, a backslash is a character like any other, and comments are
`#`, `--` in front of a blank, and `/* */`.

* `run_escape` — a text whose marks are doubled never leaves the quotes it stands in.
* `run_around` — so that between two quotes it is one token, and the script around it is
  read as if it stood alone.
* `statements_flatten` — the statements of a script are found one by one.
-/

import Mathlib.Data.List.Basic

namespace Sql

inductive Token where
  | word (text : List Char)
  /-- `'..'`, with the text that it stands for. -/
  | literal (text : List Char)
  /-- Quotes of another mark, with what stands between them. -/
  | quoted (mark : Char) (text : List Char)
  | symbol (c : Char)
  /-- Quotes or a comment that the end of the script leaves open. -/
  | unclosed
  deriving DecidableEq, Repr

/-- Where in a script a reader stands. -/
inductive Reader where
  | between
  | word (text : List Char)
  | inside (mark : Char) (text : List Char)
  /-- After a mark that ends the quotes, unless it is doubled. -/
  | closing (mark : Char) (text : List Char)
  | dash
  | dashes
  | slash
  | line
  | block
  /-- Within `/* */`, after a `*`. -/
  | star
  deriving DecidableEq, Repr

def isBlank (c : Char) : Bool := c == ' ' || (9 ≤ c.toNat && c.toNat ≤ 13)

def isControl (c : Char) : Bool := c.toNat < 32 || c.toNat == 127

def isWordChar (c : Char) : Bool := c.isAlphanum || c == '_' || c == '$' || 128 ≤ c.toNat

def isMark (c : Char) : Bool := c == '\'' || c == '"' || c.toNat == 96

/-- The token that quotes stand for. -/
def close (mark : Char) (text : List Char) : Token :=
  if mark = '\'' then .literal text else .quoted mark text

namespace Reader

/-- What a character does between two tokens. -/
def start (c : Char) : Reader × List Token :=
  if isBlank c then (.between, [])
  else if isWordChar c then (.word [c], [])
  else if isMark c then (.inside c [], [])
  else if c = '#' then (.line, [])
  else if c = '-' then (.dash, [])
  else if c = '/' then (.slash, [])
  else (.between, [.symbol c])

/-- A token is complete, and the character is read after it. -/
def after (t : Token) (c : Char) : Reader × List Token := ((start c).1, t :: (start c).2)

def step : Reader → Char → Reader × List Token
  | .between, c => start c
  | .word text, c => if isWordChar c then (.word (text ++ [c]), []) else after (.word text) c
  | .inside mark text, c =>
      if c = mark then (.closing mark text, []) else (.inside mark (text ++ [c]), [])
  | .closing mark text, c =>
      if c = mark then (.inside mark (text ++ [c]), []) else after (close mark text) c
  | .dash, c => if c = '-' then (.dashes, []) else after (.symbol '-') c
  | .dashes, c =>
      if isBlank c || isControl c then (if c = '\n' then .between else .line, [])
      else if c = '-' then (.dashes, [.symbol '-'])
      else ((start c).1, .symbol '-' :: .symbol '-' :: (start c).2)
  | .slash, c => if c = '*' then (.block, []) else after (.symbol '/') c
  | .line, c => (if c = '\n' then .between else .line, [])
  | .block, c => (if c = '*' then .star else .block, [])
  | .star, c => (if c = '/' then .between else if c = '*' then .star else .block, [])

/-- What the end of the script makes of it. -/
def finish : Reader → List Token
  | .between | .line | .dashes => []
  | .word text => [.word text]
  | .closing mark text => [close mark text]
  | .dash => [.symbol '-']
  | .slash => [.symbol '/']
  | .inside _ _ | .block | .star => [.unclosed]

def run : Reader → List Char → Reader × List Token
  | r, [] => (r, [])
  | r, c :: cs => ((run (step r c).1 cs).1, (step r c).2 ++ (run (step r c).1 cs).2)

/-- The tokens of the rest of a script. -/
def tokens (r : Reader) (s : List Char) : List Token := (run r s).2 ++ (run r s).1.finish

end Reader

def tokens (s : List Char) : List Token := Reader.between.tokens s

/-- The statements of a script, and what stands after the last `;`. -/
def statements (s : List Char) : List (List Token) := (tokens s).splitOn (.symbol ';')

/-- A text with its marks doubled. -/
def escape (mark : Char) (text : List Char) : List Char :=
  text.flatMap fun c => if c = mark then [c, c] else [c]

namespace Reader

variable {r r' : Reader} {mark c : Char} {s rest text : List Char} {ts : List Token}

@[simp] theorem run_nil : run r [] = (r, []) := rfl

theorem run_cons : run r (c :: s) =
    ((run (step r c).1 s).1, (step r c).2 ++ (run (step r c).1 s).2) := rfl

theorem run_append : ∀ (r : Reader) (s rest : List Char), run r (s ++ rest) =
    ((run (run r s).1 rest).1, (run r s).2 ++ (run (run r s).1 rest).2)
  | _, [], _ => rfl
  | r, c :: s, rest => by
      rw [List.cons_append, run_cons, run_append (step r c).1 s rest, run_cons, List.append_assoc]

theorem tokens_append (h : run r s = (r', ts)) : r.tokens (s ++ rest) = ts ++ r'.tokens rest := by
  rw [tokens, run_append, h, List.append_assoc]
  rfl

/-! ### Quotes -/

theorem run_inside_mark :
    run (.inside mark text) [mark, mark] = (.inside mark (text ++ [mark]), []) := by
  simp [run, step]

theorem run_inside_other (h : c ≠ mark) :
    run (.inside mark text) [c] = (.inside mark (text ++ [c]), []) := by
  simp [run, step, h]

/-- **Quotes are not left by a text whose marks are doubled.** -/
theorem run_escape : ∀ (mark : Char) (read text : List Char),
    run (.inside mark read) (escape mark text) = (.inside mark (read ++ text), [])
  | mark, read, [] => by rw [List.append_nil]; rfl
  | mark, read, c :: text => by
      have hsplit : read ++ c :: text = (read ++ [c]) ++ text := List.append_cons read c text
      rw [escape, List.flatMap_cons, hsplit, run_append]
      by_cases hc : c = mark
      · subst hc
        rw [if_pos rfl, run_inside_mark]
        exact run_escape c (read ++ [c]) text
      · rw [if_neg hc, run_inside_other hc]
        exact run_escape mark (read ++ [c]) text

/-- Quotes end at a mark that is not doubled. -/
theorem run_closing (h : c ≠ mark) : run (.closing mark text) (c :: s) =
    ((run .between (c :: s)).1, close mark text :: (run .between (c :: s)).2) := by
  have hclosed : step (.closing mark text) c = after (close mark text) c := if_neg h
  rw [run_cons, hclosed]
  rfl

/-- **A text whose marks are doubled is one token between two quotes.** What stands before and
after it is read as if the text were not there. -/
theorem run_around (hbefore : run .between s = (.inside mark [], ts)) (hc : c ≠ mark) :
    run .between (s ++ (escape mark text ++ mark :: c :: rest)) =
      ((run .between (c :: rest)).1, ts ++ close mark text :: (run .between (c :: rest)).2) := by
  have hmark : step (.inside mark text) mark = (.closing mark text, []) := if_pos rfl
  rw [run_append, hbefore, run_append, run_escape, List.nil_append, run_cons, hmark, run_closing hc]
  rfl

end Reader

/-! ### Statements -/

/-- The text of one statement with its `;`, after which another can begin. -/
structure IsStatement (s : List Char) (ts : List Token) : Prop where
  run_eq : Reader.run .between s = (.between, ts ++ [.symbol ';'])
  not_mem : .symbol ';' ∉ ts

variable {s rest text : List Char} {ts : List Token} {mark : Char}

theorem statements_append (h : IsStatement s ts) :
    statements (s ++ rest) = ts :: statements rest := by
  have htokens : tokens (s ++ rest) = ts ++ .symbol ';' :: tokens rest := by
    rw [tokens, Reader.tokens_append h.run_eq, List.append_assoc]
    rfl
  have hcut : ∀ u : List Token, (ts ++ .symbol ';' :: u).splitOn (.symbol ';') =
      ts.splitOn (.symbol ';') ++ u.splitOn (.symbol ';') := fun u =>
    List.splitOnP_append_cons ts u (beq_self_eq_true _)
  have hone : ts.splitOn (.symbol ';') = [ts] := by
    apply List.splitOnP_eq_singleton
    intro t ht
    exact beq_eq_false_iff_ne.mpr fun heq => h.not_mem (heq ▸ ht)
  rw [statements, htokens, hcut, hone]
  rfl

/-- **The statements of a script are found one by one.** -/
theorem statements_flatten {ss : List (List Char)} {tss : List (List Token)}
    (h : List.Forall₂ IsStatement ss tss) : statements ss.flatten = tss ++ [[]] := by
  induction h with
  | nil => rfl
  | cons hs _ ih =>
    rw [List.flatten_cons, statements_append hs, ih]
    rfl

/-- A statement that ends in a text whose marks are doubled. -/
theorem IsStatement.around (hbefore : Reader.run .between s = (.inside mark [], ts))
    (hts : .symbol ';' ∉ ts) (hmark : mark ≠ ';')
    (hrest : Reader.run .between (';' :: rest) = (.between, [.symbol ';'])) :
    IsStatement (s ++ (escape mark text ++ mark :: ';' :: rest)) (ts ++ [close mark text]) := by
  constructor
  · rw [Reader.run_around hbefore hmark.symm, hrest, List.append_assoc]
    rfl
  · intro h
    rcases List.mem_append.mp h with h | h
    · exact hts h
    · have heq := List.mem_singleton.mp h
      rw [close] at heq
      split at heq <;> cases heq

end Sql
