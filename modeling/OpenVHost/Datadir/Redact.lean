/-
# Taking secrets out of a text

`redact` and `redact_all` replace the root passwords that are known in a text that a child has
written, before the text is shown or returned.

* `hidden_redact`, `hidden_redactAll` — no password is left, also where two of them overlap.
* `hidden_of_shortRuns` — a text without a long run of hexadecimal digits holds none.
-/

import OpenVHost.Text.Replace

namespace OpenVHost.Datadir

open Text (Fenced replaceAll)

def redacted : List Char := "<redacted>".toList

def redact (text : String) (secret : List Char) : String :=
  String.ofList (replaceAll secret redacted text.toList)

def redactAll (text : String) (secrets : List (List Char)) : String :=
  secrets.foldl redact text

/-! ### Passwords -/

def isLowerHex (c : Char) : Bool :=
  ('0'.toNat ≤ c.toNat && c.toNat ≤ '9'.toNat) || ('a'.toNat ≤ c.toNat && c.toNat ≤ 'f'.toNat)

/-- The passwords that `generate_root_password` makes: 32 lowercase hexadecimal digits. -/
structure Generated (s : List Char) : Prop where
  length : s.length = 32
  hex : ∀ c ∈ s, isLowerHex c = true

/-- None of the secrets is in a text, nor in what is cut out of it. -/
def Hidden (secrets : List (List Char)) (text : List Char) : Prop :=
  ∀ secret ∈ secrets, ∀ cut, cut <:+: text → ¬ secret <:+: cut

section Hidden

variable {secret text : List Char} {secrets : List (List Char)}

theorem hidden_iff : Hidden secrets text ↔ ∀ secret ∈ secrets, ¬ secret <:+: text := by
  constructor
  · exact fun h secret hs => h secret hs text List.infix_rfl
  · exact fun h secret hs cut hcut hin => h secret hs (hin.trans hcut)

theorem Generated.not_mem {c : Char} (h : Generated secret) (hc : isLowerHex c = false) :
    c ∉ secret := by
  intro hmem
  rw [h.hex c hmem] at hc
  cases hc

/-- The marker is no part of a password: it starts and ends with no digit, and is too short. -/
theorem Generated.fenced (h : Generated secret) : Fenced secret redacted where
  ne_nil := by
    rintro rfl
    cases h.length
  fence := by
    refine ⟨'<', "redacted".toList, '>', by decide, h.not_mem (by decide), h.not_mem (by decide),
      fun hin => ?_⟩
    have hle := hin.length_le
    rw [h.length] at hle
    exact absurd hle (by decide)

/-- **What has been redacted holds no password.** -/
theorem hidden_redact (h : Generated secret) (text : String) :
    Hidden [secret] (redact text secret).toList := by
  rw [hidden_iff]
  intro s hs
  rw [List.mem_singleton.mp hs, redact, String.toList_ofList]
  exact Text.not_infix_replaceAll h.fenced

theorem toList_redactAll (text : String) (secrets : List (List Char)) :
    (redactAll text secrets).toList = Text.replaceEach redacted secrets text.toList := by
  induction secrets generalizing text with
  | nil => rfl
  | cons secret secrets ih =>
      have hstep : redactAll text (secret :: secrets) = redactAll (redact text secret) secrets :=
        rfl
      rw [hstep, ih, redact, String.toList_ofList]
      rfl

/-- **What has been redacted of several passwords holds none of them**, also where they overlap
in the text. -/
theorem hidden_redactAll (h : ∀ secret ∈ secrets, Generated secret) (text : String) :
    Hidden secrets (redactAll text secrets).toList := by
  rw [hidden_iff, toList_redactAll]
  exact fun secret hs => Text.not_infix_replaceEach (fun s hs => (h s hs).fenced) hs

end Hidden

/-! ### Texts without long runs of digits -/

/-- No run of hexadecimal digits is as long as a password. -/
def shortRuns (text : List Char) : Bool :=
  (text.splitOnP fun c => !isLowerHex c).all fun run => run.length < 32

section Runs

variable {text s t : List Char} {c : Char} {secrets : List (List Char)}

theorem shortRuns_append (hc : isLowerHex c = false) :
    shortRuns (s ++ c :: t) = (shortRuns s && shortRuns t) := by
  rw [shortRuns, List.splitOnP_append_cons s t (by simp [hc]), List.all_append, shortRuns,
    shortRuns]

/-- **A text without a long run of digits holds no password.** -/
theorem hidden_of_shortRuns (h : ∀ secret ∈ secrets, Generated secret)
    (hruns : shortRuns text = true) : Hidden secrets text := by
  rw [hidden_iff]
  intro secret hs hin
  have hsecret := h secret hs
  have hhex : ∀ c ∈ secret, (!isLowerHex c) = false := fun c hc => by simp [hsecret.hex c hc]
  obtain ⟨run, hrun, hin⟩ := Text.exists_piece hhex hin
  have hshort : run.length < 32 := by simpa using List.all_eq_true.mp hruns run hrun
  have hle := hin.length_le
  rw [hsecret.length] at hle
  omega

end Runs

end OpenVHost.Datadir
