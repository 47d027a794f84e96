/-
# A save loses no edit

The payload of a save is what the form held. What is typed until the row has been read again is laid
over the row that is read, and the rest of the form is the row: each field is what was last entered,
or else what is stored.

* `SettingsForm.Loaded` — the invariant; `loaded_next` — every step keeps it.
* `settings_form` — no edit is lost, one save at a time, and the form is dirty when it differs from
  the row.
-/

import OpenVHost.Window.WebSettings

namespace OpenVHost.Window

open Conf Desktop Desktop.WebSettings SettingKey

namespace SettingsForm

variable (f : SettingsForm)

/-- What the form is measured against is the row, if the last reading succeeded. -/
def Fresh (stored : WebServerSettingsDto) : Prop := f.lastRead = true → f.store.saved = some stored

/-- What holds at the await that a save is at. -/
def StageSound (v stored : WebServerSettingsDto) (run : SaveRun) : Prop :=
  match run.stage with
  | .save none => f.Fresh stored ∧ ∀ key, run.since key = false → valueOf v key = valueOf run.payload key
  | .save (some (.error _)) | .plan _ => f.Fresh stored
  | .save (some (.ok _)) | .reread none => f.edited = run.since
  | .reread (some answer) => f.edited = run.since ∧ ∀ d, answer = .ok d → d = stored

/-- No save is in flight, or one. -/
inductive Flight (v stored : WebServerSettingsDto) : Prop where
  | idle (hsaves : f.saves = []) (hsaving : f.store.saving = false) (hfresh : f.Fresh stored)
  | saving (run : SaveRun) (hsaves : f.saves = [run]) (hsaving : f.store.saving = true)
      (hpending : ∀ key, key ∈ f.store.pendingEdits ↔ run.since key = true)
      (hsince : ∀ key, run.since key = true → f.entered key = some (valueOf v key))
      (hstage : f.StageSound v stored run)

/-- A form that shows the values `v` of a row with the settings `s`. -/
structure Loaded (v : WebServerSettingsDto) (s : WebServerSettings) : Prop where
  values : f.store.values = some v
  stored : storedSettings f.row = .ok s
  fields : ∀ key, f.entered key = some (valueOf v key) ∨
    f.edited key = false ∧ valueOf v key = valueOf (.ofSettings s) key
  flight : f.Flight v (.ofSettings s)

/-- Either nothing could be read at first, or the form is loaded. -/
inductive Sound : Prop where
  | unread (hvalues : f.store.values = none) (hsaves : f.saves = []) (hlast : f.lastRead = false)
  | loaded (v : WebServerSettingsDto) (s : WebServerSettings) (h : f.Loaded v s)

end SettingsForm

section Fields

variable {s s' : WebServerSettings} {payload v d : WebServerSettingsDto} {key : SettingKey}

/-- A stored value is stored again as it is. -/
theorem stored_again (hs : Stable s) (hpayload : payload.tryInto = .ok s')
    (heq : valueOf payload key = valueOf (.ofSettings s) key) :
    valueOf (.ofSettings s') key = valueOf payload key := by
  obtain ⟨-, htypes, hkept⟩ := tryInto_ok hpayload
  rw [hkept]
  cases key with
  | number key | bool key => cases key <;> rfl
  | text key =>
      cases key with
      | clientMaxBodySize => rfl
      | gzipTypes =>
          have hdirective : payload.gzipTypes = asDirective s.gzipTypes := heq
          rw [hdirective, gzipTypesParse_directive hs.types] at htypes
          exact (congrArg asDirective (Except.ok.inj htypes).symm).trans hdirective.symm

theorem valueOf_foldl_withField («local» : WebServerSettingsDto) (keys : List SettingKey) :
    ∀ base, valueOf (keys.foldl (fun merged key => withField merged «local» key) base) key =
      if key ∈ keys then valueOf «local» key else valueOf base key := by
  induction keys with
  | nil => exact fun base => rfl
  | cons key' keys ih =>
      intro base
      rw [List.foldl_cons, ih]
      by_cases hkey : key = key'
      · subst hkey
        simp [withField]
      · simp [withField, hkey, valueOf_withValue_of_ne]

theorem valueOf_merge {store : WebSettingsStore} (hvalues : store.values = some v) :
    valueOf (store.merge d) key = if key ∈ store.pendingEdits then valueOf v key else valueOf d key := by
  rw [WebSettingsStore.merge, hvalues]
  exact valueOf_foldl_withField v store.pendingEdits d

end Fields

section Steps

variable {f f' : SettingsForm} {v v' : WebServerSettingsDto} {s : WebServerSettings} {run run' : SaveRun}
  {store : WebSettingsStore} {turn : FormTurn}

/-- What is marked and reported is free. -/
theorem loaded_frame (hf : f.Loaded v s) (hvalues : store.values = f.store.values)
    (hsaved : store.saved = f.store.saved) (hsaving : store.saving = f.store.saving)
    (hpending : store.pendingEdits = f.store.pendingEdits) : { f with store := store }.Loaded v s := by
  have hfresh : f.Fresh (.ofSettings s) → { f with store := store }.Fresh (.ofSettings s) := fun h hlast =>
    hsaved.trans (h hlast)
  refine ⟨hvalues.trans hf.values, hf.stored, hf.fields, ?_⟩
  cases hf.flight with
  | idle h₁ h₂ h₃ => exact .idle h₁ (hsaving.trans h₂) (hfresh h₃)
  | saving run h₁ h₂ h₃ h₄ h₅ =>
      refine .saving run h₁ (hsaving.trans h₂) ?_ h₄ ?_
      · intro key
        rw [← h₃ key]
        simp only [hpending]
      · unfold SettingsForm.StageSound at h₅ ⊢
        split at h₅
        · exact ⟨hfresh h₅.1, h₅.2⟩
        · exact hfresh h₅
        · exact hfresh h₅
        · exact h₅
        · exact h₅
        · exact h₅

/-- **A valid value is entered.** -/
theorem loaded_edit (hf : f.Loaded v s) (key : SettingKey) (value : key.Value) :
    ({ f with store := f.store.patch key value }.recordEdit key value).Loaded (withValue v key value) s := by
  have hpatch : f.store.patch key value = { f.store with
      values := some (withValue v key value)
      pendingEdits := if f.store.saving && !f.store.pendingEdits.contains key then f.store.pendingEdits ++ [key]
        else f.store.pendingEdits } := by
    rw [WebSettingsStore.patch, hf.values]
  rw [SettingsForm.recordEdit, hpatch]
  simp only [Option.isSome_some, if_true]
  have hother : ∀ {key'}, key' ≠ key → valueOf (withValue v key value) key' = valueOf v key' := fun hne =>
    valueOf_withValue_of_ne v value hne
  refine ⟨rfl, hf.stored, ?_, ?_⟩
  · intro key'
    by_cases hkey : key' = key
    · subst hkey
      left
      simp
    · simp only [Function.update_of_ne hkey, hother hkey]
      exact hf.fields key'
  · cases hf.flight with
    | idle h₁ h₂ h₃ => exact .idle (by simp [h₁]) h₂ h₃
    | saving run h₁ h₂ h₃ h₄ h₅ =>
        refine .saving { run with since := Function.update run.since key true } (by simp [h₁]) h₂ ?_ ?_ ?_
        · intro key'
          simp only [h₂, Bool.true_and]
          by_cases hkey : key' = key
          · subst hkey
            simp only [Function.update_self, iff_true]
            split
            · simp
            case isFalse hin => simpa using hin
          · rw [Function.update_of_ne hkey, ← h₃ key']
            split
            · simp [hkey]
            · rfl
        · intro key' hsince
          by_cases hkey : key' = key
          · subst hkey
            simp
          · simp only [Function.update_of_ne hkey] at hsince
            simp only [Function.update_of_ne hkey, hother hkey]
            exact h₄ key' hsince
        · unfold SettingsForm.StageSound at h₅ ⊢
          simp only
          split at h₅
          · refine ⟨h₅.1, fun key' hsince => ?_⟩
            by_cases hkey : key' = key
            · subst hkey
              simp at hsince
            · simp only [Function.update_of_ne hkey] at hsince
              rw [hother hkey]
              exact h₅.2 key' hsince
          · exact h₅
          · exact h₅
          · rw [h₅]
          · rw [h₅]
          · exact ⟨by rw [h₅.1], h₅.2⟩

theorem beginSave_some {r : WebSettingsStore × WebServerSettingsDto} (h : store.beginSave = some r) :
    store.saving = false ∧ store.values = some r.2 ∧
      r.1 = { store with saving := true, pendingEdits := [], error := .text "", serverErrors := [] } := by
  rw [WebSettingsStore.beginSave, Option.ite_none_right_eq_some] at h
  obtain ⟨hcan, h⟩ := h
  obtain ⟨payload, hvalues, rfl⟩ := Option.map_eq_some_iff.mp h
  simp only [WebSettingsStore.canSave, Bool.and_eq_true, Bool.not_eq_true'] at hcan
  exact ⟨hcan.1.1, hvalues, rfl⟩

/-- **A save begins**, if there is none. -/
theorem loaded_save (hf : f.Loaded v s) (h : f.next .save = some f') : f'.Loaded v s := by
  simp only [SettingsForm.next] at h
  cases hbegin : f.store.beginSave with
  | none =>
      rw [hbegin] at h
      cases h
      exact hf
  | some r =>
      obtain ⟨hsaving, hvalues, hstore⟩ := beginSave_some hbegin
      obtain ⟨store, payload⟩ := r
      obtain rfl := Option.some.inj (hf.values.symm.trans hvalues)
      subst hstore
      rw [hbegin] at h
      cases h
      cases hf.flight with
      | saving run h₁ h₂ => exact absurd h₂ (by simp [hsaving])
      | idle h₁ h₂ h₃ =>
          refine ⟨hf.values, hf.stored, hf.fields, .saving ⟨v, .save none, fun _ => false⟩ ?_ rfl ?_ ?_ ?_⟩
          · simp [h₁]
          · simp
          · nofun
          · exact ⟨h₃, fun _ _ => rfl⟩

/-- The save that is at an index is the one in flight. -/
theorem flight_at {stored : WebServerSettingsDto} (hf : f.Flight v stored) {i : Nat} (h : f.saves[i]? = some run) :
    i = 0 ∧ f.saves = [run] ∧ f.store.saving = true ∧ (∀ key, key ∈ f.store.pendingEdits ↔ run.since key = true) ∧
      (∀ key, run.since key = true → f.entered key = some (valueOf v key)) ∧ f.StageSound v stored run := by
  cases hf with
  | idle h₁ => simp [h₁] at h
  | saving run' h₁ h₂ h₃ h₄ h₅ =>
      rw [h₁, List.getElem?_singleton, Option.ite_none_right_eq_some] at h
      obtain ⟨hi, heq⟩ := h
      cases heq
      exact ⟨by omega, h₁, h₂, h₃, h₄, h₅⟩

/-- **A command runs.** -/
theorem loaded_perform (hf : f.Loaded v s) {i : Nat} {answers : SaveAnswers}
    {plan : Except WebSettings.IpcError Unit}
    (h : f.next (.perform i answers plan) = some f') : ∃ s', f'.Loaded v s' := by
  obtain ⟨run, hrun, h⟩ := Option.bind_eq_some_iff.mp h
  obtain ⟨⟨g, run'⟩, hperform, h⟩ := Option.bind_eq_some_iff.mp h
  cases h
  obtain ⟨rfl, hsaves, hsaving, hpending, hsince, hstage⟩ := flight_at hf.flight hrun
  rw [SettingsForm.perform] at hperform
  unfold SettingsForm.StageSound at hstage
  split at hperform
  case h_1 hrunning =>
    rw [hrunning] at hstage
    obtain ⟨hfresh, hpayload⟩ := hstage
    split at hperform
    case h_1 row hsave =>
      -- the row is stored, and a field that was not edited since is stored as it was or as entered
      cases hperform
      obtain ⟨s', hs', rfl⟩ := saveWebServerSettings_ok hsave
      have hstable := storedSettings_stable hf.stored
      refine ⟨s', hf.values, readSettings_toRow (tryInto_ok hs').1, ?_, ?_⟩
      · intro key
        rcases hf.fields key with hentered | ⟨-, hrow⟩
        · exact .inl hentered
        · cases hedit : run.since key with
          | true => exact .inl (hsince key hedit)
          | false =>
              right
              have heq := hpayload key hedit
              exact ⟨hedit, heq.trans (stored_again hstable hs' (heq.symm.trans hrow)).symm⟩
      · exact .saving { run with stage := .save (some (.ok ())) } (by simp [hsaves]) hsaving hpending hsince rfl
    case h_2 e hsave =>
      cases hperform
      refine ⟨s, hf.values, hf.stored, hf.fields, ?_⟩
      exact .saving { run with stage := .save (some (.error e)) } (by simp [hsaves]) hsaving hpending hsince hfresh
  case h_2 hrunning =>
    rw [hrunning] at hstage
    cases hperform
    refine ⟨s, hf.values, hf.stored, hf.fields, ?_⟩
    refine .saving { run with stage := .reread (some (webServerSettings answers.store f.row)) } (by simp [hsaves])
      hsaving hpending hsince ⟨hstage, ?_⟩
    intro d hd
    obtain ⟨_, -, hd⟩ := FileTree.bind_eq_ok.mp hd
    rw [readSettings, hf.stored] at hd
    cases hd
    rfl
  case h_3 hrunning =>
    rw [hrunning] at hstage
    cases hperform
    refine ⟨s, hf.values, hf.stored, hf.fields, ?_⟩
    exact .saving { run with stage := .plan (some plan) } (by simp [hsaves]) hsaving hpending hsince hstage
  all_goals cases hperform

/-- **An answer arrives.** -/
theorem loaded_arrive (hf : f.Loaded v s) {i : Nat} (h : f.next (.arrive i) = some f') : ∃ v', f'.Loaded v' s := by
  obtain ⟨run, hrun, h⟩ := Option.bind_eq_some_iff.mp h
  obtain ⟨⟨g, run'⟩, harrive, h⟩ := Option.bind_eq_some_iff.mp h
  obtain ⟨rfl, hsaves, hsaving, hpending, hsince, hstage⟩ := flight_at hf.flight hrun
  rw [SettingsForm.arrive] at harrive
  unfold SettingsForm.StageSound at hstage
  split at harrive
  case h_1 hrunning =>
    rw [hrunning] at hstage
    cases harrive
    cases h
    refine ⟨v, hf.values, hf.stored, hf.fields, ?_⟩
    exact .saving { run with stage := .reread none } (by simp [hsaves]) hsaving hpending hsince hstage
  case h_2 answer hrunning =>
    rw [hrunning] at hstage
    obtain ⟨hedited, hanswer⟩ := hstage
    cases harrive
    cases h
    cases answer with
    | error e =>
        refine ⟨v, hf.values, hf.stored, hf.fields, ?_⟩
        exact .saving { run with stage := .plan none } (by simp [hsaves]) hsaving hpending hsince nofun
    | ok d =>
        obtain rfl := hanswer d rfl
        have hmerge : ∀ key, valueOf (f.store.merge (.ofSettings s)) key =
            if run.since key = true then valueOf v key else valueOf (.ofSettings s) key := by
          intro key
          rw [valueOf_merge hf.values]
          simp only [hpending key]
        refine ⟨f.store.merge (.ofSettings s), rfl, hf.stored, ?_, ?_⟩
        · intro key
          rw [hmerge key]
          cases hedit : run.since key with
          | true =>
              left
              rw [if_pos rfl]
              exact hsince key hedit
          | false =>
              right
              exact ⟨(congrFun hedited key).trans hedit, if_neg nofun⟩
        · refine .saving { run with stage := .plan none } (by simp [hsaves]) hsaving hpending ?_ fun _ => rfl
          intro key hedit
          rw [hmerge key, if_pos hedit]
          exact hsince key hedit
  case h_3 hrunning =>
    rw [hrunning] at hstage
    cases harrive
    cases h
    exact ⟨v, hf.values, hf.stored, hf.fields, .idle (by simp [hsaves]) rfl hstage⟩
  case h_4 e hrunning =>
    rw [hrunning] at hstage
    cases harrive
    cases h
    refine ⟨v, ?_, hf.stored, hf.fields, .idle (by simp [hsaves]) ?_ ?_⟩
    · cases e <;> exact hf.values
    · cases e <;> rfl
    · cases e <;> exact hstage
  case h_5 e hrunning =>
    rw [hrunning] at hstage
    cases harrive
    cases h
    refine ⟨v, ?_, hf.stored, hf.fields, .idle (by simp [hsaves]) ?_ ?_⟩
    · cases e <;> exact hf.values
    · cases e <;> rfl
    · cases e <;> exact hstage
  all_goals cases harrive

theorem sound_initial (h : f.Initial) : f.Sound := by
  obtain ⟨answers, hstore⟩ := h.store
  have hlast := h.lastRead
  cases hread : webServerSettings answers f.row with
  | error e =>
      rw [hread] at hstore
      rw [hstore] at hlast
      exact .unread (by rw [hstore]; rfl) h.saves hlast
  | ok d =>
      rw [hread] at hstore
      obtain ⟨_, -, hread⟩ := FileTree.bind_eq_ok.mp hread
      cases hstored : storedSettings f.row with
      | error e =>
          rw [readSettings, hstored] at hread
          cases hread
      | ok s =>
          rw [readSettings, hstored] at hread
          cases hread
          refine .loaded (.ofSettings s) s ⟨by rw [hstore]; rfl, hstored, ?_, ?_⟩
          · exact fun key => .inr ⟨congrFun h.edited key, rfl⟩
          · exact .idle h.saves (by rw [hstore]; rfl) fun _ => by rw [hstore]; rfl

/-- **Every step** keeps a loaded form loaded. -/
theorem loaded_next (hf : f.Loaded v s) (h : f.next turn = some f') : f'.Sound := by
  cases turn with
  | setNumber key raw =>
      simp only [SettingsForm.next, WebSettingsStore.setNumber] at h
      cases hparse : parseCount raw with
      | none =>
        simp only [hparse] at h
        cases h
        exact .loaded v s (loaded_frame hf rfl rfl rfl rfl)
      | some parsed =>
        simp only [hparse] at h
        cases h
        have hcleared : { f with store := f.store.clearLocal (errorKey (.number key)) }.Loaded v s :=
          loaded_frame hf rfl rfl rfl rfl
        exact .loaded _ s (loaded_edit hcleared (.number key) parsed)
  | setBool key value =>
      cases h
      exact .loaded _ s (loaded_edit hf (.bool key) value)
  | setText key value =>
      cases h
      exact .loaded _ s (loaded_edit hf (.text key) value)
  | save => exact .loaded v s (loaded_save hf h)
  | perform i answers plan =>
      obtain ⟨s', hf'⟩ := loaded_perform hf h
      exact .loaded v s' hf'
  | arrive i =>
      obtain ⟨v', hf'⟩ := loaded_arrive hf h
      exact .loaded v' s hf'

/-- A form that could not be read stays empty. -/
theorem unread_next (hvalues : f.store.values = none) (hsaves : f.saves = []) (hlast : f.lastRead = false)
    (h : f.next turn = some f') : f'.Sound := by
  have hpatch : ∀ (store : WebSettingsStore) (key : SettingKey) (value : key.Value), store.values = none →
      { f with store := store.patch key value }.recordEdit key value = { f with store := store } := by
    intro store key value hnone
    rw [WebSettingsStore.patch, hnone, SettingsForm.recordEdit]
    simp [hnone]
  cases turn with
  | setNumber key raw =>
      simp only [SettingsForm.next, WebSettingsStore.setNumber] at h
      cases hparse : parseCount raw with
      | none =>
        simp only [hparse] at h
        cases h
        exact .unread hvalues hsaves hlast
      | some parsed =>
        simp only [hparse] at h
        rw [hpatch (f.store.clearLocal (errorKey (.number key))) (.number key) parsed hvalues] at h
        cases h
        exact .unread hvalues hsaves hlast
  | setBool key value =>
      simp only [SettingsForm.next, WebSettingsStore.setBool] at h
      rw [hpatch _ _ _ hvalues] at h
      cases h
      exact .unread hvalues hsaves hlast
  | setText key value =>
      simp only [SettingsForm.next, WebSettingsStore.setText] at h
      rw [hpatch _ _ _ hvalues] at h
      cases h
      exact .unread hvalues hsaves hlast
  | save =>
      simp only [SettingsForm.next] at h
      cases hbegin : f.store.beginSave with
      | none =>
          rw [hbegin] at h
          cases h
          exact .unread hvalues hsaves hlast
      | some r => cases hvalues.symm.trans (beginSave_some hbegin).2.1
  | perform i | arrive i => simp [SettingsForm.next, hsaves] at h

theorem settingsForm_sound (h : settingsForm.Reachable f) : f.Sound :=
  Lts.System.Reaches.invariant (fun _ => sound_initial) (fun _ _ _ hf _ h => by
    cases hf with
    | unread hvalues hsaves hlast => exact unread_next hvalues hsaves hlast h
    | loaded v s hf => exact loaded_next hf h) h

end Steps

/-- **No edit is lost.** In every state of the form there is one save at most, and another one does
not begin; each field is what was last entered for it, or what is stored, if it was not edited since
the last save took its payload; and with no save in flight, after a reading that succeeded, the form
is dirty when a field is not as it is stored. -/
theorem settings_form {f : SettingsForm} (h : settingsForm.Reachable f) :
    (f.saves.length ≤ 1 ∧ (f.saves ≠ [] → f.next .save = some f)) ∧
      (∀ v, f.store.values = some v → ∃ stored, readSettings f.row = .ok stored ∧
        ∀ key, f.entered key = some (valueOf v key) ∨
          f.edited key = false ∧ valueOf v key = valueOf stored key) ∧
      (f.saves = [] → f.lastRead = true → ∃ v stored, f.store.values = some v ∧
        readSettings f.row = .ok stored ∧
        (f.store.dirty = false ↔ ∀ key, valueOf v key = valueOf stored key)) := by
  cases settingsForm_sound h with
  | unread hvalues hsaves hlast =>
      refine ⟨⟨by simp [hsaves], fun hne => absurd hsaves hne⟩, ?_, ?_⟩
      · intro v hv
        cases hvalues.symm.trans hv
      · intro _ htrue
        cases hlast.symm.trans htrue
  | loaded v s hf =>
      have hread : readSettings f.row = .ok (.ofSettings s) := by
        rw [readSettings, hf.stored]
        rfl
      refine ⟨?_, ?_, ?_⟩
      · cases hf.flight with
        | idle hsaves => exact ⟨by simp [hsaves], fun hne => absurd hsaves hne⟩
        | saving run hsaves hsaving =>
            refine ⟨by simp [hsaves], fun _ => ?_⟩
            simp [SettingsForm.next, WebSettingsStore.beginSave, WebSettingsStore.canSave, hsaving]
      · intro v' hv'
        obtain rfl := Option.some.inj (hf.values.symm.trans hv')
        exact ⟨.ofSettings s, hread, hf.fields⟩
      · intro hsaves hlast
        refine ⟨v, .ofSettings s, hf.values, hread, ?_⟩
        cases hf.flight with
        | saving run hone => cases hsaves.symm.trans hone
        | idle _ _ hfresh =>
            rw [← sameSettings_iff, WebSettingsStore.dirty, hf.values, hfresh hlast]
            exact iff_of_eq (Bool.not_eq_false' _)

/-! ### A save with an edit in it -/

/-- The form of a machine where nothing was saved yet, loaded. -/
def freshForm : SettingsForm where
  store := WebSettingsStore.new.load (webServerSettings (.ok ()) none)
  saves := []
  row := none
  entered := fun _ => none
  edited := fun _ => false
  lastRead := true

/-- The types are stored as they are read, the timeout that was entered meanwhile is kept, and the
form is dirty with it. -/
theorem settings_form_edited : ∃ f, settingsForm.Reachable f ∧ f.saves = [] ∧ f.store.dirty = true ∧
    f.store.values.map (fun v => (v.gzipTypes, v.keepaliveTimeout)) = some ("text/css text/plain".toList, 30) ∧
    ∃ v stored, f.store.values = some v ∧ readSettings f.row = .ok stored ∧
      (f.store.dirty = false ↔ ∀ key, valueOf v key = valueOf stored key) := by
  have hinit : settingsForm.Reachable freshForm := .init ⟨⟨.ok (), rfl⟩, rfl, rfl, rfl, by decide +kernel⟩
  obtain ⟨f, hf, hend⟩ := Lts.System.exists_of_exec
    [.setText .gzipTypes "Text/CSS   text/plain".toList, .save, .setNumber .keepaliveTimeout " 30 ".toList,
      .setNumber .keepaliveTimeout "x".toList, .perform 0 ⟨.ok (), .accepted, .ok ()⟩ (.ok ()), .arrive 0,
      .perform 0 ⟨.ok (), .accepted, .ok ()⟩ (.ok ()), .arrive 0,
      .perform 0 ⟨.ok (), .accepted, .ok ()⟩ (.ok ()), .arrive 0]
    (fun f => f.saves.isEmpty && f.lastRead && f.store.dirty &&
      f.store.values.map (fun v => (v.gzipTypes, v.keepaliveTimeout)) == some ("text/css text/plain".toList, 30))
    hinit (by decide +kernel)
  simp only [Bool.and_eq_true, List.isEmpty_iff, beq_iff_eq] at hend
  obtain ⟨⟨⟨hsaves, hlast⟩, hdirty⟩, hvalues⟩ := hend
  exact ⟨f, hf, hsaves, hdirty, hvalues, (settings_form hf).2.2 hsaves hlast⟩

end OpenVHost.Window
