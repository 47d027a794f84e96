/-
# The page settles on the stored sites

A mutation that succeeds has the list read again, and the plan after the list; so has an apply
the plan. What is on screen ends as what is stored, as long as no answer takes the place of
a later one: nothing but the rows is guarded, so two mutations of different rows read their
lists side by side.

* `SitesPage.Settling` — the invariant; `settling_next` — every step in order keeps it.
* `sites_settle` — with no call in flight and none failed, the list and the plan are those of now.
* `stale_list` — two rows, two lists, and the older one on screen.
-/

import OpenVHost.Async.Readings
import OpenVHost.Window.Sites

namespace OpenVHost.Window.Sites

open Async

namespace SitesCall

/-- The list that a call carries. -/
def sitesRead : SitesCall → Option (List SiteDto × Nat)
  | .list _ (some sites) moment => some (sites, moment)
  | _ => none

/-- The plan that a call carries. -/
def changesRead : SitesCall → Option (Except IpcError (List FileChangeDto) × Nat)
  | .plan (some changes) moment => some (changes, moment)
  | _ => none

/-- The list has yet to be read, by this call or after it. -/
def relists : SitesCall → Bool
  | .list _ none _ | .create _ _ _ | .update _ _ _ | .remove _ _ | .row _ _ _ => true
  | .list _ (some _) _ | .openSite _ _ | .plan _ _ | .apply _ => false

/-- So has the plan. -/
def replans : SitesCall → Bool
  | .plan none _ | .apply _ | .list (.save _) _ _ | .list .other _ _ => true
  | .create _ _ _ | .update _ _ _ | .remove _ _ | .row _ _ _ => true
  | .plan (some _) _ | .list .mount _ _ | .openSite _ _ => false

/-- The answer is not older than the one on screen. -/
def inOrder {D : Type} (p : SitesPage D) : SitesCall → Bool
  | .list _ (some _) moment => p.sitesMoment ≤ moment
  | .plan (some _) moment => p.changesMoment ≤ moment
  | _ => true

end SitesCall

namespace SitesPage

variable {D : Type} (api : SitesApi D) (p : SitesPage D)

/-- What a step of an orderly run meets. -/
def ordered : SitesTurn → Bool
  | .arrive i => p.calls[i]?.all (SitesCall.inOrder p)
  | _ => true

/-- No answer takes the place of a later one. -/
def Ordered (turn : SitesTurn) : Prop := p.ordered turn = true

/-- Both copies are being read again, if they are not what they are copies of. -/
structure Settling : Prop where
  sites : Chased p.siteChanges p.stored p.store.sites p.sitesMoment
    (Carried SitesCall.sitesRead p.calls) (∃ c ∈ p.calls, c.relists)
  changes : Chased p.planChanges (api.planConfigApply p.stored p.disk) (.ok p.apply.changes)
    p.changesMoment (Carried SitesCall.changesRead p.calls) (∃ c ∈ p.calls, c.replans)

end SitesPage

section Steps

variable {D : Type} {api : SitesApi D} {p p' : SitesPage D} {call call' : SitesCall}
  {rest calls' more : List SitesCall} {turn : SitesTurn}

theorem settling_initial (h : p.Initial) : p.Settling api where
  sites := by
    refine .begin (by have := h.sitesMoment; omega) (fun heq => absurd h.sitesMoment (by omega)) ?_ ?_
    · rw [h.calls]
      exact fun a m => not_carried (by decide)
    · rw [h.calls]
      exact ⟨_, List.mem_cons_self, rfl⟩
  changes := by
    refine .begin (by have := h.changesMoment; omega) (fun heq => absurd h.changesMoment (by omega)) ?_ ?_
    · rw [h.calls]
      exact fun a m => not_carried (by decide)
    · rw [h.calls]
      exact ⟨_, List.mem_cons_of_mem _ List.mem_cons_self, rfl⟩

/-- What is shown of errors, rows and outcomes is free. -/
theorem settling_frame (hp : p.Settling api) (hcalls : p'.calls = p.calls) (hstored : p'.stored = p.stored)
    (hdisk : p'.disk = p.disk) (hsites : p'.store.sites = p.store.sites)
    (hchanges : p'.apply.changes = p.apply.changes) (hnow : p'.siteChanges = p.siteChanges)
    (hplan : p'.planChanges = p.planChanges) (hmoment : p'.sitesMoment = p.sitesMoment)
    (hmoment' : p'.changesMoment = p.changesMoment) : p'.Settling api := by
  constructor
  · rw [hcalls, hstored, hsites, hnow, hmoment]
    exact hp.sites
  · rw [hcalls, hstored, hdisk, hchanges, hplan, hmoment']
    exact hp.changes

/-- A call is made. -/
theorem settling_ask (hp : p.Settling api) (hsites : call.sitesRead = none) (hchanges : call.changesRead = none) :
    (p.ask call).Settling api where
  sites := hp.sites.calls_asked hsites
  changes := hp.changes.calls_asked hchanges

theorem settling_beginRow (hp : p.Settling api) {id : SiteId} (hsites : call.sitesRead = none)
    (hchanges : call.changesRead = none) : (p.beginRow id call).Settling api := by
  rw [SitesPage.beginRow]
  split
  · exact hp
  · apply settling_ask _ hsites hchanges
    exact settling_frame hp rfl rfl rfl rfl rfl rfl rfl rfl rfl

/-- A call gives way to another, and nothing changes. -/
theorem settling_turned (hp : p.Settling api) (hcalls : p.calls.Perm (call :: rest))
    (hcalls' : calls'.Perm (call' :: rest)) (hsites : call.sitesRead = none) (hchanges : call.changesRead = none)
    (hsites' : call'.sitesRead = none) (hchanges' : call'.changesRead = none)
    (hrelists : call.relists → call'.relists) (hreplans : call.replans → call'.replans) :
    { p with calls := calls' }.Settling api where
  sites := hp.sites.calls_turned hcalls hcalls' hsites hsites' hrelists
  changes := hp.changes.calls_turned hcalls hcalls' hchanges hchanges' hreplans

/-- **A command that writes the sites has run.** -/
theorem settling_storeSites {α : Type} (hp : p.Settling api) (hcalls : p.calls.Perm (call :: rest))
    (hcalls' : calls'.Perm (call' :: rest)) (hsites : call.sitesRead = none) (hchanges : call.changesRead = none)
    (hsites' : call'.sitesRead = none) (hchanges' : call'.changesRead = none) (hrelists : call'.relists = true)
    (hreplans : call'.replans = true) (r : Except IpcError (α × List SiteDto)) :
    { p.storeSites r with calls := calls' }.Settling api := by
  cases r with
  | ok r =>
      constructor
      · exact hp.sites.calls_changed hcalls hcalls' hsites' hrelists
      · exact hp.changes.calls_changed hcalls hcalls' hchanges' hreplans
  | error e =>
      exact settling_turned hp hcalls hcalls' hsites hchanges hsites' hchanges' (fun _ => hrelists)
        (fun _ => hreplans)

/-- **A command runs.** -/
theorem settling_perform (hp : p.Settling api) (hcalls : p.calls.Perm (call :: rest))
    (hcalls' : calls'.Perm ((p.perform api call).2 :: rest)) (hnew : call.performed = false) :
    { (p.perform api call).1 with calls := calls' }.Settling api := by
  cases call with
  | list after answer moment =>
      cases answer with
      | some sites => cases hnew
      | none =>
          constructor
          · exact hp.sites.calls_read hcalls hcalls' rfl rfl
          · exact hp.changes.calls_turned hcalls hcalls' rfl rfl (by cases after <;> exact id)
  | create input createFolder answer =>
      exact settling_storeSites hp hcalls hcalls' rfl rfl rfl rfl rfl rfl _
  | update id input answer => exact settling_storeSites hp hcalls hcalls' rfl rfl rfl rfl rfl rfl _
  | remove id answer => exact settling_storeSites hp hcalls hcalls' rfl rfl rfl rfl rfl rfl _
  | row id op answer =>
      cases op with
      | update input => exact settling_storeSites hp hcalls hcalls' rfl rfl rfl rfl rfl rfl _
      | delete => exact settling_storeSites hp hcalls hcalls' rfl rfl rfl rfl rfl rfl _
  | openSite id answer => exact settling_turned hp hcalls hcalls' rfl rfl rfl rfl nofun nofun
  | plan answer moment =>
      cases answer with
      | some changes => cases hnew
      | none =>
          constructor
          · exact hp.sites.calls_turned hcalls hcalls' rfl rfl nofun
          · exact hp.changes.calls_read hcalls hcalls' rfl rfl
  | apply answer =>
      simp only [SitesPage.perform] at hcalls' ⊢
      cases hr : api.applyConfig p.stored p.disk with
      | ok r =>
          simp only [hr] at hcalls' ⊢
          constructor
          · exact hp.sites.calls_turned hcalls hcalls' rfl rfl nofun
          · exact hp.changes.calls_changed hcalls hcalls' rfl rfl
      | error e =>
          simp only [hr] at hcalls' ⊢
          exact settling_turned hp hcalls hcalls' rfl rfl rfl rfl nofun fun _ => rfl

/-! ### Answers -/

@[simp] theorem failed_callFailed (p : SitesPage D) (e : IpcError) (call : SitesCall) :
    (p.callFailed e call).failed = p.failed := by
  cases call with
  | list after => cases after <;> rfl
  | create | update | remove | row | openSite | plan | apply => rfl

@[simp] theorem failed_fail (p : SitesPage D) (e : IpcError) (call : SitesCall) : (p.fail e call).failed = true := by
  rw [SitesPage.fail, failed_callFailed]

/-- A call is over, and has the next one made. -/
theorem settling_follow (hp : p.Settling api) (hcalls : p.calls.Perm (call :: rest)) (hsites : call.sitesRead = none)
    (hchanges : call.changesRead = none) (hsites' : call'.sitesRead = none) (hchanges' : call'.changesRead = none)
    (hrelists : call.relists → call'.relists) (hreplans : call.replans → call'.replans) :
    ({ p with calls := rest }.ask call').Settling api := by
  have hcalls' := List.perm_append_singleton call' rest
  have hturned := settling_turned hp hcalls hcalls' hsites hchanges hsites' hchanges' hrelists hreplans
  exact hturned

/-- **A list arrives.** -/
theorem settling_listed {after : AfterLoad} {sites : List SiteDto} {moment : Nat} (hp : p.Settling api)
    (hcalls : p.calls.Perm (.list after (some sites) moment :: rest)) (hle : p.sitesMoment ≤ moment) :
    ({ p with
        store := p.store.listed (.ok sites)
        sitesMoment := moment
        calls := rest }.listed after).Settling api := by
  have hrest : rest.Perm ([] ++ rest) := .refl rest
  have hplan : (rest ++ [SitesCall.plan none 0]).Perm ([.plan none 0] ++ rest) := List.perm_append_singleton _ rest
  have hnone : ∀ c ∈ [SitesCall.plan none 0], c.sitesRead = none := by simp [SitesCall.sitesRead]
  cases after with
  | mount =>
      constructor
      · exact hp.sites.calls_placed hcalls hrest rfl hle nofun nofun
      · exact hp.changes.calls_kept hcalls hrest rfl nofun nofun
  | save notice =>
      constructor
      · exact hp.sites.calls_placed hcalls hplan rfl hle hnone nofun
      · exact hp.changes.calls_turned hcalls hplan rfl rfl fun _ => rfl
  | other =>
      constructor
      · exact hp.sites.calls_placed hcalls hplan rfl hle hnone nofun
      · exact hp.changes.calls_turned hcalls hplan rfl rfl fun _ => rfl

/-- **An answer arrives** that is not older than the one on screen. -/
theorem settling_arrive (hp : p.Settling api) (hcalls : p.calls.Perm (call :: rest))
    (horder : call.inOrder p = true) (h : { p with calls := rest }.arrive call = some p') :
    p'.failed = false → p'.Settling api := by
  intro hfailed
  have hrest : rest.Perm ([] ++ rest) := .refl rest
  cases call with
  | list after answer moment =>
      cases answer with
      | none => cases h
      | some sites =>
          cases h
          have hlisted := settling_listed hp hcalls (by simpa [SitesCall.inOrder] using horder)
          exact hlisted
  | create input createFolder answer =>
      rcases answer with - | (e | result)
      · cases h
      · cases h
        simp at hfailed
      · cases h
        exact settling_frame (settling_follow hp hcalls rfl rfl rfl rfl (fun _ => rfl) fun _ => rfl)
          rfl rfl rfl rfl rfl rfl rfl rfl rfl
  | update id input answer =>
      rcases answer with - | (e | result)
      · cases h
      · cases h
        simp at hfailed
      · cases h
        exact settling_frame (settling_follow hp hcalls rfl rfl rfl rfl (fun _ => rfl) fun _ => rfl)
          rfl rfl rfl rfl rfl rfl rfl rfl rfl
  | remove id answer =>
      rcases answer with - | (e | result)
      · cases h
      · cases h
        simp at hfailed
      · cases h
        exact settling_frame (settling_follow hp hcalls rfl rfl rfl rfl (fun _ => rfl) fun _ => rfl)
          rfl rfl rfl rfl rfl rfl rfl rfl rfl
  | row id op answer =>
      rcases answer with - | (e | result)
      · cases h
      · cases h
        simp at hfailed
      · cases h
        exact settling_frame (settling_follow hp hcalls rfl rfl rfl rfl (fun _ => rfl) fun _ => rfl)
          rfl rfl rfl rfl rfl rfl rfl rfl rfl
  | openSite id answer =>
      rcases answer with - | (e | result)
      · cases h
      · cases h
        simp at hfailed
      · cases h
        constructor
        · exact hp.sites.calls_kept hcalls hrest rfl nofun nofun
        · exact hp.changes.calls_kept hcalls hrest rfl nofun nofun
  | plan answer moment =>
      rcases answer with - | (e | changes)
      · cases h
      · cases h
        simp at hfailed
      · cases h
        constructor
        · exact hp.sites.calls_kept hcalls hrest rfl nofun nofun
        · exact hp.changes.calls_placed hcalls hrest rfl (by simpa [SitesCall.inOrder] using horder) nofun nofun
  | apply answer =>
      rcases answer with - | (e | outcome)
      · cases h
      · cases h
        simp at hfailed
      · cases h
        exact settling_frame (settling_follow hp hcalls rfl rfl rfl rfl nofun fun _ => rfl)
          rfl rfl rfl rfl rfl rfl rfl rfl rfl

/-! ### A step -/

/-- A call that has failed once has failed. -/
theorem failed_of_arrive (hp : p.failed = true) (h : p.arrive call = some p') : p'.failed = true := by
  cases call with
  | list after answer moment =>
      cases answer with
      | none => cases h
      | some sites =>
          cases h
          cases after <;> exact hp
  | create input createFolder answer | update id input answer | remove id answer | row id op answer
  | openSite id answer | plan answer moment | apply answer =>
      rcases answer with - | (e | result)
      · cases h
      · cases h
        simp
      · cases h
        exact hp

theorem failed_beginRow (p : SitesPage D) (id : SiteId) (call : SitesCall) :
    (p.beginRow id call).failed = p.failed := by
  rw [SitesPage.beginRow]
  split <;> rfl

theorem failed_perform (p : SitesPage D) (call : SitesCall) : (p.perform api call).1.failed = p.failed := by
  have hstore : ∀ {α : Type} (r : Except IpcError (α × List SiteDto)), (p.storeSites r).failed = p.failed :=
    fun r => by cases r <;> rfl
  cases call with
  | list | openSite | plan => rfl
  | create | update | remove => exact hstore _
  | row id op => cases op <;> exact hstore _
  | apply =>
      simp only [SitesPage.perform]
      split <;> rfl

/-- **Every step of an orderly run** keeps both copies on their way, until a call fails. -/
theorem settling_next (hp : p.failed = false → p.Settling api) (horder : p.Ordered turn)
    (h : p.next api turn = some p') : p'.failed = false → p'.Settling api := by
  intro hfailed
  cases turn with
  | save id input createFolder =>
      cases id <;> cases h <;> exact settling_ask
        (settling_frame (hp hfailed) rfl rfl rfl rfl rfl rfl rfl rfl rfl) rfl rfl
  | remove id =>
      cases h
      exact settling_ask (settling_frame (hp hfailed) rfl rfl rfl rfl rfl rfl rfl rfl rfl) rfl rfl
  | setEnabled | removeRow | openSite =>
      cases h
      rw [failed_beginRow] at hfailed
      exact settling_beginRow (hp hfailed) rfl rfl
  | clearErrors | dismissScaffold =>
      cases h
      exact settling_frame (hp hfailed) rfl rfl rfl rfl rfl rfl rfl rfl rfl
  | refresh =>
      cases h
      exact settling_ask (settling_frame (hp hfailed) rfl rfl rfl rfl rfl rfl rfl rfl rfl) rfl rfl
  | run =>
      simp only [SitesPage.next] at h
      split at h
      · cases h
        exact hp hfailed
      · cases h
        exact settling_ask (settling_frame (hp hfailed) rfl rfl rfl rfl rfl rfl rfl rfl rfl) rfl rfl
  | perform i =>
      obtain ⟨call, hcall, h⟩ := Option.bind_eq_some_iff.mp h
      obtain ⟨hi, rfl⟩ := List.getElem?_eq_some_iff.mp hcall
      simp only at h
      split at h
      case isTrue => cases h
      case isFalse hnew =>
        cases h
        rw [failed_perform] at hfailed
        exact settling_perform (hp hfailed) (List.getElem_cons_eraseIdx_perm hi).symm
          (List.set_perm_cons_eraseIdx hi _) (Bool.eq_false_iff.mpr hnew)
  | arrive i =>
      obtain ⟨call, hcall, h⟩ := Option.bind_eq_some_iff.mp h
      have horder : call.inOrder p = true := by
        have horder : p.calls[i]?.all (SitesCall.inOrder p) = true := horder
        rw [hcall] at horder
        exact horder
      obtain ⟨hi, rfl⟩ := List.getElem?_eq_some_iff.mp hcall
      have hbefore : p.failed = false := by
        apply Bool.eq_false_iff.mpr
        intro hp
        rw [failed_of_arrive (p := { p with calls := p.calls.eraseIdx i }) hp h] at hfailed
        cases hfailed
      exact settling_arrive (hp hbefore) (List.getElem_cons_eraseIdx_perm hi).symm horder h hfailed
  | fail i e =>
      obtain ⟨call, hcall, h⟩ := Option.bind_eq_some_iff.mp h
      cases h
      simp at hfailed

end Steps

/-- **The page settles.** In every run in which no answer takes the place of a later one: once
every call is over, and none has failed, the list is the stored one and the changes are the
plan for it. -/
theorem sites_settle {D : Type} {api : SitesApi D} {p : SitesPage D}
    (h : (sitesPage api).Reaches SitesPage.Ordered p) (hcalls : p.calls = []) (hfailed : p.failed = false) :
    p.store.sites = p.stored ∧ api.planConfigApply p.stored p.disk = .ok p.apply.changes := by
  have hp : p.failed = false → p.Settling api :=
    Lts.System.Reaches.invariant (fun p h _ => settling_initial h) (fun _ _ _ => settling_next) h
  obtain ⟨hsites, hchanges⟩ := hp hfailed
  rw [hcalls] at hsites hchanges
  constructor
  · exact hsites.settled (fun a m => not_carried (by simp)) (by simp)
  · exact (hchanges.settled (fun a m => not_carried (by simp)) (by simp)).symm

/-! ### Two rows -/

/-- A backend of rows, with the sites last applied as its disk. -/
def rowsApi : SitesApi (List SiteDto) where
  createSite input _ stored :=
    let site : SiteDto := ⟨input.domain, input.name, input.domain, input.docroot, input.webServer,
      input.phpVersion, input.enabled, 1, 1⟩
    .ok (⟨site, none⟩, stored ++ [site])
  updateSite id input stored :=
    match stored.find? (·.id == id) with
    | none => .error (.core "not found")
    | some site =>
        let site' : SiteDto := ⟨id, input.name, input.domain, input.docroot, input.webServer,
          input.phpVersion, input.enabled, site.createdAt, site.updatedAt + 1⟩
        .ok (site', stored.map fun s => if s.id = id then site' else s)
  deleteSite id stored := .ok (stored.any (·.id == id), stored.filter (·.id != id))
  openSite _ _ := .ok ()
  planConfigApply stored disk := .ok (if stored = disk then [] else [⟨"sites.conf", "modified", ""⟩])
  applyConfig stored _ := .ok (⟨1, [], [], []⟩, stored)

def firstSite : SiteDto := ⟨"1", "one", "one.test", "/w/one", "nginx", "8.3", true, 1, 1⟩

def secondSite : SiteDto := ⟨"2", "two", "two.test", "/w/two", "nginx", "8.3", true, 1, 1⟩

/-- The page of the two sites, mounted. -/
def twoSites : SitesPage (List SiteDto) where
  store := ⟨[], none, [], fun _ => none, fun _ => false, none⟩
  apply := ⟨[], "", false, none⟩
  calls := [.list .mount none 0, .plan none 0]
  stored := [firstSite, secondSite]
  disk := [firstSite, secondSite]
  siteChanges := 1
  planChanges := 1
  sitesMoment := 0
  changesMoment := 0
  failed := false

theorem twoSites_reachable {allowed : SitesPage (List SiteDto) → SitesTurn → Prop} :
    (sitesPage rowsApi).Reaches allowed twoSites :=
  .init ⟨rfl, by decide, by decide, rfl⟩

/-- Both rows are switched off, and both lists read, one after each. -/
def bothRows : List SitesTurn :=
  [.perform 0, .arrive 0, .perform 0, .arrive 0,
    .setEnabled firstSite false, .setEnabled secondSite false,
    .perform 0, .arrive 0, .perform 1, .perform 0, .arrive 0, .perform 1]

/-- In order, the list of both is on screen. -/
theorem sites_settle_both : ∃ p, (sitesPage rowsApi).Reaches SitesPage.Ordered p ∧
    p.store.sites.map SiteDto.enabled = [false, false] ∧ p.store.sites = p.stored ∧
    rowsApi.planConfigApply p.stored p.disk = .ok p.apply.changes := by
  obtain ⟨p, hp, -, hend⟩ := Lts.System.exists_of_execWhile (I := fun _ => True) SitesPage.ordered
    (bothRows ++ [.arrive 0, .arrive 0, .perform 0, .perform 1, .arrive 0, .arrive 0])
    (fun p => p.calls.isEmpty && !p.failed && p.store.sites.map SiteDto.enabled == [false, false])
    (fun _ _ _ _ _ => trivial) (fun _ _ _ h => h) twoSites_reachable trivial (by decide +kernel)
  simp only [Bool.and_eq_true, List.isEmpty_iff, Bool.not_eq_true', beq_iff_eq] at hend
  obtain ⟨⟨hcalls, hfailed⟩, henabled⟩ := hend
  exact ⟨p, hp, henabled, sites_settle hp hcalls hfailed⟩

/-- **An old list on screen**: the list of the second row arrives before that of the first, which
was read when the second was on. Every call has succeeded, and the row shows what is not stored. -/
theorem stale_list : ∃ p, (sitesPage rowsApi).Reachable p ∧ p.calls = [] ∧ p.failed = false ∧
    p.stored.map SiteDto.enabled = [false, false] ∧ p.store.sites.map SiteDto.enabled = [false, true] := by
  obtain ⟨p, hp, hend⟩ := Lts.System.exists_of_exec
    (bothRows ++ [.arrive 1, .arrive 0, .perform 0, .perform 1, .arrive 0, .arrive 0])
    (fun p => p.calls.isEmpty && !p.failed && p.stored.map SiteDto.enabled == [false, false] &&
      p.store.sites.map SiteDto.enabled == [false, true])
    twoSites_reachable (by decide +kernel)
  simp only [Bool.and_eq_true, List.isEmpty_iff, Bool.not_eq_true', beq_iff_eq] at hend
  obtain ⟨⟨⟨hcalls, hfailed⟩, hstored⟩, hlist⟩ := hend
  exact ⟨p, hp, hcalls, hfailed, hstored, hlist⟩

end OpenVHost.Window.Sites
