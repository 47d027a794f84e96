/-
# The tray converges

Whoever changes what the menu shows leaves an event to broadcast, and the subscriber
answers each event with a new snapshot. The menu is right in the end as long as no
closure undoes what a newer one has drawn, and as long as a lock that was drawn as taken
is not given back without anybody left to draw that.

* `Stirring` — the subscriber has still to hear of something.
* `Fresh`, `Settling` — the invariants: who has still to draw the rows, and the lock.
* `Timely` — the condition on closures, on the subscription and on the lock.
* `tray_converges` — in the runs where all steps are timely the menu ends as the
  supervisor's snapshot.
* `wedged_bulk_rows`, `overtaken_closure` — runs in which it does not.
-/

import OpenVHost.Proc.Feed
import OpenVHost.Tray.Refresh

namespace OpenVHost.Tray

open Proc (ServiceId ServiceStatus World Listing)

/-! ### Changes that are still to be heard of -/

/-- A change of the rows that was not read yet, or is still to be broadcast. -/
def Stirring (w : World) (rx : Nat) : Prop :=
  (∃ e ∈ w.events.drop rx, e.isState = true) ∨ ∃ b, w.owes b ≠ []

section Stirring

variable {w w' : World} {l l' : Listing} {a : Proc.Action} {rx : Nat}

theorem stirring_next (hs : Proc.Sound w) (hcalls : Proc.CallsFresh w) (h : w.next a = some w')
    (hrx : rx ≤ w.events.length) (hst : Stirring w rx) : Stirring w' rx := by
  have hkept : (∃ e ∈ w.events.drop rx, e.isState = true) → Stirring w' rx := by
    rintro ⟨e, he, hstate⟩
    obtain ⟨more, hevents, -⟩ := Proc.events_next h
    refine .inl ⟨e, ?_, hstate⟩
    rw [hevents, List.drop_append_of_le_length hrx]
    exact List.mem_append_left _ he
  rcases hst with hunread | ⟨b, hb⟩
  · exact hkept hunread
  · cases Proc.next_told hs hcalls h with
    | silent _ _ howes => exact .inr ⟨b, by rwa [howes b]⟩
    | write c e _ _ _ _ howes =>
        refine .inr ⟨c, ?_⟩
        rw [howes c, if_pos rfl]
        exact List.cons_ne_nil _ _
    | emit c e later _ hevents hbefore howes =>
        by_cases hc : b = c
        · -- what was owed is broadcast, and nobody has read it
          subst hc
          have howed : e ∈ w.owes b := by
            rw [hbefore]
            exact List.mem_cons_self
          have hstate := Proc.isState_of_owes howed
          refine .inl ⟨e, ?_, hstate⟩
          rw [hevents, List.drop_append_of_le_length hrx]
          exact List.mem_append_right _ (List.mem_singleton_self e)
        · exact .inr ⟨b, by rwa [howes b, if_neg hc]⟩

theorem ids_congr (hl : l.Sound) (hl' : l'.Sound) (hspecs : l'.world.specs = l.world.specs) :
    l'.ids = l.ids := by
  have hmem : ∀ id, id ∈ l'.ids ↔ id ∈ l.ids := by
    intro id
    have hsome := congrArg (fun specs => (specs id).isSome) hspecs
    rw [hl'.ids, hl.ids]
    simpa [World.specs] using congrArg (· = true) hsome
  have hnodup : ∀ {ids : List ServiceId}, ids.Pairwise (· < ·) → ids.Nodup := fun h =>
    h.imp fun hlt => ne_of_lt hlt
  have hperm := (List.perm_ext_iff_of_nodup (hnodup hl'.sorted) (hnodup hl.sorted)).mpr hmem
  exact hperm.eq_of_pairwise (fun a b _ _ h h' => absurd (h.trans h') (lt_irrefl a)) hl'.sorted hl.sorted

/-- The faces of the rows are made of the specs and the states. -/
theorem faces_congr (hl : l.Sound) (hl' : l'.Sound) (hspecs : l'.world.specs = l.world.specs)
    (hrows : l'.world.rows = l.world.rows) : l'.snapshot.map face = l.snapshot.map face := by
  have hface : ∀ id, (l'.world.snapshot id).map face = (l.world.snapshot id).map face := by
    intro id
    have hspec := congrFun hspecs id
    have hrow := congrFun hrows id
    simp only [World.specs, World.rows] at hspec hrow
    simp only [World.snapshot, Option.map_map]
    cases he : l.world.entries id <;> cases he' : l'.world.entries id <;>
      simp_all [face, Proc.Entry.status]
  rw [Listing.snapshot, Listing.snapshot, ids_congr hl hl' hspecs, List.map_filterMap, List.map_filterMap]
  exact List.filterMap_congr fun id _ => hface id

/-- **Whoever changes what the menu shows** leaves an event to broadcast. -/
theorem stirring_of_changed (hl : l.Sound) (hs : Proc.Sound l.world) (hcalls : Proc.CallsFresh l.world)
    (h : l.next a = some l') (hchanged : l'.snapshot.map face ≠ l.snapshot.map face) :
    Stirring l'.world rx := by
  rcases Proc.faces_next hs hcalls (Listing.next_world h) with ⟨hspecs, hrows⟩ | howes
  · exact absurd (faces_congr hl (Listing.sound_next hl h) hspecs hrows) hchanged
  · exact .inr howes

end Stirring

section Recv

variable {events : List Proc.Event} {e : Proc.Event} {rx rx' : Nat}

theorem recv_eq_event (h : Desktop.recv events rx = .event e rx') : events[rx]? = some e ∧ rx' = rx + 1 := by
  unfold Desktop.recv at h
  split at h
  · cases h
  · split at h
    next he =>
      cases h
      exact ⟨he, rfl⟩
    next => cases h

theorem recv_lagged_le (h : Desktop.recv events rx = .lagged rx') : rx' ≤ events.length := by
  unfold Desktop.recv at h
  split at h
  · rw [← Desktop.Recv.lagged.inj h]
    exact Nat.sub_le _ _
  · split at h <;> cases h

end Recv

/-! ### Who has still to draw -/

/-- The snapshot of a closure that is not posted yet. -/
def Job.look? : Job → Option Look
  | .post _ taken | .postAgain taken => some taken
  | _ => none

/-- It has the lock of the bulk actions. -/
def Job.holds : Job → Bool
  | .tryApply _ | .look _ | .post _ _ | .startAll _ | .startNext _ _ | .starting _ _ | .stopAll _ _
  | .release _ => true
  | _ => false

/-- It has the lock, or will redraw the menu. -/
def Job.busy : Job → Bool
  | .releaseApply b => b ≠ .control
  | .lookAgain | .postAgain _ => true
  | j => j.holds

/-- A bulk action in progress. -/
def Job.inBulk : Job → Bool
  | .click _ | .mark _ | .start _ | .stop _ | .calling _ | .done => false
  | _ => true

def Subscriber.rx : Subscriber → Nat
  | .recv rx | .name rx _ _ | .resolve rx _ _ _ | .look rx | .post rx _ => rx

/-- The subscriber will take a snapshot. -/
def Subscriber.WillLook (w : World) : Subscriber → Prop
  | .recv rx | .post rx _ => Stirring w rx
  | .name _ _ _ | .resolve _ _ _ _ | .look _ => True

/-- The subscriber will redraw the menu. -/
def Subscriber.WillPost (w : World) : Subscriber → Prop
  | .post _ _ => True
  | s => s.WillLook w

namespace MenuBar

variable (t : MenuBar)

/-- A snapshot that was taken of the supervisor, and is of now if nothing has changed. -/
def Seen (look : Look) : Prop :=
  (look.services.map ServiceStatus.id).Pairwise (· < ·) ∧ look.moment ≤ t.moment ∧
    (look.moment = t.moment → look.services.map face = t.sup.snapshot.map face)

/-- The menu has the rows of now, or they are still to be drawn. -/
def Fresh : Prop :=
  (∀ h, t.handle = some h → h.look.moment = t.moment) ∨ (∃ look ∈ t.posted, look.moment = t.moment) ∨
    (∃ rx look, t.subscriber = some (.post rx look) ∧ look.moment = t.moment) ∨
    ∃ s, t.subscriber = some s ∧ s.WillLook t.sup.world

/-- Somebody other than job `k` will redraw the menu. -/
def Redrawn (k : Nat) : Prop :=
  t.posted ≠ [] ∨ (∃ s, t.subscriber = some s ∧ s.WillPost t.sup.world) ∨
    ∃ i j, i ≠ k ∧ t.jobs i = some j ∧ j.busy = true

def DrawnIdle : Prop := ∀ h, t.handle = some h → h.bulk = .idle

/-- The menu has the lock as free, or it is not, or that is still to be drawn. -/
def Settling : Prop :=
  t.DrawnIdle ∨ t.posted ≠ [] ∨ (∃ s, t.subscriber = some s ∧ s.WillPost t.sup.world) ∨
    ∃ k j, t.jobs k = some j ∧ j.busy = true

/-- Nothing is under way: every event was broadcast and received, every closure has run,
and no bulk action is in progress. -/
structure AtRest : Prop where
  broadcast : t.sup.world.Settled
  received : t.subscriber = some (.recv t.sup.world.events.length)
  run : t.posted = []
  noBulk : ∀ k j, t.jobs k = some j → j.inBulk = false

end MenuBar

/-- **The condition**: a closure that runs is not older than what is drawn, nothing has
changed between the tray's first snapshot and its subscription, and a lock that was drawn
as taken is not given back by one who will not redraw the menu, unless somebody else will.
The menu is drawn from the look that a closure brings, not from the supervisor at that
moment, and only an event or the end of a bulk action posts another one. -/
def Timely (t : MenuBar) : Turn → Prop
  | .main i => ∀ look h, t.posted[i]? = some look → t.handle = some h → h.look.moment ≤ look.moment
  | .subscribe => ∀ h, t.handle = some h → h.look.moment = t.moment
  | .job k _ =>
      t.jobs k = some (.release .control) ∨ (t.applyLock = true ∧ ∃ b, t.jobs k = some (.tryApply b)) →
        t.DrawnIdle ∨ t.Redrawn k
  | _ => True

/-! ### What every timely step keeps -/

namespace MenuBar

/-- What does not depend on the lock. -/
structure Core (t : MenuBar) : Prop where
  listing : t.sup.Sound
  proc : Proc.Sound t.sup.world
  calls : Proc.CallsFresh t.sup.world
  built : t.subscriber.isSome = true → t.handle.isSome = true
  rx : ∀ s, t.subscriber = some s → s.rx ≤ t.sup.world.events.length
  drawn : ∀ h, t.handle = some h →
    t.Seen h.look ∧ h.lastModel = trayModel h.look.services h.bulk ∧ h.menu = h.lastModel
  posted : ∀ look ∈ t.posted, t.Seen look
  posting : ∀ rx look, t.subscriber = some (.post rx look) → t.Seen look
  looks : ∀ k j look, t.jobs k = some j → j.look? = some look → t.Seen look
  newJob : ∀ k, t.nextJob ≤ k → t.jobs k = none
  fresh : t.subscriber.isSome = true → t.Fresh

structure Sound (t : MenuBar) : Prop extends t.Core where
  held : t.bulkLock = true → ∃ k j, t.jobs k = some j ∧ j.holds = true
  settling : t.Settling

end MenuBar

section Converge

variable {t t' : MenuBar} {k : Nat} {j j' : Job} {look : Look} {s : Subscriber} {w w' : World}

theorem busy_of_holds (h : j.holds = true) : j.busy = true := by
  cases j <;> first | exact h | rfl | cases h

theorem inBulk_of_busy (h : j.busy = true) : j.inBulk = true := by
  cases j <;> first | rfl | cases h

theorem willLook_mono (hst : Stirring w s.rx → Stirring w' s.rx) (h : s.WillLook w) : s.WillLook w' := by
  cases s with
  | recv rx | post rx l => exact hst h
  | name | resolve | look => trivial

theorem willPost_mono (hst : Stirring w s.rx → Stirring w' s.rx) (h : s.WillPost w) : s.WillPost w' := by
  cases s with
  | recv rx => exact hst h
  | post | name | resolve | look => trivial

theorem willLook_of_stirring (h : Stirring w s.rx) : s.WillLook w := by
  cases s with
  | recv rx | post rx l => exact h
  | name | resolve | look => trivial

/-- A snapshot that is taken now. -/
theorem seen_takeLook (hl : t.sup.Sound) : t.Seen t.takeLook :=
  ⟨by rw [MenuBar.takeLook, Proc.ids_snapshot hl]; exact hl.sorted, Nat.le_refl _, fun _ => rfl⟩

/-! ### The supervisor -/

/-- **A step of the supervisor.** -/
theorem sound_step {action : Proc.Action} (ht : t.Sound) (h : t.step action = some t') : t'.Sound := by
  obtain ⟨sup, hsup, rfl⟩ := Option.map_eq_some_iff.mp h
  have hw := Listing.next_world hsup
  obtain ⟨more, hevents, -⟩ := Proc.events_next hw
  have hgrow : t.sup.world.events.length ≤ sup.world.events.length := by
    rw [hevents, List.length_append]
    exact Nat.le_add_right _ _
  have hst : ∀ s, t.subscriber = some s → Stirring t.sup.world s.rx → Stirring sup.world s.rx :=
    fun s hs => stirring_next ht.proc ht.calls hw (ht.rx s hs)
  have hsettling : t.DrawnIdle ∨ t.posted ≠ [] ∨
      (∃ s, t.subscriber = some s ∧ s.WillPost sup.world) ∨
        ∃ k j, t.jobs k = some j ∧ j.busy = true := by
    rcases ht.settling with hidle | hposted | ⟨s, hs, hpost⟩ | hbusy
    · exact .inl hidle
    · exact .inr (.inl hposted)
    · exact .inr (.inr (.inl ⟨s, hs, willPost_mono (hst s hs) hpost⟩))
    · exact .inr (.inr (.inr hbusy))
  have hkept : ∀ l, t.Seen l → (l.services.map ServiceStatus.id).Pairwise (· < ·) ∧
      l.moment ≤ (if sup.snapshot.map face = t.sup.snapshot.map face then t.moment else t.moment + 1) ∧
      (l.moment = (if sup.snapshot.map face = t.sup.snapshot.map face then t.moment else t.moment + 1) →
        l.services.map face = sup.snapshot.map face) := by
    rintro l ⟨hsorted, hmoment, hcurrent⟩
    refine ⟨hsorted, ?_⟩
    split
    next hface => exact ⟨hmoment, fun heq => (hcurrent heq).trans hface.symm⟩
    next => exact ⟨hmoment.trans (Nat.le_succ _), fun heq => by omega⟩
  refine
    { listing := Listing.sound_next ht.listing hsup
      proc := Proc.sound_next ht.proc hw
      calls := Proc.callsFresh_next ht.calls hw
      built := ht.built
      rx := fun s hs => (ht.rx s hs).trans hgrow
      drawn := fun h hh => ⟨hkept _ (ht.drawn h hh).1, (ht.drawn h hh).2⟩
      posted := fun l hl => hkept l (ht.posted l hl)
      posting := fun rx l hl => hkept l (ht.posting rx l hl)
      looks := fun k j l hj hl => hkept l (ht.looks k j l hj hl)
      newJob := ht.newJob
      fresh := fun hsome => ?_
      held := ht.held
      settling := hsettling }
  by_cases hface : sup.snapshot.map face = t.sup.snapshot.map face
  · have hmoment : (if sup.snapshot.map face = t.sup.snapshot.map face then t.moment
        else t.moment + 1) = t.moment := if_pos hface
    show (∀ h, t.handle = some h → h.look.moment = _) ∨ _
    rw [hmoment]
    rcases ht.fresh hsome with hdrawn | hposted | hposting | ⟨s, hs, hlook⟩
    · exact .inl hdrawn
    · exact .inr (.inl hposted)
    · exact .inr (.inr (.inl hposting))
    · exact .inr (.inr (.inr ⟨s, hs, willLook_mono (hst s hs) hlook⟩))
  · -- the subscriber will hear of the change
    obtain ⟨s, hs⟩ := Option.isSome_iff_exists.mp hsome
    have hchanged : Stirring sup.world s.rx :=
      stirring_of_changed ht.listing ht.proc ht.calls hsup hface
    exact .inr (.inr (.inr ⟨s, hs, willLook_of_stirring hchanged⟩))

/-- A call on the supervisor. -/
theorem sound_call {c : Proc.Call} {p : MenuBar × Proc.CallId} (ht : t.Sound) (h : t.call c = some p) :
    p.1.Sound ∧ p.1.jobs = t.jobs := by
  obtain ⟨t₁, hstep, rfl⟩ := Option.map_eq_some_iff.mp h
  refine ⟨sound_step ht hstep, ?_⟩
  obtain ⟨sup, -, rfl⟩ := Option.map_eq_some_iff.mp hstep
  rfl

theorem sound_callStart {id : ServiceId} {p : MenuBar × Proc.CallId} (ht : t.Sound)
    (h : t.callStart id = some p) : p.1.Sound ∧ p.1.jobs = t.jobs := by
  obtain ⟨p₁, hcall, rfl⟩ := Option.map_eq_some_iff.mp h
  obtain ⟨hsound, hjobs⟩ := sound_call ht hcall
  exact ⟨{ hsound with }, hjobs⟩

theorem sound_stopAllStep {answer : Desktop.Answer} {loop : Desktop.StopAll}
    {p : MenuBar × Desktop.StopAll} (ht : t.Sound) (h : t.stopAllStep answer loop = some p) :
    p.1.Sound ∧ p.1.jobs = t.jobs := by
  unfold MenuBar.stopAllStep at h
  split at h
  case h_5 id rest =>
    obtain ⟨p₁, hcall, rfl⟩ := Option.map_eq_some_iff.mp h
    exact sound_call ht hcall
  case h_6 =>
    rw [Option.ite_none_right_eq_some] at h
    obtain ⟨-, h⟩ := h
    cases h
    exact ⟨ht, rfl⟩
  case h_8 => cases h
  all_goals
    cases h
    exact ⟨ht, rfl⟩

/-! ### Clicks and bulk actions -/

theorem setJob_cases {i : Nat} {j₁ : Job} (h : (t.setJob k j).jobs i = some j₁) :
    i = k ∧ j = j₁ ∨ i ≠ k ∧ t.jobs i = some j₁ := by
  have h' : Function.update t.jobs k (some j) i = some j₁ := h
  by_cases hi : i = k
  · subst hi
    rw [Function.update_self] at h'
    exact .inl ⟨rfl, Option.some.inj h'⟩
  · rw [Function.update_of_ne hi] at h'
    exact .inr ⟨hi, h'⟩

theorem jobs_setJob_self : (t.setJob k j).jobs k = some j := Function.update_self ..

theorem jobs_setJob_of_ne {i : Nat} (hi : i ≠ k) : (t.setJob k j).jobs i = t.jobs i :=
  Function.update_of_ne hi ..

theorem core_setJob (ht : t.Core) (hk : k < t.nextJob)
    (hlook : ∀ look, j'.look? = some look → t.Seen look) : (t.setJob k j').Core :=
  { ht with
    looks := by
      intro i j₁ look hj hl
      rcases setJob_cases hj with ⟨-, rfl⟩ | ⟨-, hj⟩
      · exact hlook look hl
      · exact ht.looks i j₁ look hj hl
    newJob := by
      intro i hi
      have hne : i ≠ k := fun heq => absurd hk (Nat.not_lt.mpr (heq ▸ hi))
      rw [jobs_setJob_of_ne hne]
      exact ht.newJob i hi }

theorem lt_nextJob (ht : t.Core) (hj : t.jobs k = some j) : k < t.nextJob := by
  by_contra hle
  rw [ht.newJob k (Nat.le_of_not_lt hle)] at hj
  cases hj

/-- A job moves on: it keeps the lock, and if the menu was settling by it, it still is. -/
theorem sound_setJob (ht : t.Sound) (hj : t.jobs k = some j)
    (hlook : ∀ look, j'.look? = some look → t.Seen look) (hholds : j.holds = true → j'.holds = true)
    (hbusy : j.busy = true → t.DrawnIdle ∨ t.Redrawn k ∨ j'.busy = true) : (t.setJob k j').Sound := by
  have hsettling : t.DrawnIdle ∨ t.Redrawn k ∨ j'.busy = true → (t.setJob k j').Settling := by
    rintro (hidle | (hposted | hsub | ⟨i, j₁, hi, hj₁, hb⟩) | hb)
    · exact .inl hidle
    · exact .inr (.inl hposted)
    · exact .inr (.inr (.inl hsub))
    · exact .inr (.inr (.inr ⟨i, j₁, (jobs_setJob_of_ne hi).trans hj₁, hb⟩))
    · exact .inr (.inr (.inr ⟨k, j', jobs_setJob_self, hb⟩))
  refine { core_setJob ht.toCore (lt_nextJob ht.toCore hj) hlook with held := ?_, settling := ?_ }
  · intro hlock
    obtain ⟨i, j₁, hi, hh⟩ := ht.held hlock
    by_cases hik : i = k
    · subst hik
      rw [hj] at hi
      cases hi
      exact ⟨i, j', jobs_setJob_self, hholds hh⟩
    · exact ⟨i, j₁, (jobs_setJob_of_ne hik).trans hi, hh⟩
  · apply hsettling
    rcases ht.settling with hidle | hposted | hsub | ⟨i, j₁, hi, hb⟩
    · exact .inl hidle
    · exact .inr (.inl (.inl hposted))
    · exact .inr (.inl (.inr (.inl hsub)))
    · by_cases hik : i = k
      · subst hik
        rw [hj] at hi
        cases hi
        exact hbusy hb
      · exact .inr (.inl (.inr (.inr ⟨i, j₁, hik, hi, hb⟩)))

/-- A job takes the lock, or gives it back: the rest is as it was. -/
theorem sound_setLock {b : Bool} (ht : t.Sound) (hj : t.jobs k = some j)
    (hlook : ∀ look, j'.look? = some look → t.Seen look) (hholds : b = true → j'.holds = true)
    (hbusy : t.DrawnIdle ∨ t.Redrawn k ∨ j'.busy = true) :
    ({ t with bulkLock := b }.setJob k j').Sound := by
  have hcore : ({ t with bulkLock := b } : MenuBar).Core := { ht.toCore with }
  refine { core_setJob hcore (lt_nextJob hcore hj) hlook with held := ?_, settling := ?_ }
  · exact fun hlock => ⟨k, j', jobs_setJob_self, hholds hlock⟩
  · rcases hbusy with hidle | (hposted | hsub | ⟨i, j₁, hi, hj₁, hbusy⟩) | hbusy
    · exact .inl hidle
    · exact .inr (.inl hposted)
    · exact .inr (.inr (.inl hsub))
    · exact .inr (.inr (.inr ⟨i, j₁, (jobs_setJob_of_ne hi).trans hj₁, hbusy⟩))
    · exact .inr (.inr (.inr ⟨k, j', jobs_setJob_self, hbusy⟩))

/-- A closure is posted. -/
theorem sound_refresh (ht : t.Sound) (hlook : t.Seen look) :
    (t.refreshTrayIfBuilt look).Sound ∧ (t.refreshTrayIfBuilt look).jobs = t.jobs ∧
      (∀ l, t.Seen l → (t.refreshTrayIfBuilt look).Seen l) ∧
        ((t.refreshTrayIfBuilt look).DrawnIdle ∨ (t.refreshTrayIfBuilt look).posted ≠ []) := by
  unfold MenuBar.refreshTrayIfBuilt
  split
  next hnone =>
    refine ⟨ht, rfl, fun l hl => hl, .inl fun h hh => ?_⟩
    rw [hnone] at hh
    cases hh
  next =>
    refine ⟨{ ht with posted := ?_, fresh := ?_, settling := ?_ }, rfl, fun l hl => hl, .inr (by simp)⟩
    · intro l hl
      rcases List.mem_append.mp hl with hl | hl
      · exact ht.posted l hl
      · rw [List.mem_singleton.mp hl]
        exact hlook
    · intro hsome
      rcases ht.fresh hsome with hdrawn | ⟨l, hl, hm⟩ | hrest
      · exact .inl hdrawn
      · exact .inr (.inl ⟨l, List.mem_append_left _ hl, hm⟩)
      · exact .inr (.inr hrest)
    · exact .inr (.inl (by simp))

theorem look?_clicked (id : ServiceId) : (t.clicked id).look? = none := by
  unfold MenuBar.clicked
  split
  · rfl
  · split <;> rfl

/-- **A step of a click or of a bulk action.** -/
theorem sound_jobStep {answer : Desktop.Answer} {p : MenuBar × Job} (ht : t.Sound)
    (hj : t.jobs k = some j) (htimely : Timely t (.job k answer)) (h : t.jobStep answer j = some p) :
    (p.1.setJob k p.2).Sound := by
  -- most steps have no closure to post, and keep what they have
  have hplain : ∀ {t₁ : MenuBar} {j₁ : Job}, t₁.Sound → t₁.jobs = t.jobs → j₁.look? = none →
      (j.holds = true → j₁.holds = true) → (j.busy = true → j₁.busy = true) →
      (t₁.setJob k j₁).Sound := by
    intro t₁ j₁ ht₁ hjobs hnone hholds hbusy
    refine sound_setJob ht₁ ((congrFun hjobs k).trans hj) ?_ hholds fun hb => .inr (.inr (hbusy hb))
    intro l hl
    rw [hnone] at hl
    cases hl
  cases j with
  | click id =>
      cases h
      exact hplain ht rfl (look?_clicked id) (fun hb => by cases hb) (fun hb => by cases hb)
  | mark id =>
      cases h
      exact hplain { ht with } rfl rfl (fun hb => by cases hb) (fun hb => by cases hb)
  | start id =>
      rw [MenuBar.jobStep] at h
      obtain ⟨p₁, hcall, rfl⟩ := Option.map_eq_some_iff.mp h
      obtain ⟨hsound, hjobs⟩ := sound_callStart ht hcall
      exact hplain hsound hjobs rfl (fun hb => by cases hb) (fun hb => by cases hb)
  | stop id =>
      rw [MenuBar.jobStep] at h
      obtain ⟨p₁, hcall, rfl⟩ := Option.map_eq_some_iff.mp h
      obtain ⟨hsound, hjobs⟩ := sound_call ht hcall
      exact hplain hsound hjobs rfl (fun hb => by cases hb) (fun hb => by cases hb)
  | calling c =>
      simp only [MenuBar.jobStep, Option.ite_none_right_eq_some, Option.some.injEq] at h
      obtain ⟨-, rfl⟩ := h
      exact hplain ht rfl rfl (fun hb => by cases hb) (fun hb => by cases hb)
  | tryBulk b =>
      cases h
      split
      · exact hplain ht rfl rfl (fun hb => by cases hb) (fun hb => by cases hb)
      · exact sound_setLock ht hj (fun _ hl => by cases hl) (fun _ => rfl) (.inr (.inr rfl))
  | tryApply b =>
      cases h
      split
      next happly =>
        refine sound_setLock ht hj (fun _ hl => by cases hl) (fun hb => by cases hb) ?_
        rcases htimely (.inr ⟨happly, b, hj⟩) with hidle | hredrawn
        · exact .inl hidle
        · exact .inr (.inl hredrawn)
      next =>
        have hlocked : ({ t with applyLock := true } : MenuBar).Sound := { ht with }
        cases b <;> exact hplain hlocked rfl rfl (fun _ => rfl) (fun _ => rfl)
  | look b =>
      cases h
      refine sound_setJob ht hj (fun l hl => ?_) (fun _ => rfl) (fun _ => .inr (.inr rfl))
      cases hl
      exact seen_takeLook ht.listing
  | post b look =>
      cases h
      obtain ⟨hsound, hjobs, -⟩ := sound_refresh ht (ht.looks k _ look hj rfl)
      cases b <;> exact hplain hsound hjobs rfl (fun _ => rfl) (fun _ => rfl)
  | startAll rest =>
      cases rest with
      | nil =>
          cases h
          exact hplain ht rfl rfl (fun _ => rfl) (fun _ => rfl)
      | cons id rest =>
          cases h
          exact hplain { ht with } rfl rfl (fun _ => rfl) (fun _ => rfl)
  | startNext id rest =>
      rw [MenuBar.jobStep] at h
      obtain ⟨p₁, hcall, rfl⟩ := Option.map_eq_some_iff.mp h
      obtain ⟨hsound, hjobs⟩ := sound_callStart ht hcall
      exact hplain hsound hjobs rfl (fun _ => rfl) (fun _ => rfl)
  | starting c rest =>
      simp only [MenuBar.jobStep, Option.ite_none_right_eq_some, Option.some.injEq] at h
      obtain ⟨-, rfl⟩ := h
      exact hplain ht rfl rfl (fun _ => rfl) (fun _ => rfl)
  | stopAll b loop =>
      cases loop with
      | returned stragglers =>
          cases h
          exact hplain ht rfl rfl (fun _ => rfl) (fun _ => rfl)
      | pending | decide | sweep | stopping | sleep =>
          unfold MenuBar.jobStep at h
          obtain ⟨p₁, hstep, rfl⟩ := Option.map_eq_some_iff.mp h
          obtain ⟨hsound, hjobs⟩ := sound_stopAllStep ht hstep
          exact hplain hsound hjobs rfl (fun _ => rfl) (fun _ => rfl)
  | release b =>
      cases h
      refine sound_setLock ht hj (fun _ hl => by cases hl) (fun hb => by cases hb) ?_
      cases b with
      | startAll | stopAll => exact .inr (.inr rfl)
      | control =>
          rcases htimely (.inl hj) with hidle | hredrawn
          · exact .inl hidle
          · exact .inr (.inl hredrawn)
  | releaseApply b =>
      cases h
      have hreleased : ({ t with applyLock := false } : MenuBar).Sound := { ht with }
      cases b with
      | startAll | stopAll => exact hplain hreleased rfl rfl (fun hb => by cases hb) (fun _ => rfl)
      | control => exact hplain hreleased rfl rfl (fun hb => by cases hb) (fun hb => by cases hb)
  | lookAgain =>
      cases h
      refine sound_setJob ht hj (fun l hl => ?_) (fun hb => by cases hb) (fun _ => .inr (.inr rfl))
      cases hl
      exact seen_takeLook ht.listing
  | postAgain look =>
      cases h
      obtain ⟨hsound, hjobs, -, hposted⟩ := sound_refresh ht (ht.looks k _ look hj rfl)
      refine sound_setJob hsound ((congrFun hjobs k).trans hj) (fun _ hl => by cases hl)
        (fun hb => by cases hb) fun _ => ?_
      rcases hposted with hidle | hposted
      · exact .inl hidle
      · exact .inr (.inl (.inl hposted))
  | done => cases h

/-! ### The subscriber and the main thread -/

theorem stirring_of_log {e : Proc.Event} {rx : Nat} (he : w.events[rx]? = some e) (hlog : e.isState = false)
    (h : Stirring w rx) : Stirring w (rx + 1) := by
  rcases h with ⟨e', he', hstate⟩ | howes
  · obtain ⟨hlt, rfl⟩ := List.getElem?_eq_some_iff.mp he
    rw [List.drop_eq_getElem_cons hlt] at he'
    rcases List.mem_cons.mp he' with rfl | he'
    · rw [hlog] at hstate
      cases hstate
    · exact .inl ⟨e', he', hstate⟩
  · exact .inr howes

/-- The subscriber goes on, and still looks and posts where it would have. -/
theorem sound_setSubscriber {s' : Subscriber} (ht : t.Sound) (hs : t.subscriber = some s)
    (hrx : s'.rx ≤ t.sup.world.events.length) (hposting : ∀ rx look, s' = .post rx look → t.Seen look)
    (hfresh : t.Fresh → { t with subscriber := some s' }.Fresh)
    (hpost : s.WillPost t.sup.world → s'.WillPost t.sup.world ∨ t.posted ≠ []) :
    ({ t with subscriber := some s' } : MenuBar).Sound :=
  { ht with
    built := fun _ => ht.built (by rw [hs]; rfl)
    rx := fun s₁ heq => by
      cases heq
      exact hrx
    posting := fun rx look heq => hposting rx look (Option.some.inj heq)
    fresh := fun _ => hfresh (ht.fresh (by rw [hs]; rfl))
    settling := by
      rcases ht.settling with hidle | hposted | ⟨s₁, hs₁, hb⟩ | hjob
      · exact .inl hidle
      · exact .inr (.inl hposted)
      · rw [hs] at hs₁
        cases hs₁
        rcases hpost hb with hp | hp
        · exact .inr (.inr (.inl ⟨s', rfl, hp⟩))
        · exact .inr (.inl hp)
      · exact .inr (.inr (.inr hjob)) }

/-- The subscriber goes on to a place before its next look. -/
theorem sound_beforeLook {s' : Subscriber} (ht : t.Sound) (hs : t.subscriber = some s)
    (hrx : s'.rx ≤ t.sup.world.events.length) (hlook : ∀ w, s'.WillLook w) (hnot : ∀ rx look, s' ≠ .post rx look) :
    ({ t with subscriber := some s' } : MenuBar).Sound := by
  refine sound_setSubscriber ht hs hrx (fun rx look heq => absurd heq (hnot rx look)) ?_ ?_
  · exact fun _ => .inr (.inr (.inr ⟨s', rfl, hlook _⟩))
  · intro _
    left
    have h := hlook t.sup.world
    cases s' with
    | post rx look => exact absurd rfl (hnot rx look)
    | recv | name | resolve | look => exact h

/-- **A step of the subscriber.** -/
theorem sound_subscriberStep {p : MenuBar × Subscriber} (ht : t.Sound) (hs : t.subscriber = some s)
    (h : t.subscriberStep s = some p) : ({ p.1 with subscriber := some p.2 } : MenuBar).Sound := by
  have hle := ht.rx s hs
  cases s with
  | recv rx =>
      simp only [MenuBar.subscriberStep] at h
      split at h
      next event rx' hrecv =>
        cases h
        obtain ⟨he, rfl⟩ := recv_eq_event hrecv
        obtain ⟨hlt, -⟩ := List.getElem?_eq_some_iff.mp he
        cases event with
        | stateChanged id state detail =>
            exact sound_beforeLook ht hs hlt (fun _ => trivial) fun _ _ => nofun
        | registered status => exact sound_beforeLook ht hs hlt (fun _ => trivial) fun _ _ => nofun
        | unregistered id => exact sound_beforeLook ht hs hlt (fun _ => trivial) fun _ _ => nofun
        | log id line =>
            refine sound_setSubscriber ht hs hlt (fun _ _ heq => nomatch heq) ?_ ?_
            · rintro (hdrawn | hposted | ⟨_, _, heq, -⟩ | ⟨s₁, hs₁, hlook⟩)
              · exact .inl hdrawn
              · exact .inr (.inl hposted)
              · rw [hs] at heq
                cases heq
              · rw [hs] at hs₁
                cases hs₁
                exact .inr (.inr (.inr ⟨_, rfl, stirring_of_log he rfl hlook⟩))
            · exact fun hst => .inl (stirring_of_log he rfl hst)
      next rx' hrecv =>
        cases h
        refine sound_beforeLook ht hs ?_ (fun _ => trivial) fun _ _ => nofun
        exact recv_lagged_le hrecv
      next => cases h
  | name rx id state =>
      cases h
      exact sound_beforeLook ht hs hle (fun _ => trivial) fun _ _ => nofun
  | resolve rx id state name =>
      cases h
      have hresolved : (t.resolve (rx - 1) id state name).Sound := { ht with }
      exact sound_beforeLook hresolved hs hle (fun _ => trivial) fun _ _ => nofun
  | look rx =>
      cases h
      refine sound_setSubscriber ht hs hle (fun rx' l heq => ?_) (fun _ => ?_) fun _ => .inl trivial
      · cases heq
        exact seen_takeLook ht.listing
      · exact .inr (.inr (.inl ⟨rx, _, rfl, rfl⟩))
  | post rx look =>
      cases h
      obtain ⟨hd, hhd⟩ := Option.isSome_iff_exists.mp (ht.built (by rw [hs]; rfl))
      obtain ⟨hsound, -⟩ := sound_refresh ht (ht.posting rx look hs)
      have hposted : t.refreshTrayIfBuilt look = { t with posted := t.posted ++ [look] } := by
        unfold MenuBar.refreshTrayIfBuilt
        rw [hhd]
      rw [hposted] at hsound ⊢
      refine sound_setSubscriber hsound hs hle (fun _ _ heq => nomatch heq) ?_ fun _ => .inr (by simp)
      rintro (hdrawn | hposted | ⟨rx', l, heq, hl⟩ | ⟨s₁, hs₁, hlook⟩)
      · exact .inl hdrawn
      · exact .inr (.inl hposted)
      · rw [hs] at heq
        cases heq
        exact .inr (.inl ⟨look, by simp, hl⟩)
      · rw [hs] at hs₁
        cases hs₁
        exact .inr (.inr (.inr ⟨.recv rx, rfl, hlook⟩))

/-- **A closure runs.** -/
theorem sound_main {i : Nat} {h : Handle} (ht : t.Sound) (hlook : t.posted[i]? = some look)
    (hh : t.handle = some h) (hnewer : h.look.moment ≤ look.moment) :
    ({ t with posted := t.posted.eraseIdx i }.redraw h look).Sound := by
  have hseen := ht.posted look (List.mem_of_getElem? hlook)
  obtain ⟨hold, hmodel, hmenu⟩ := ht.drawn h hh
  refine { ht with built := fun _ => rfl, drawn := ?_, posted := ?_, fresh := ?_, settling := ?_ }
  · intro h' heq
    cases heq
    refine ⟨hseen, rfl, ?_⟩
    -- the menu shows the last model, so it is brought to the new one
    show apply h.lastModel _ h.menu = _
    rw [hmenu]
    apply apply_drawn
    · rw [hmodel, ids_trayModel]
      exact hold.1
    · rw [ids_trayModel]
      exact hseen.1
  · exact fun l hl => ht.posted l (List.mem_of_mem_eraseIdx hl)
  · intro hsome
    have hcurrent : look.moment = t.moment →
        ({ t with posted := t.posted.eraseIdx i }.redraw h look).Fresh := by
      refine fun hm => .inl fun h' heq => ?_
      cases heq
      exact hm
    rcases ht.fresh hsome with hdrawn | ⟨l, hl, hm⟩ | hrest
    · exact hcurrent (Nat.le_antisymm hseen.2.1 (hdrawn h hh ▸ hnewer))
    · obtain ⟨n, hn⟩ := List.mem_iff_getElem?.mp hl
      by_cases hni : n = i
      · subst hni
        rw [hlook] at hn
        cases hn
        exact hcurrent hm
      · refine .inr (.inl ⟨l, List.mem_eraseIdx_iff_getElem?.mpr ⟨n, hni, hn⟩, hm⟩)
    · exact .inr (.inr hrest)
  · cases hlock : t.bulkLock with
    | false =>
        refine .inl fun h' heq => ?_
        cases heq
        simp [MenuBar.probeBulkState]
    | true =>
        obtain ⟨k, j, hj, hholds⟩ := ht.held hlock
        exact .inr (.inr (.inr ⟨k, j, hj, busy_of_holds hholds⟩))

theorem sound_addJob (ht : t.Sound) (hlook : j.look? = none) : (t.addJob j).Sound := by
  have hnone := ht.newJob t.nextJob (Nat.le_refl _)
  have hnext : ({ t with nextJob := t.nextJob + 1 } : MenuBar).Sound :=
    { ht with newJob := fun i hi => ht.newJob i (Nat.le_of_succ_le hi) }
  have hne : ∀ {i j₁}, t.jobs i = some j₁ → i ≠ t.nextJob := by
    rintro i j₁ hi rfl
    rw [hnone] at hi
    cases hi
  refine { core_setJob hnext.toCore (Nat.lt_succ_self _) ?_ with held := ?_, settling := ?_ }
  · intro l hl
    rw [hlook] at hl
    cases hl
  · intro hlock
    obtain ⟨i, j₁, hi, hh⟩ := ht.held hlock
    exact ⟨i, j₁, (jobs_setJob_of_ne (hne hi)).trans hi, hh⟩
  · rcases ht.settling with hidle | hposted | hsub | ⟨i, j₁, hi, hb⟩
    · exact .inl hidle
    · exact .inr (.inl hposted)
    · exact .inr (.inr (.inl hsub))
    · exact .inr (.inr (.inr ⟨i, j₁, (jobs_setJob_of_ne (hne hi)).trans hi, hb⟩))

/-- **What every timely step keeps.** -/
theorem sound_next {turn : Turn} (ht : t.Sound) (htimely : Timely t turn) (h : t.next turn = some t') :
    t'.Sound := by
  cases turn with
  | supervisor action => exact sound_step ht h
  | build =>
      simp only [MenuBar.next] at h
      split at h
      next hnone =>
        cases h
        have hsub : t.subscriber.isSome = true → False := by
          intro hsome
          have hbuilt := ht.built hsome
          rw [hnone] at hbuilt
          cases hbuilt
        refine { ht with built := fun _ => rfl, drawn := ?_, fresh := fun hs => (hsub hs).elim, settling := ?_ }
        · intro hd heq
          cases heq
          exact ⟨seen_takeLook ht.listing, rfl, rfl⟩
        · refine .inl fun hd heq => ?_
          cases heq
          rfl
      next => cases h
  | subscribe =>
      simp only [MenuBar.next] at h
      split at h
      next hd hbuilt hnone =>
        cases h
        refine { ht with
          built := fun _ => by simp [hbuilt]
          rx := ?_
          posting := fun _ _ heq => nomatch heq
          fresh := fun _ => .inl htimely
          settling := ?_ }
        · intro s heq
          cases heq
          exact Nat.le_refl _
        · rcases ht.settling with hidle | hposted | ⟨s, hs, -⟩ | hjob
          · exact .inl hidle
          · exact .inr (.inl hposted)
          · rw [hnone] at hs
            cases hs
          · exact .inr (.inr (.inr hjob))
      next => cases h
  | subscriber =>
      obtain ⟨s, hs, h⟩ := Option.bind_eq_some_iff.mp h
      obtain ⟨p, hstep, h⟩ := Option.bind_eq_some_iff.mp h
      cases h
      exact sound_subscriberStep ht hs hstep
  | main i =>
      obtain ⟨look, hlook, h⟩ := Option.bind_eq_some_iff.mp h
      obtain ⟨hd, hh, h⟩ := Option.bind_eq_some_iff.mp h
      cases h
      exact sound_main ht hlook hh (htimely look hd hlook hh)
  | click id =>
      simp only [MenuBar.next, Option.ite_none_right_eq_some, Option.some.injEq] at h
      obtain ⟨-, rfl⟩ := h
      exact sound_addJob ht rfl
  | bulk b =>
      simp only [MenuBar.next, Option.ite_none_right_eq_some, Option.some.injEq] at h
      obtain ⟨-, rfl⟩ := h
      exact sound_addJob ht rfl
  | job k answer =>
      obtain ⟨j, hj, h⟩ := Option.bind_eq_some_iff.mp h
      obtain ⟨p, hstep, h⟩ := Option.bind_eq_some_iff.mp h
      cases h
      exact sound_jobStep ht hj htimely hstep
  | lockApply =>
      simp only [MenuBar.next, Option.ite_none_left_eq_some, Option.some.injEq] at h
      obtain ⟨-, rfl⟩ := h
      exact { ht with }
  | unlockApply =>
      simp only [MenuBar.next, Option.ite_none_right_eq_some, Option.some.injEq] at h
      obtain ⟨-, rfl⟩ := h
      exact { ht with }

theorem sound_of_initial (h : t.Initial) : t.Sound := by
  have hreach : Proc.supervisor.Reachable t.sup.world := .init h.world
  exact
    { listing := Listing.sound_of_initial h.world h.ids
      proc := Proc.sound_of_reachable hreach
      calls := fun k _ => h.world.2.2.1 k
      built := fun hs => by rw [h.subscriber] at hs; cases hs
      rx := fun s hs => by rw [h.subscriber] at hs; cases hs
      drawn := fun hd hh => by rw [h.handle] at hh; cases hh
      posted := fun l hl => by rw [h.posted] at hl; cases hl
      posting := fun rx l hl => by rw [h.subscriber] at hl; cases hl
      looks := fun k j l hj => by rw [h.jobs k] at hj; cases hj
      newJob := fun k _ => h.jobs k
      fresh := fun hs => by rw [h.subscriber] at hs; cases hs
      held := fun hlock => by rw [h.bulkLock] at hlock; cases hlock
      settling := .inl fun hd hh => by rw [h.handle] at hh; cases hh }

theorem sound_of_reaches (h : tray.Reaches Timely t) : t.Sound :=
  h.invariant (fun _ => sound_of_initial) fun _ _ _ ht hok hn => sound_next ht hok hn

/-- **The tray converges** in every run whose steps are timely: once every event was
broadcast and received, every closure has run and no bulk action is in progress, the menu
shows the supervisor's snapshot with no bulk action in progress. -/
theorem tray_converges (h : tray.Reaches Timely t) (hrest : t.AtRest) :
    ∃ hd, t.handle = some hd ∧ hd.menu = trayModel t.sup.snapshot .idle := by
  have ht := sound_of_reaches h
  obtain ⟨hbroadcast, hreceived, hrun, hnoBulk⟩ := hrest
  obtain ⟨hd, hhd⟩ := Option.isSome_iff_exists.mp (ht.built (by rw [hreceived]; rfl))
  obtain ⟨hseen, hmodel, hmenu⟩ := ht.drawn hd hhd
  refine ⟨hd, hhd, ?_⟩
  have hstill : ¬ Stirring t.sup.world t.sup.world.events.length := by
    rintro (⟨e, he, -⟩ | ⟨b, hb⟩)
    · rw [List.drop_length] at he
      cases he
    · exact hb (hbroadcast b)
  have hfresh : hd.look.moment = t.moment := by
    rcases ht.fresh (by rw [hreceived]; rfl) with hdrawn | ⟨l, hl, -⟩ | ⟨rx, l, heq, -⟩ | ⟨s, hs, hlook⟩
    · exact hdrawn hd hhd
    · rw [hrun] at hl
      cases hl
    · rw [hreceived] at heq
      cases heq
    · rw [hreceived] at hs
      cases hs
      exact absurd hlook hstill
  have hidle : hd.bulk = .idle := by
    rcases ht.settling with hidle | hposted | ⟨s, hs, hpost⟩ | ⟨k, j, hj, hbusy⟩
    · exact hidle hd hhd
    · exact absurd hrun hposted
    · rw [hreceived] at hs
      cases hs
      exact absurd hpost hstill
    · have hbulk := inBulk_of_busy hbusy
      rw [hnoBulk k j hj] at hbulk
      cases hbulk
  rw [hmenu, hmodel, hidle]
  exact trayModel_congr (hseen.2.2 hfresh) .idle

/-! ### Runs -/

/-- A check for `Timely`. -/
def timelyNow (t : MenuBar) : Turn → Bool
  | .main i =>
      match t.posted[i]?, t.handle with
      | some look, some h => decide (h.look.moment ≤ look.moment)
      | _, _ => true
  | .subscribe => t.handle.all fun h => decide (h.look.moment = t.moment)
  | .job _ _ => t.handle.all fun h => decide (h.bulk = .idle)
  | _ => true

theorem timely_of_timelyNow {turn : Turn} (h : timelyNow t turn = true) : Timely t turn := by
  cases turn with
  | main i =>
      intro look hd hlook hhd
      simpa [timelyNow, hlook, hhd] using h
  | subscribe =>
      intro hd hhd
      simpa [timelyNow, hhd] using h
  | job k answer =>
      refine fun _ => .inl fun hd hhd => ?_
      simpa [timelyNow, hhd] using h
  | supervisor | build | subscriber | click | bulk | lockApply | unlockApply => trivial

/-- What a check for rest relies on. -/
structure MenuBar.Named (t : MenuBar) : Prop where
  proc : Proc.Sound t.sup.world
  calls : Proc.CallsFresh t.sup.world
  newJob : ∀ k, t.nextJob ≤ k → t.jobs k = none

theorem named_step {action : Proc.Action} (ht : t.Named) (h : t.step action = some t') :
    t'.Named ∧ t'.jobs = t.jobs ∧ t'.nextJob = t.nextJob := by
  obtain ⟨sup, hsup, rfl⟩ := Option.map_eq_some_iff.mp h
  have hw := Listing.next_world hsup
  exact ⟨⟨Proc.sound_next ht.proc hw, Proc.callsFresh_next ht.calls hw, ht.newJob⟩, rfl, rfl⟩

theorem named_call {c : Proc.Call} {p : MenuBar × Proc.CallId} (ht : t.Named) (h : t.call c = some p) :
    p.1.Named ∧ p.1.jobs = t.jobs ∧ p.1.nextJob = t.nextJob := by
  obtain ⟨t₁, hstep, rfl⟩ := Option.map_eq_some_iff.mp h
  exact named_step ht hstep

theorem subscriberStep_frame {p : MenuBar × Subscriber} (h : t.subscriberStep s = some p) :
    p.1.sup = t.sup ∧ p.1.jobs = t.jobs ∧ p.1.nextJob = t.nextJob := by
  cases s with
  | recv rx =>
      simp only [MenuBar.subscriberStep] at h
      split at h
      · cases h
        exact ⟨rfl, rfl, rfl⟩
      · cases h
        exact ⟨rfl, rfl, rfl⟩
      · cases h
  | name | look =>
      cases h
      exact ⟨rfl, rfl, rfl⟩
  | resolve rx id state name =>
      cases h
      exact ⟨rfl, rfl, rfl⟩
  | post rx look =>
      cases h
      unfold MenuBar.refreshTrayIfBuilt
      split <;> exact ⟨rfl, rfl, rfl⟩

theorem named_jobMove (ht : t.Named) (h : JobMove t j t' j') :
    t'.Named ∧ t'.jobs = t.jobs ∧ t'.nextJob = t.nextJob := by
  cases h with
  | own | mark => exact ⟨{ ht with }, rfl, rfl⟩
  | stop id hcall => exact named_call ht hcall
  | start id hcall =>
      obtain ⟨p₁, hcall₁, rfl⟩ := Option.map_eq_some_iff.mp hcall
      obtain ⟨hnamed, hrest⟩ := named_call ht hcall₁
      exact ⟨{ hnamed with }, hrest⟩

theorem named_setJob (ht : t.Named) (hk : k < t.nextJob) : (t.setJob k j).Named :=
  { ht with
    newJob := by
      intro i hi
      have hne : i ≠ k := fun heq => absurd hk (Nat.not_lt.mpr (heq ▸ hi))
      rw [jobs_setJob_of_ne hne]
      exact ht.newJob i hi }

theorem named_addJob (ht : t.Named) : (t.addJob j).Named := by
  have hnext : ({ t with nextJob := t.nextJob + 1 } : MenuBar).Named :=
    { ht with newJob := fun i hi => ht.newJob i (Nat.le_of_succ_le hi) }
  exact named_setJob hnext (Nat.lt_succ_self _)

theorem named_next {turn : Turn} (ht : t.Named) (h : t.next turn = some t') : t'.Named := by
  cases turn with
  | supervisor action => exact (named_step ht h).1
  | build | subscribe =>
      simp only [MenuBar.next] at h
      split at h
      · cases h
        exact { ht with }
      · cases h
  | subscriber =>
      obtain ⟨s, -, h⟩ := Option.bind_eq_some_iff.mp h
      obtain ⟨p, hstep, h⟩ := Option.bind_eq_some_iff.mp h
      cases h
      obtain ⟨hsup, hjobs, hnext⟩ := subscriberStep_frame hstep
      exact ⟨hsup ▸ ht.proc, hsup ▸ ht.calls, fun i hi => (congrFun hjobs i).trans (ht.newJob i (hnext ▸ hi))⟩
  | main i =>
      obtain ⟨look, -, h⟩ := Option.bind_eq_some_iff.mp h
      obtain ⟨hd, -, h⟩ := Option.bind_eq_some_iff.mp h
      cases h
      exact { ht with }
  | click id | bulk b =>
      simp only [MenuBar.next, Option.ite_none_right_eq_some, Option.some.injEq] at h
      obtain ⟨-, rfl⟩ := h
      exact named_addJob ht
  | job k answer =>
      obtain ⟨j, hj, h⟩ := Option.bind_eq_some_iff.mp h
      obtain ⟨p, hstep, h⟩ := Option.bind_eq_some_iff.mp h
      cases h
      obtain ⟨hnamed, -, hnext⟩ := named_jobMove ht (jobStep_cases hstep)
      refine named_setJob hnamed (hnext ▸ ?_)
      by_contra hle
      rw [ht.newJob k (Nat.le_of_not_lt hle)] at hj
      cases hj
  | lockApply =>
      simp only [MenuBar.next, Option.ite_none_left_eq_some, Option.some.injEq] at h
      obtain ⟨-, rfl⟩ := h
      exact { ht with }
  | unlockApply =>
      simp only [MenuBar.next, Option.ite_none_right_eq_some, Option.some.injEq] at h
      obtain ⟨-, rfl⟩ := h
      exact { ht with }

/-- A check for `AtRest`. -/
def MenuBar.restsNow (t : MenuBar) : Bool :=
  t.sup.world.quietNow && decide (t.subscriber = some (.recv t.sup.world.events.length)) &&
    decide (t.posted = []) && (List.range t.nextJob).all fun k => (t.jobs k).all fun j => !j.inBulk

theorem atRest_of_restsNow (ht : t.Named) (h : t.restsNow = true) : t.AtRest := by
  simp only [MenuBar.restsNow, Bool.and_eq_true, decide_eq_true_eq] at h
  obtain ⟨⟨⟨hquiet, hreceived⟩, hrun⟩, hjobs⟩ := h
  refine ⟨Proc.settled_of_quietNow ht.proc ht.calls hquiet, hreceived, hrun, fun k j hj => ?_⟩
  have hk : k < t.nextJob := by
    by_contra hle
    rw [ht.newJob k (Nat.le_of_not_lt hle)] at hj
    cases hj
  simpa [hj] using List.all_eq_true.mp hjobs k (List.mem_range.mpr hk)

/-- No services, and no tray yet. -/
def unbuilt : MenuBar :=
  { sup := ⟨.new, []⟩
    moment := 0
    handle := none
    subscriber := none
    posted := []
    bulkLock := false
    applyLock := false
    applying := false
    jobs := fun _ => none
    nextJob := 0
    tracked := []
    dialogs := []
    sources := []
    starts := []
    own := [] }

theorem initial_unbuilt : unbuilt.Initial :=
  ⟨Proc.initial_new, rfl, rfl, rfl, rfl, rfl, fun _ => rfl, rfl, rfl, rfl, rfl, rfl⟩

theorem named_unbuilt : unbuilt.Named :=
  ⟨Proc.sound_of_reachable (.init Proc.initial_new), fun _ _ => rfl, fun _ _ => rfl⟩

/-- A service is registered, and the tray is built. -/
def builtTray : List Turn :=
  (Proc.callThrough 0 (.register (Proc.sampleSpec "web")) 2).map .supervisor ++ [.build, .subscribe]

/-- Another client starts the service, which comes up. -/
def cameUp : List Turn := (Proc.callThrough 1 (.start "web") 5 ++ Proc.upToRunning 0 7).map .supervisor

/-- The subscriber hears of that, and the main thread draws it. -/
def drawnUp : List Turn := List.replicate 13 .subscriber ++ [.main 0, .main 0]

theorem tray_converges_up :
    ∃ t : MenuBar, (t.sup.snapshot.map ServiceStatus.state = [.running]) ∧
      ∃ hd, t.handle = some hd ∧ hd.menu = trayModel t.sup.snapshot .idle := by
  obtain ⟨t, hreach, ht, hp⟩ := Lts.System.exists_of_execWhile (S := tray) (I := MenuBar.Named) timelyNow
    (builtTray ++ cameUp ++ drawnUp)
    (fun t => t.restsNow && decide (t.sup.snapshot.map ServiceStatus.state = [.running]))
    (fun _ _ _ ht hn => named_next ht hn) (fun _ _ _ => timely_of_timelyNow) (.init initial_unbuilt)
    named_unbuilt (by decide +kernel)
  simp only [Bool.and_eq_true, decide_eq_true_eq] at hp
  exact ⟨t, hp.2, tray_converges hreach (atRest_of_restsNow ht hp.1)⟩

/-- So many steps of a job. -/
def jobSteps (k n : Nat) : List Turn := List.replicate n (.job k .go)

/-- A task that is asked to stop, its child's exit, and all it writes and broadcasts then. -/
def goesDown : List Proc.Action := [.task 0 .received] ++ Proc.upToLastWrite 0 ++ [.task 0 .go]

/-- The service runs. The control socket stops it, and the menu is redrawn for that before
`stop_all` looks again and gives its locks back. -/
def stoppedByControl : List Turn :=
  builtTray ++ cameUp ++ drawnUp ++ [.bulk .control] ++ jobSteps 0 5 ++
    List.replicate 4 (.supervisor (.caller 2)) ++ jobSteps 0 2 ++ goesDown.map .supervisor ++
    List.replicate 7 .subscriber ++ [.main 0] ++ jobSteps 0 6

/-- A run of the tray that ends at rest with a menu that is not the snapshot's. -/
theorem not_converging (turns : List Turn)
    (h : (tray.execWhile (fun _ _ => true) unbuilt turns).any (fun t => t.restsNow &&
      t.handle.all fun hd => decide (hd.menu ≠ trayModel t.sup.snapshot .idle)) = true) :
    ¬ ∀ t, tray.Reachable t → t.AtRest →
      ∃ hd, t.handle = some hd ∧ hd.menu = trayModel t.sup.snapshot .idle := by
  intro hall
  obtain ⟨t, hreach, ht, hp⟩ := Lts.System.exists_of_execWhile (S := tray) (I := MenuBar.Named)
    (fun _ _ => true) turns _ (fun _ _ _ ht hn => named_next ht hn) (fun _ _ _ _ => trivial)
    (.init initial_unbuilt) named_unbuilt h
  rw [Bool.and_eq_true] at hp
  obtain ⟨hd, hhd, hmenu⟩ := hall t hreach (atRest_of_restsNow ht hp.1)
  have hstale := hp.2
  rw [hhd] at hstale
  exact absurd hmenu (by simpa using hstale)

/-- **Bulk rows that stay disabled**: the service is stopped, nothing is under way, and the
menu still has a bulk action in progress. -/
theorem wedged_bulk_rows :
    ¬ ∀ t, tray.Reachable t → t.AtRest →
      ∃ hd, t.handle = some hd ∧ hd.menu = trayModel t.sup.snapshot .idle :=
  not_converging stoppedByControl (by decide +kernel)

/-- The tray's Stop-all is done and takes its last snapshot. Before it posts that, another
client starts the service, and the menu is redrawn for it. -/
def overtakenPost : List Turn :=
  builtTray ++ [.bulk .stopAll] ++ jobSteps 0 10 ++ cameUp ++ drawnUp ++ [.main 0] ++ jobSteps 0 1 ++
    [.main 0]

/-- **An overtaken closure**: the service runs, and the menu has it stopped. -/
theorem overtaken_closure :
    ¬ ∀ t, tray.Reachable t → t.AtRest →
      ∃ hd, t.handle = some hd ∧ hd.menu = trayModel t.sup.snapshot .idle :=
  not_converging overtakenPost (by decide +kernel)

end Converge

end OpenVHost.Tray
