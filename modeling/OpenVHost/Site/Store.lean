/-
# The site store is a finite map

The calls on the repository against the operations of a finite map from ids to sites. A
row is read back by the parsers of the columns that it was written from, so what a table
holds is the rows of sites.

* `Allows` — what the map's operations return and leave.
* `Stands` — the update is of a site that the store holds, with its creation time.
* `store_is_map`, `update_of_a_deleted_site` — the store with and without the condition.
-/

import OpenVHost.Site.Repo
import Mathlib.Data.Set.Finite.Basic

namespace OpenVHost.Site

open Sql (Schema)

section Map

variable [Uuid]

/-! ### The map of a table -/

abbrev SiteMap := List Char → Option StoredSite

/-- What the rows of a table say. -/
def siteMap (t : Table) : SiteMap := fun id =>
  (sites.lookup t .id id).bind fun r => r.toSite.toOption

/-- A map from ids to sites with pairwise distinct names and domains. -/
structure IsSiteMap (m : SiteMap) : Prop where
  finite : {id | (m id).isSome}.Finite
  id : ∀ {id s}, m id = some s → s.id.asStr = id
  name : ∀ {id id' s s'}, m id = some s → m id' = some s' → s.name.asStr = s'.name.asStr → id = id'
  domain : ∀ {id id' s s'}, m id = some s → m id' = some s' → s.domain.asStr = s'.domain.asStr →
    id = id'

/-- Another site has the name or the domain. -/
def Taken (m : SiteMap) (id name domain : List Char) : Prop :=
  ∃ id' s, id' ≠ id ∧ m id' = some s ∧ (s.name.asStr = name ∨ s.domain.asStr = domain)

/-- **The specification**: what a call may return where the map is `m`, and the map after
it. A call fails if the database does, and a write also if it repeats an id, a name or a
domain. -/
inductive Allows (m : SiteMap) : Call → Outcome → SiteMap → Prop where
  | created {new id ts} (hid : m id.asStr = none)
      (hfree : ¬ Taken m id.asStr new.name.asStr new.domain.asStr) :
      Allows m (.create new id ts none) (.site (.ok (new.stamp id ts)))
        (Function.update m id.asStr (some (new.stamp id ts)))
  | createFailed {new id ts fault e}
      (hwhy : fault ≠ none ∨ m id.asStr ≠ none ∨
        Taken m id.asStr new.name.asStr new.domain.asStr) :
      Allows m (.create new id ts fault) (.site (.error e)) m
  | got {id} : Allows m (.get id none) (.found (.ok (m id.asStr))) m
  | getFailed {id fault e} : Allows m (.get id (some fault)) (.found (.error e)) m
  | listed {l} (hsorted : l.Pairwise fun s s' => s.name.asStr ≤ s'.name.asStr)
      (hnodup : (l.map fun s => s.id.asStr).Nodup) (hmem : ∀ s, s ∈ l ↔ m s.id.asStr = some s) :
      Allows m (.list none) (.listed (.ok l)) m
  | listFailed {fault e} : Allows m (.list (some fault)) (.listed (.error e)) m
  | updated {site ts old} (hold : m site.id.asStr = some old)
      (hfree : ¬ Taken m site.id.asStr site.name.asStr site.domain.asStr) :
      Allows m (.update site ts none) (.site (.ok { site with updatedAt := ts }))
        (Function.update m site.id.asStr (some { site with updatedAt := ts }))
  | updateFailed {site ts fault e}
      (hwhy : fault ≠ none ∨ Taken m site.id.asStr site.name.asStr site.domain.asStr) :
      Allows m (.update site ts fault) (.site (.error e)) m
  | deleted {id} : Allows m (.delete id none) (.deleted (.ok (m id.asStr).isSome))
      (Function.update m id.asStr none)
  | deleteFailed {id fault e} : Allows m (.delete id (some fault)) (.deleted (.error e)) m

/-! ### Rows of sites -/

variable {t t' : Table} {s : StoredSite} {r : SiteRow} {id : List Char}

omit [Uuid] in
theorem WebServer.parse_asStr (w : WebServer) : WebServer.parse w.asStr = .ok w := by
  cases w with
  | nginx => rfl
  | apache => rfl

/-- What was written for a site is read back as it was. -/
theorem toSite_toRow (s : StoredSite) : s.toRow.toSite = .ok s := by
  obtain ⟨⟨⟨id, hid⟩, ⟨name, hname⟩, ⟨domain, hdomain⟩, ⟨docroot, hdocroot⟩, webServer,
    ⟨phpVersion, hphp⟩, enabled⟩, createdAt, updatedAt⟩ := s
  simp only [SiteRow.toSite, StoredSite.toRow, SiteId.parse, SiteName.parse, Domain.parse,
    Docroot.parse, PhpVersion.parse, hid, hname, hdomain, hdocroot, hphp, WebServer.parse_asStr,
    ↓reduceDIte]
  cases enabled <;> rfl

theorem toRow_injective : Function.Injective (StoredSite.toRow) := by
  intro s s' h
  have hs := toSite_toRow s
  rw [h, toSite_toRow] at hs
  exact (Except.ok.inj hs).symm

/-- A table that the repository has written. -/
structure Stored (t : Table) : Prop where
  distinct : sites.Distinct t
  parsed : ∀ r ∈ t, ∃ s : StoredSite, r = s.toRow

theorem Stored.ids (h : Stored t) : (t.map (sites.value .id)).Nodup :=
  h.distinct .id (by simp [sites])

theorem siteMap_eq_some (h : Stored t) :
    siteMap t id = some s ↔ s.toRow ∈ t ∧ s.id.asStr = id := by
  rw [siteMap, Option.bind_eq_some_iff]
  constructor
  · rintro ⟨r, hr, hs⟩
    rw [Schema.lookup_eq_some h.ids] at hr
    obtain ⟨hmem, hid⟩ := hr
    obtain ⟨s', rfl⟩ := h.parsed r hmem
    rw [toSite_toRow] at hs
    cases hs
    exact ⟨hmem, hid⟩
  · rintro ⟨hmem, hid⟩
    exact ⟨s.toRow, (Schema.lookup_eq_some h.ids).mpr ⟨hmem, hid⟩, by rw [toSite_toRow]; rfl⟩

theorem siteMap_eq_none (h : Stored t) :
    siteMap t id = none ↔ ∀ r ∈ t, r.id ≠ id := by
  constructor
  · rintro hnone r hr rfl
    obtain ⟨s, rfl⟩ := h.parsed r hr
    have hsome : siteMap t s.toRow.id = some s := (siteMap_eq_some h).mpr ⟨hr, rfl⟩
    rw [hsome] at hnone
    cases hnone
  · intro hne
    rw [siteMap, Schema.lookup_eq_none.mpr hne]
    rfl

/-- Two rows with the same value in a unique column are one. -/
theorem Stored.unique (h : Stored t) {c : Column} {s s' : StoredSite} (hs : s.toRow ∈ t)
    (hs' : s'.toRow ∈ t) (heq : s.toRow.column c = s'.toRow.column c) : s = s' := by
  have hc : c ∈ sites.unique := by cases c <;> simp [sites]
  exact toRow_injective (List.inj_on_of_nodup_map (h.distinct c hc) hs hs' heq)

theorem isSiteMap (h : Stored t) : IsSiteMap (siteMap t) := by
  constructor
  · refine (t.map SiteRow.id).finite_toSet.subset fun id hid => ?_
    obtain ⟨s, hs⟩ := Option.isSome_iff_exists.mp hid
    obtain ⟨hmem, rfl⟩ := (siteMap_eq_some h).mp hs
    exact List.mem_map.mpr ⟨_, hmem, rfl⟩
  · intro id s hs
    exact ((siteMap_eq_some h).mp hs).2
  · intro id id' s s' hs hs' heq
    obtain ⟨hmem, rfl⟩ := (siteMap_eq_some h).mp hs
    obtain ⟨hmem', rfl⟩ := (siteMap_eq_some h).mp hs'
    rw [h.unique (c := .name) hmem hmem' heq]
  · intro id id' s s' hs hs' heq
    obtain ⟨hmem, rfl⟩ := (siteMap_eq_some h).mp hs
    obtain ⟨hmem', rfl⟩ := (siteMap_eq_some h).mp hs'
    rw [h.unique (c := .domain) hmem hmem' heq]

/-! ### What each statement leaves -/

omit [Uuid] in
theorem mem_sites_unique (c : Column) : c ∈ sites.unique := by
  cases c <;> simp [sites]

/-- A row is new if its id is, and its name and domain are no other site's. -/
theorem distinct_concat (h : Stored t) (s : StoredSite) :
    sites.Distinct (t ++ [s.toRow]) ↔ siteMap t s.id.asStr = none ∧
      ¬ Taken (siteMap t) s.id.asStr s.name.asStr s.domain.asStr := by
  rw [Schema.distinct_concat h.distinct, siteMap_eq_none h]
  constructor
  · intro hne
    refine ⟨hne .id (mem_sites_unique _), ?_⟩
    rintro ⟨id', s', -, hs', hname | hdomain⟩
    · exact hne .name (mem_sites_unique _) _ ((siteMap_eq_some h).mp hs').1 hname
    · exact hne .domain (mem_sites_unique _) _ ((siteMap_eq_some h).mp hs').1 hdomain
  · rintro ⟨hid, hfree⟩ c - r hr heq
    obtain ⟨s', rfl⟩ := h.parsed r hr
    have hs' : siteMap t s'.id.asStr = some s' := (siteMap_eq_some h).mpr ⟨hr, rfl⟩
    cases c with
    | id => exact hid _ hr heq
    | name => exact hfree ⟨_, s', hid _ hr, hs', .inl heq⟩
    | domain => exact hfree ⟨_, s', hid _ hr, hs', .inr heq⟩

theorem siteMap_concat (h : Stored t) (hid : siteMap t s.id.asStr = none) :
    siteMap (t ++ [s.toRow]) = Function.update (siteMap t) s.id.asStr (some s) := by
  have hne := (siteMap_eq_none h).mp hid
  funext id
  rw [siteMap, Schema.lookup_insert (S := sites) hne, Function.update_apply]
  by_cases heq : sites.value .id s.toRow = id
  · have heq' : id = s.id.asStr := heq.symm
    rw [if_pos heq, if_pos heq', Option.bind_some, toSite_toRow]
    rfl
  · have heq' : id ≠ s.id.asStr := Ne.symm heq
    rw [if_neg heq, if_neg heq']
    rfl

theorem Stored.concat (h : Stored t) (hd : sites.Distinct (t ++ [s.toRow])) :
    Stored (t ++ [s.toRow]) := by
  refine ⟨hd, fun r hr => ?_⟩
  obtain hr | hr := List.mem_append.mp hr
  · exact h.parsed r hr
  · exact ⟨s, List.mem_singleton.mp hr⟩

/-- What an update makes of the site that has its id. -/
def StoredSite.overwrite (old site : StoredSite) (ts : Int) : StoredSite :=
  { site with id := old.id, createdAt := old.createdAt, updatedAt := ts }

open SqliteSiteRepository (setColumns)

theorem setColumns_toRow (old site : StoredSite) (ts : Int) :
    setColumns site ts old.toRow = (old.overwrite site ts).toRow := rfl

theorem SiteId.ext {id id' : SiteId} (h : id.asStr = id'.asStr) : id = id' := by
  cases id
  cases id'
  cases h
  rfl

theorem overwrite_eq {old site : StoredSite} (ts : Int) (hid : old.id.asStr = site.id.asStr) :
    old.overwrite site ts = { site with createdAt := old.createdAt, updatedAt := ts } := by
  rw [StoredSite.overwrite, SiteId.ext hid]

/-- The table with the columns of a site set. -/
abbrev overwritten (t : Table) (site : StoredSite) (ts : Int) : Table :=
  t.map fun r => if sites.value .id r = site.id.asStr then setColumns site ts r else r

/-- An update of a site that is there is accepted if its name and domain are no other's. -/
theorem distinct_overwritten {old site : StoredSite} {ts : Int} (h : Stored t)
    (hold : siteMap t site.id.asStr = some old) :
    sites.Distinct (overwritten t site ts) ↔
      ¬ Taken (siteMap t) site.id.asStr site.name.asStr site.domain.asStr := by
  obtain ⟨hmem, hid⟩ := (siteMap_eq_some h).mp hold
  rw [Schema.distinct_update h.distinct (mem_sites_unique .id) hmem hid]
  constructor
  · rintro hne ⟨id', s', hother, hs', htaken⟩
    obtain ⟨hmem', rfl⟩ := (siteMap_eq_some h).mp hs'
    obtain hname | hdomain := htaken
    · exact hne .name (mem_sites_unique _) _ hmem' hother hname
    · exact hne .domain (mem_sites_unique _) _ hmem' hother hdomain
  · rintro hfree c - r hr hother heq
    obtain ⟨s', rfl⟩ := h.parsed r hr
    have hs' : siteMap t s'.id.asStr = some s' := (siteMap_eq_some h).mpr ⟨hr, rfl⟩
    cases c with
    | id => exact hother (heq.trans hid)
    | name => exact hfree ⟨_, s', hother, hs', .inl heq⟩
    | domain => exact hfree ⟨_, s', hother, hs', .inr heq⟩

theorem siteMap_overwritten {old site : StoredSite} {ts : Int} (h : Stored t)
    (hold : siteMap t site.id.asStr = some old) :
    siteMap (overwritten t site ts) = Function.update (siteMap t) site.id.asStr
      (some { site with createdAt := old.createdAt, updatedAt := ts }) := by
  obtain ⟨hmem, hid⟩ := (siteMap_eq_some h).mp hold
  funext id
  rw [siteMap, overwritten, Schema.lookup_update (f := setColumns site ts) (fun _ hr => hr),
    Function.update_apply]
  by_cases heq : id = site.id.asStr
  · have hlookup : sites.lookup t .id site.id.asStr = some old.toRow :=
      (Schema.lookup_eq_some h.ids).mpr ⟨hmem, hid⟩
    rw [if_pos heq, if_pos heq, hlookup, Option.map_some, Option.bind_some, setColumns_toRow,
      toSite_toRow, overwrite_eq ts hid]
    rfl
  · rw [if_neg heq, if_neg heq]
    rfl

/-- An update whose site is not there writes nothing. -/
theorem overwritten_of_none {site : StoredSite} {ts : Int} (h : Stored t)
    (hnone : siteMap t site.id.asStr = none) : overwritten t site ts = t :=
  Schema.map_of_forall_ne ((siteMap_eq_none h).mp hnone)

theorem Stored.overwritten {site : StoredSite} {ts : Int} (h : Stored t)
    (hd : sites.Distinct (Site.overwritten t site ts)) : Stored (Site.overwritten t site ts) := by
  refine ⟨hd, fun r hr => ?_⟩
  obtain ⟨r', hr', rfl⟩ := List.mem_map.mp hr
  obtain ⟨s', rfl⟩ := h.parsed r' hr'
  split
  · exact ⟨_, setColumns_toRow s' site ts⟩
  · exact ⟨s', rfl⟩

theorem Stored.delete (h : Stored t) (id : List Char) : Stored (sites.delete t .id id) :=
  ⟨Schema.distinct_delete h.distinct, fun r hr => h.parsed r (List.mem_filter.mp hr).1⟩

theorem siteMap_delete (t : Table) (id : List Char) :
    siteMap (sites.delete t .id id) = Function.update (siteMap t) id none := by
  funext id'
  rw [siteMap, Schema.lookup_delete, Function.update_apply]
  split <;> rfl

end Map

/-! ### The calls -/

section Calls

variable [Uuid] [Sqlite] {t t' : Table} {s : StoredSite}

/-- The site that a write returns is what is read next. -/
def ReadsBack (t : Table) (c : Call) : Prop :=
  ∀ s, (c.exec t).1 = .site (.ok s) →
    SqliteSiteRepository.get s.id none (c.exec t).2 = .ok (some s) ∧
      ∃ l, SqliteSiteRepository.list none (c.exec t).2 = .ok l ∧ s ∈ l

/-- A call does what the map does, and a site that it returns can be read. -/
def Lawful (t : Table) (c : Call) : Prop :=
  Allows (siteMap t) c (c.exec t).1 (siteMap (c.exec t).2) ∧ ReadsBack t c

/-- An update is of a site that the store holds, created when it says, unless another
site has its name or domain. -/
def Stands (t : Table) : Call → Prop
  | .update site _ none => ∃ old, siteMap t site.id.asStr = some old ∧
      (old.createdAt = site.createdAt ∨
        Taken (siteMap t) site.id.asStr site.name.asStr site.domain.asStr)
  | _ => True

/-! What a write does: it fails and changes nothing, or it is accepted. -/

theorem create_cases (t : Table) (new : NewSite) (id : SiteId) (ts : Int)
    (fault : Option SqlxError) :
    (∃ e, Call.exec (.create new id ts fault) t = (.site (.error e), t) ∧
        (fault ≠ none ∨ ¬ sites.Distinct (t ++ [(new.stamp id ts).toRow]))) ∨
      fault = none ∧ sites.Distinct (t ++ [(new.stamp id ts).toRow]) ∧
        Call.exec (.create new id ts fault) t
          = (.site (.ok (new.stamp id ts)), t ++ [(new.stamp id ts).toRow]) := by
  simp only [Call.exec, SqliteSiteRepository.create]
  cases fault with
  | some e => exact .inl ⟨_, rfl, .inl (by simp)⟩
  | none =>
      cases hi : sites.insert t (new.stamp id ts).toRow with
      | error v =>
          refine .inl ⟨_, rfl, .inr fun hd => ?_⟩
          rw [Schema.insert, Schema.commit_ok.mpr ⟨rfl, hd⟩] at hi
          cases hi
      | ok t' =>
          obtain ⟨rfl, hd⟩ := Schema.commit_ok.mp hi
          exact .inr ⟨rfl, hd, rfl⟩

theorem update_cases (t : Table) (site : StoredSite) (ts : Int) (fault : Option SqlxError) :
    (∃ e, Call.exec (.update site ts fault) t = (.site (.error e), t) ∧
        (fault ≠ none ∨ ¬ sites.Distinct (overwritten t site ts))) ∨
      fault = none ∧ sites.Distinct (overwritten t site ts) ∧
        Call.exec (.update site ts fault) t
          = (.site (.ok { site with updatedAt := ts }), overwritten t site ts) := by
  simp only [Call.exec, SqliteSiteRepository.update]
  cases fault with
  | some e => exact .inl ⟨_, rfl, .inl (by simp)⟩
  | none =>
      cases hu : sites.update t .id site.id.asStr (SqliteSiteRepository.setColumns site ts) with
      | error v =>
          refine .inl ⟨_, rfl, .inr fun hd => ?_⟩
          rw [Schema.update, Schema.commit_ok.mpr ⟨rfl, hd⟩] at hu
          cases hu
      | ok t' =>
          obtain ⟨rfl, hd⟩ := Schema.commit_ok.mp hu
          exact .inr ⟨rfl, hd, rfl⟩

/-- **What is stored are the rows of sites**, whatever the calls. -/
theorem stored_exec (h : Stored t) (c : Call) : Stored (c.exec t).2 := by
  cases c with
  | create new id ts fault =>
      obtain ⟨e, hexec, -⟩ | ⟨-, hd, hexec⟩ := create_cases t new id ts fault
      · rw [hexec]
        exact h
      · rw [hexec]
        exact h.concat hd
  | update site ts fault =>
      obtain ⟨e, hexec, -⟩ | ⟨-, hd, hexec⟩ := update_cases t site ts fault
      · rw [hexec]
        exact h
      · rw [hexec]
        exact h.overwritten hd
  | get => exact h
  | list => exact h
  | delete id fault =>
      cases fault with
      | some e => exact h
      | none => exact h.delete _

theorem stored_of_reachable (h : store.Reachable t) : Stored t :=
  Lts.System.Reaches.invariant
    (fun _ hinit => by
      rw [hinit]
      exact ⟨Schema.distinct_nil, by simp⟩)
    (fun _ c _ hs _ hn => by
      cases hn
      exact stored_exec hs c) h

/-! Reads -/

omit [Sqlite] in
theorem get_eq (h : Stored t) (id : SiteId) :
    SqliteSiteRepository.get id none t = .ok (siteMap t id.asStr) := by
  simp only [SqliteSiteRepository.get, siteMap]
  cases hl : sites.lookup t .id id.asStr with
  | none => rfl
  | some r =>
      obtain ⟨s, rfl⟩ := h.parsed r ((Schema.lookup_eq_some h.ids).mp hl).1
      simp only [Option.bind_some, toSite_toRow]
      rfl

omit [Sqlite] in
theorem mapM'_toSite (h : ∀ r ∈ t, ∃ s : StoredSite, r = s.toRow) :
    ∃ l, t.mapM' SiteRow.toSite = .ok l ∧ l.map StoredSite.toRow = t := by
  induction t with
  | nil => exact ⟨[], rfl, rfl⟩
  | cons r t ih =>
      rw [List.forall_mem_cons] at h
      obtain ⟨⟨s, rfl⟩, ht⟩ := h
      obtain ⟨l, hl, hrows⟩ := ih ht
      exact ⟨s :: l, by rw [List.mapM'_cons, toSite_toRow, hl]; rfl, by rw [List.map_cons, hrows]⟩

omit [Sqlite] in
/-- A listing is the sites of the map, by name. -/
theorem list_eq (h : Stored t) :
    ∃ l, SqliteSiteRepository.list none t = .ok l ∧
      l.Pairwise (fun s s' => s.name.asStr ≤ s'.name.asStr) ∧
      (l.map fun s => s.id.asStr).Nodup ∧ ∀ s, s ∈ l ↔ siteMap t s.id.asStr = some s := by
  have hperm : (SqliteSiteRepository.orderByName t).Perm t := List.perm_insertionSort _ t
  have hsorted : (SqliteSiteRepository.orderByName t).Pairwise fun a b => a.name ≤ b.name := by
    have : Std.Total fun a b : SiteRow => a.name ≤ b.name := ⟨fun a b => le_total _ _⟩
    have : IsTrans SiteRow fun a b => a.name ≤ b.name := ⟨fun a b c => le_trans⟩
    exact List.pairwise_insertionSort _ _
  obtain ⟨l, hl, hrows⟩ := mapM'_toSite fun r hr => h.parsed r (hperm.mem_iff.mp hr)
  refine ⟨l, by rw [SqliteSiteRepository.list, hl]; rfl, ?_, ?_, fun s => ?_⟩
  · rw [← hrows, List.pairwise_map] at hsorted
    exact hsorted
  · have hids := (hperm.map (sites.value .id)).nodup_iff.mpr h.ids
    rw [← hrows, List.map_map] at hids
    exact hids
  · rw [siteMap_eq_some h, and_iff_left rfl, ← hperm.mem_iff, ← hrows]
    exact (List.mem_map_of_injective toRow_injective).symm

/-- What a map holds is what is read. -/
theorem readsBack {c : Call} {t' : Table} (h : Stored t') (hexec : c.exec t = (.site (.ok s), t'))
    (hs : siteMap t' s.id.asStr = some s) : ReadsBack t c := by
  intro s' hs'
  rw [hexec] at hs' ⊢
  cases hs'
  obtain ⟨l, hl, -, -, hmem⟩ := list_eq h
  exact ⟨by rw [get_eq h, hs], l, hl, (hmem s).mpr hs⟩

theorem lawful_create (h : Stored t) (new : NewSite) (id : SiteId) (ts : Int)
    (fault : Option SqlxError) : Lawful t (.create new id ts fault) := by
  have hiff := distinct_concat h (new.stamp id ts)
  obtain ⟨e, hexec, hwhy⟩ | ⟨rfl, hd, hexec⟩ := create_cases t new id ts fault
  · refine ⟨?_, fun s hs => by simp [hexec] at hs⟩
    rw [hexec]
    refine .createFailed (hwhy.imp_right fun hnot => ?_)
    rw [hiff, not_and_not_right] at hnot
    by_cases hid : siteMap t id.asStr = none
    · exact .inr (hnot hid)
    · exact .inl hid
  · obtain ⟨hid, hfree⟩ := hiff.mp hd
    have hmap := siteMap_concat h hid
    constructor
    · rw [hexec]
      dsimp only
      rw [hmap]
      exact .created hid hfree
    · exact readsBack (h.concat hd) hexec (by rw [hmap]; exact Function.update_self ..)

theorem lawful_update (h : Stored t) {site : StoredSite} {ts : Int} {fault : Option SqlxError}
    (hs : Stands t (.update site ts fault)) : Lawful t (.update site ts fault) := by
  obtain ⟨e, hexec, hwhy⟩ | ⟨rfl, hd, hexec⟩ := update_cases t site ts fault
  · refine ⟨?_, fun s hs => by simp [hexec] at hs⟩
    rw [hexec]
    refine .updateFailed ?_
    cases fault with
    | some e => exact .inl (by simp)
    | none =>
        obtain ⟨old, hold, -⟩ := hs
        have hnot := hwhy.resolve_left fun hne => hne rfl
        rw [distinct_overwritten h hold, not_not] at hnot
        exact .inr hnot
  · obtain ⟨old, hold, hsame⟩ := hs
    have hfree := (distinct_overwritten h hold).mp hd
    have hmap : siteMap (overwritten t site ts) = _ := siteMap_overwritten h hold
    rw [hsame.resolve_right hfree] at hmap
    constructor
    · rw [hexec]
      dsimp only
      rw [hmap]
      exact .updated hold hfree
    · exact readsBack (h.overwritten hd) hexec (by rw [hmap]; exact Function.update_self ..)

/-- An update that does what the map does is of a site that is there, as it says. -/
theorem stands_of_lawful (h : Stored t) {site : StoredSite} {ts : Int}
    (hl : Lawful t (.update site ts none)) : Stands t (.update site ts none) := by
  obtain ⟨-, hreads⟩ := hl
  cases hold : siteMap t site.id.asStr with
  | none =>
      -- the statement matches no row and succeeds
      have hsame : overwritten t site ts = t := overwritten_of_none h hold
      obtain ⟨e, -, hwhy⟩ | ⟨-, -, hexec⟩ := update_cases t site ts none
      · rw [hsame] at hwhy
        exact absurd h.distinct (hwhy.resolve_left fun hne => hne rfl)
      · obtain ⟨hget, -⟩ := hreads _ (by rw [hexec])
        rw [hexec, hsame, get_eq h, hold] at hget
        cases hget
  | some old =>
      refine ⟨old, hold, ?_⟩
      obtain ⟨e, -, hwhy⟩ | ⟨-, hd, hexec⟩ := update_cases t site ts none
      · have hnot := hwhy.resolve_left fun hne => hne rfl
        rw [distinct_overwritten h hold, not_not] at hnot
        exact .inr hnot
      · obtain ⟨hget, -⟩ := hreads _ (by rw [hexec])
        rw [hexec, get_eq (h.overwritten hd), siteMap_overwritten h hold] at hget
        simp only [Function.update_self, Except.ok.injEq, Option.some.injEq] at hget
        have hcreated := congrArg StoredSite.createdAt hget
        exact .inl hcreated

theorem lawful_iff (h : Stored t) (c : Call) : Lawful t c ↔ Stands t c := by
  have none_read : ∀ {c : Call}, (∀ s, (c.exec t).1 ≠ .site (.ok s)) → ReadsBack t c :=
    fun hne s hs => absurd hs (hne s)
  cases c with
  | create new id ts fault => exact iff_of_true (lawful_create h new id ts fault) trivial
  | get id fault =>
      refine iff_of_true ⟨?_, none_read fun s hs => by cases hs⟩ trivial
      cases fault with
      | some e => exact .getFailed
      | none =>
          rw [Call.exec, get_eq h]
          exact .got
  | list fault =>
      refine iff_of_true ⟨?_, none_read fun s hs => by cases hs⟩ trivial
      cases fault with
      | some e => exact .listFailed
      | none =>
          obtain ⟨l, hl, hsorted, hnodup, hmem⟩ := list_eq h
          rw [Call.exec, hl]
          exact .listed hsorted hnodup hmem
  | update site ts fault =>
      refine ⟨fun hl => ?_, lawful_update h⟩
      cases fault with
      | some e => trivial
      | none => exact stands_of_lawful h hl
  | delete id fault =>
      refine iff_of_true ⟨?_, none_read fun s hs => by cases fault <;> cases hs⟩ trivial
      cases fault with
      | some e => exact .deleteFailed
      | none =>
          have hsome : (siteMap t id.asStr).isSome
              = decide (t.length - (sites.delete t .id id.asStr).length > 0) := by
            rw [Bool.eq_iff_iff, decide_eq_true_iff, gt_iff_lt, Nat.sub_pos_iff_lt,
              Schema.length_delete_lt, ← not_iff_not, Bool.not_eq_true, Option.isSome_eq_false_iff,
              Option.isNone_iff_eq_none, siteMap_eq_none h]
            push Not
            rfl
          have hallows : Allows (siteMap t) (.delete id none) _ _ := .deleted
          rw [hsome, ← siteMap_delete] at hallows
          exact hallows

/-- **The store is a finite map** of sites with distinct names and domains, whatever the
calls; and a call does what the map does, and returns what is read next, if and only if it
is no update of a site that the store does not hold as it was created. -/
theorem store_is_map (h : store.Reachable t) :
    IsSiteMap (siteMap t) ∧ ∀ c, Lawful t c ↔ Stands t c :=
  ⟨isSiteMap (stored_of_reachable h), lawful_iff (stored_of_reachable h)⟩

end Calls

/-! ### An update of a site that is gone -/

section Sample

attribute [local instance] hyphenatedUuid

/-- An SQLite that names the first of the violated constraints. -/
@[reducible] def firstViolated : Sqlite where
  report
    | [] => .id
    | c :: _ => c
  report_mem := by
    intro violated h
    cases violated with
    | nil => exact absurd rfl h
    | cons c rest => exact List.mem_cons_self

attribute [local instance] firstViolated

def shopId : SiteId := ⟨"0b0c1d2e-0000-4000-8000-00000000000a".toList, by decide⟩

def shop : NewSite where
  name := ⟨"shop".toList, by decide⟩
  domain := ⟨"shop.localhost".toList, by decide⟩
  docroot := ⟨"/srv/www/shop".toList, by decide⟩
  webServer := .nginx
  phpVersion := ⟨"8.3".toList, by decide⟩
  enabled := true

/-- **An update of a site that is not in the store succeeds**, and the site that it
returns is not there. -/
theorem update_of_a_deleted_site :
    ∃ t, store.Reachable t ∧
      (Call.exec (.update (shop.stamp shopId 1) 3 none) t).1
        = .site (.ok { shop.stamp shopId 1 with updatedAt := 3 }) ∧
      (Call.exec (.get shopId none)
        (Call.exec (.update (shop.stamp shopId 1) 3 none) t).2).1 = .found (.ok none) := by
  have hrun : store.exec [] [.create shop shopId 1 none, .delete shopId none]
      = some [] := by
    decide
  exact ⟨[], Lts.System.reaches_of_exec (.init rfl) hrun, rfl, rfl⟩

/-- A site that was created, and is there. -/
theorem store_is_map_shop :
    Lawful [(shop.stamp shopId 1).toRow]
      (.update { shop.stamp shopId 1 with enabled := false } 3 none) := by
  have hrun : store.exec [] [.create shop shopId 1 none]
      = some [(shop.stamp shopId 1).toRow] := by
    decide
  have hreach : store.Reachable [(shop.stamp shopId 1).toRow] :=
    Lts.System.reaches_of_exec (.init rfl) hrun
  exact ((store_is_map hreach).2 _).mpr ⟨shop.stamp shopId 1, rfl, .inl rfl⟩

end Sample

end OpenVHost.Site
