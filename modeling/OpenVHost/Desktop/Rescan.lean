/-
# Rescans

A rescan brings the supervisor's rows of a package family into line with what discovery has
found: `reconcile_php` and `reconcile_mysql`. They run over the rows of a supervisor and the
managed list of runtimes, with nothing else under way.

* `Services.shows_register`, `Services.shows_unregister` — on its rows the supervisor does what
  the model of all its calls does.
-/

import OpenVHost.Datadir.Model
import OpenVHost.Merge.Locked
import OpenVHost.Pkg.Targz
import OpenVHost.Uninstall.Model

namespace OpenVHost.Desktop

open FileTree
open OpenVHost.Pkg (displayPath)
open OpenVHost.Proc
open OpenVHost.Runtime
open OpenVHost.Runtime.Php (PhpRuntime phpEngine)
open OpenVHost.Runtime.Mysql (MysqlRuntime mysqlEngine)
open OpenVHost.Uninstall (phpPoolConfigPath)

/-! ### Rows -/

/-- A row of the supervisor. -/
structure Row where
  spec : ServiceSpec
  state : ServiceState
  pid : Option Nat
  logs : List LogLine
  stderrTail : List String
  deriving DecidableEq, Repr

namespace Row

def id (r : Row) : ServiceId := r.spec.id
def live (r : Row) : Bool := r.state.live
def program (r : Row) : String := r.spec.spawn.program

def fresh (spec : ServiceSpec) : Row := ⟨spec, .stopped, none, [], []⟩

def status (r : Row) : ServiceStatus :=
  ⟨r.spec.id, r.spec.displayName, r.spec.endpoint, r.pid, r.state⟩

def ofEntry (e : Entry) : Row := ⟨e.spec, e.state, e.pid, e.logs, e.stderrTail⟩

end Row

/-- The supervisor's rows, one for an id, and what it has broadcast. -/
@[ext]
structure Services where
  rows : List Row
  nodup : (rows.map Row.id).Nodup
  events : List Event

namespace Services

def get (s : Services) (id : ServiceId) : Option Row := Merge.entry Row.id id s.rows

def liveAt (s : Services) (id : ServiceId) : Bool := Merge.lockedAt Row.id Row.live s.rows id

/-- `Supervisor::register` -/
def register (s : Services) (spec : ServiceSpec) : Services :=
  if s.liveAt spec.id then s
  else
    { rows := Merge.put Row.id Row.live s.rows (Row.fresh spec)
      nodup := Merge.nodup_put s.nodup _
      events := s.events ++ [.registered (Row.fresh spec).status] }

/-- `Supervisor::unregister` -/
def unregister (s : Services) (id : ServiceId) : Except ProcError Unit × Services :=
  match s.get id with
  | none => (.error (.notFound id), s)
  | some r =>
      match World.checkTerminal id r.state with
      | .error e => (.error e, s)
      | .ok () =>
          (.ok (),
            { rows := Merge.drop Row.id Row.live s.rows id
              nodup := Merge.nodup_drop s.nodup
              events := s.events ++ [.unregistered id] })

def snapshot (s : Services) : List ServiceStatus :=
  (s.rows.map Row.status).insertionSort fun a b => a.id ≤ b.id

end Services

/-! ### The rows of a supervisor -/

/-- The rows are those of a supervisor. -/
def Services.Shows (s : Services) (w : World) : Prop :=
  ∀ id, s.get id = (w.entries id).map Row.ofEntry

namespace Services

variable {s : Services} {w : World}

theorem liveAt_of_shows (h : s.Shows w) (id : ServiceId) :
    s.liveAt id = (w.entries id).any fun e => e.state.live := by
  show (s.get id).any Row.live = _
  rw [h id]
  cases w.entries id <;> rfl

/-- **Registering a service** does to the rows what it does to a supervisor's. -/
theorem shows_register (h : s.Shows w) (spec : ServiceSpec) :
    (s.register spec).Shows (w.register spec).1 := by
  intro id
  have hlive := liveAt_of_shows h spec.id
  unfold register World.register
  cases hl : s.liveAt spec.id with
  | true =>
      rw [hl] at hlive
      simpa [← hlive] using h id
  | false =>
      rw [hl] at hlive
      simp only [← hlive, Bool.false_eq_true, if_false, get, World.insert, World.setFlag,
        Merge.entry_put]
      by_cases hid : id = spec.id
      · subst hid
        have hlock : Merge.lockedAt Row.id Row.live s.rows spec.id = false := hl
        simp [hlock, Row.fresh, Row.id, Row.ofEntry]
      · have hne : ¬ (Row.fresh spec).id = id := Ne.symm hid
        have hsame : Merge.entry Row.id id s.rows = (w.entries id).map Row.ofEntry := h id
        simpa [hne, hid] using hsame

/-- **Forgetting a service** does to the rows what it does to a supervisor's. -/
theorem shows_unregister (h : s.Shows w) (id : ServiceId) :
    (s.unregister id).2.Shows (w.unregister id).1 ∧
      (w.unregister id).2 = match (s.unregister id).1 with
        | .ok () => .emit (.unregistered id) (.returned (.ok ()))
        | .error e => .returned (.error e) := by
  unfold unregister World.unregister
  have hid := h id
  cases he : w.entries id with
  | none =>
      rw [he] at hid
      simp only [hid, Option.map_none]
      exact ⟨h, trivial⟩
  | some e =>
      rw [he] at hid
      simp only [hid, Option.map_some, Row.ofEntry]
      cases hc : World.checkTerminal id e.state with
      | error err => exact ⟨h, rfl⟩
      | ok u =>
          refine ⟨fun id' => ?_, rfl⟩
          have hterm : s.liveAt id = false := by
            rw [liveAt_of_shows h, he]
            cases hs : e.state <;> simp_all [World.checkTerminal, ServiceState.live]
          show Merge.entry Row.id id' (Merge.drop Row.id Row.live s.rows id) = _
          rw [Merge.entry_drop]
          by_cases hid' : id = id'
          · subst hid'
            have hlock : Merge.lockedAt Row.id Row.live s.rows id = false := hterm
            simp [hlock, World.remove]
          · have hsame : Merge.entry Row.id id' s.rows = (w.entries id').map Row.ofEntry := h id'
            simpa [hid', Ne.symm hid', World.remove] using hsame

end Services

/-! ### Service specs -/

def phpFpmIdPrefix : String := "php-fpm-"
def mysqlIdPrefix : String := "mysql-"

def phpFpmServiceId (major : List Char) : ServiceId := phpFpmIdPrefix ++ String.ofList major
def mysqlServiceId (major : List Char) : ServiceId := mysqlIdPrefix ++ String.ofList major

def defaultReadyAfter : Nat := 500
def defaultGrace : Nat := 5000
def mysqlGrace : Nat := 15000
def mysqlReadyDeadline : Nat := 15000

def phpFpmSpec (home : Path) (rt : PhpRuntime) : ServiceSpec where
  id := phpFpmServiceId rt.major
  displayName := "PHP-FPM " ++ String.ofList rt.major
  endpoint := some ("run/php-fpm-" ++ String.ofList rt.major ++ ".sock")
  spawn :=
    { program := displayPath rt.fpmBin
      args := ["-F", "-O", "-n", "-y", displayPath (phpPoolConfigPath home rt.major)]
      cwd := none
      env := [] }
  readiness := .aliveAfter defaultReadyAfter
  grace := defaultGrace

def mysqladminPingArgv (mysqladmin socket : Path) : List String :=
  [displayPath mysqladmin, "--no-defaults", "--no-login-paths", "--protocol=SOCKET",
    "--socket=" ++ displayPath socket, "--user=root", "--connect-timeout=1", "--silent", "ping"]

def mysqlSpec (home : Path) (rt : MysqlRuntime) : ServiceSpec :=
  let paths := Datadir.mysqlPaths home rt.major
  { id := mysqlServiceId rt.major.asStr
    displayName := "MySQL " ++ String.ofList rt.major.asStr
    endpoint := some "127.0.0.1:3306"
    spawn :=
      { program := displayPath rt.mysqld
        args := ["--defaults-file=" ++ displayPath paths.myCnf]
        cwd := none
        env := [] }
    readiness := .command (mysqladminPingArgv rt.mysqladmin paths.socket) mysqlReadyDeadline
    grace := mysqlGrace }

/-- The datadir of a runtime's major, as it is classified in a tree. -/
def mysqlDatadirIsInitialized (os : Datadir.Os) (home : Path) (t : Tree) (rt : MysqlRuntime) :
    Bool :=
  let look := Io.attempt (Datadir.classifyDatadir os (Datadir.mysqlPaths home rt.major).datadir)
  match (Datadir.settle look ⟨t, [], []⟩).1 with
  | .ok state => state.isInitialized
  | .error _ => false

/-! ### What is new and what has vanished -/

def newlyInstalledMajors (before found : List (List Char)) : List (List Char) :=
  found.filter fun major => !before.contains major

/-- `str::strip_prefix`: the major that an id of the family names. -/
def familyMajor (idPrefix : String) (id : ServiceId) : Option (List Char) :=
  idPrefix.toList.isPrefixOf? id.toList

def vanishedServiceIds (registered : List ServiceId) (idPrefix : String)
    (found : List (List Char)) : List ServiceId :=
  registered.filter fun id => (familyMajor idPrefix id).any fun major => !found.contains major

def unregisterVanished (s : Services) (idPrefix : String) (found : List (List Char)) : Services :=
  let registered := s.snapshot.map ServiceStatus.id
  (vanishedServiceIds registered idPrefix found).foldl (fun s id => (s.unregister id).2) s

section Seeded

variable {ρ κ : Type} [DecidableEq κ]

/-- A runtime that was just installed fills a gap in what was discovered. -/
def seeded (E : Engine ρ κ) (discovered : Discovery ρ) : Option ρ → Discovery ρ
  | none => discovered
  | some rt =>
      let unidentified := discovered.unidentified.filter fun dir => !dir.isPrefixOf (E.bin rt)
      if discovered.runtimes.any fun r => decide (E.major r = E.major rt) then
        { discovered with unidentified }
      else ⟨E.sortRuntimes (discovered.runtimes ++ [rt]), unidentified⟩

end Seeded

def seededPhp : Discovery PhpRuntime → Option PhpRuntime → Discovery PhpRuntime := seeded phpEngine

def seededMysql : Discovery MysqlRuntime → Option MysqlRuntime → Discovery MysqlRuntime :=
  seeded mysqlEngine

/-! ### Reconciliation -/

inductive RwLock (α : Type) where
  | poisoned
  | holds (a : α)
  deriving DecidableEq, Repr

structure InstalledRuntimes where
  nginxBin : Path
  php : List PhpRuntime
  deriving DecidableEq, Repr

structure StackPaths where
  home : Path
  nginxBin : Path
  deriving DecidableEq, Repr

structure PhpState where
  runtimes : RwLock (Option InstalledRuntimes)
  services : Services

structure MysqlState where
  runtimes : RwLock (Option (List MysqlRuntime))
  services : Services

/-- The majors of the managed list. -/
def InstalledRuntimes.majors (known : Option InstalledRuntimes) : List (List Char) :=
  (known.map fun r => r.php.map PhpRuntime.major).getD []

def reconcilePhp (paths : StackPaths) (discovered : Discovery PhpRuntime) (s : PhpState) :
    Except String (Discovery PhpRuntime) × PhpState :=
  match s.runtimes with
  | .poisoned => (.error "runtime list is poisoned", s)
  | .holds known =>
      let php := discovered.runtimes
      let found := php.map PhpRuntime.major
      let newMajors := newlyInstalledMajors (InstalledRuntimes.majors known) found
      let registered := newMajors.foldl
        (fun services major =>
          match php.find? fun rt => decide (rt.major = major) with
          | some rt => services.register (phpFpmSpec paths.home rt)
          | none => services)
        s.services
      (.ok discovered,
        { runtimes := .holds (some ⟨paths.nginxBin, php⟩)
          services := unregisterVanished registered phpFpmIdPrefix found })

def reconcileMysql (os : Datadir.Os) (home : Path) (t : Tree) (discovered : Discovery MysqlRuntime)
    (s : MysqlState) : Except String (Discovery MysqlRuntime) × MysqlState :=
  match s.runtimes with
  | .poisoned => (.error "mysql runtime list is poisoned", s)
  | .holds _ =>
      let found := discovered.runtimes
      let alreadyRegistered := s.services.snapshot.map ServiceStatus.id
      let registered := found.foldl
        (fun services rt =>
          if alreadyRegistered.contains (mysqlServiceId rt.major.asStr) then services
          else if mysqlDatadirIsInitialized os home t rt then
            services.register (mysqlSpec home rt)
          else services)
        s.services
      let majors := found.map fun rt => rt.major.asStr
      (.ok discovered,
        { runtimes := .holds (some found)
          services := unregisterVanished registered mysqlIdPrefix majors })

end OpenVHost.Desktop
