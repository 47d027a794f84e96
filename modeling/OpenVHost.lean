import OpenVHost.FileTree.Walk
import OpenVHost.FileTree.Io
import OpenVHost.FileTree.Rules
import OpenVHost.Pkg.Targz
import OpenVHost.Pkg.Plan
import OpenVHost.Pkg.Phases
import OpenVHost.Pkg.Reread
import OpenVHost.Pkg.Containment
import OpenVHost.Pkg.Hardlinks
import OpenVHost.Pkg.Formats
import OpenVHost.Lts.System
import OpenVHost.Lts.Fair
import OpenVHost.Proc.Supervisor
import OpenVHost.Proc.Steps
import OpenVHost.Proc.SingleRun
import OpenVHost.Proc.Events
import OpenVHost.Desktop.Control
import OpenVHost.Desktop.Quit
import OpenVHost.FileTree.Replace
import OpenVHost.Site.Atomicfile
import OpenVHost.Conf.Templates
import OpenVHost.Conf.Render
import OpenVHost.Site.Model
import OpenVHost.Site.RenderSet
import OpenVHost.Site.Plan
import OpenVHost.Site.Commit
import OpenVHost.FileTree.Links
import OpenVHost.Site.Converge
import OpenVHost.Site.Ingress
import OpenVHost.Json.Parse
import OpenVHost.Json.Decode
import OpenVHost.Orphan.Registry
import OpenVHost.Orphan.FiniteMap
import OpenVHost.Orphan.Reap
import OpenVHost.Proc.Record
import OpenVHost.Proc.Stop
import OpenVHost.Proc.Served
import OpenVHost.Proc.Ends
import OpenVHost.Proc.Output
import OpenVHost.Proc.Evidence
import OpenVHost.Desktop.Waited
import OpenVHost.Logs.Read
import OpenVHost.Logs.Drain
import OpenVHost.Site.Repo
import OpenVHost.Site.Store
import OpenVHost.Site.Names
import OpenVHost.FileTree.Resolve
import OpenVHost.Merge.Keyed
import OpenVHost.Runtime.Discover
import OpenVHost.Runtime.Merged
import OpenVHost.FileTree.Removal
import OpenVHost.Uninstall.Model
import OpenVHost.Uninstall.Confined
import OpenVHost.Uninstall.Converge
import OpenVHost.Datadir.Model
import OpenVHost.Datadir.Staging
import OpenVHost.Datadir.Calls
import OpenVHost.Async.Task
import OpenVHost.FileTree.Paved
import OpenVHost.Datadir.Driver
import OpenVHost.Datadir.AllOrNothing
import OpenVHost.Datadir.Credential
import OpenVHost.Desktop.Rescan
import OpenVHost.Desktop.Settled
import OpenVHost.Async.Feed
import OpenVHost.Proc.Feed
import OpenVHost.Window.Services
import OpenVHost.Tray.Model
import OpenVHost.Tray.Refresh
import OpenVHost.Tray.Converge
import OpenVHost.Tray.Ledger
import OpenVHost.Tray.Dialogs
import OpenVHost.Window.LogsStore
import OpenVHost.Window.FileView
import OpenVHost.Window.Listeners
import OpenVHost.Window.RingView
import OpenVHost.Window.Shown
import OpenVHost.Async.Readings
import OpenVHost.Window.Sites
import OpenVHost.Window.SitesSettle
import OpenVHost.Conf.SettingsParse
import OpenVHost.Desktop.WebSettings
import OpenVHost.Window.WebSettings
import OpenVHost.Window.SettingsForm
import OpenVHost.Merge.FirstCome
import OpenVHost.Tray.StartAll
import OpenVHost.Logs.Filter
import OpenVHost.Tray.Redraw
import OpenVHost.Logs.Progress
import OpenVHost.Logs.Bounds
import OpenVHost.Runtime.Majors
import OpenVHost.Datadir.PasswordSql
import OpenVHost.Uninstall.Order
import OpenVHost.FileTree.Succeeds
import OpenVHost.Datadir.Agreement
import OpenVHost.Clitool.Model
import OpenVHost.FileTree.Follow
import OpenVHost.Clitool.Place
import OpenVHost.Clitool.Twice
import OpenVHost.Desktop.Throttle
import OpenVHost.Tray.StopAll
import OpenVHost.Control.ReadLine
import OpenVHost.Pkg.Grammar
import OpenVHost.FileTree.Faults
import OpenVHost.Pkg.Download
import OpenVHost.FileTree.Metered
import OpenVHost.Pkg.Caps
import OpenVHost.Nginx.Reader
import OpenVHost.Nginx.Sketch
import OpenVHost.Conf.Structure
import OpenVHost.Conf.Injection
import OpenVHost.Conf.Pool
import OpenVHost.Site.Closed
import OpenVHost.Datadir.Redact
import OpenVHost.Datadir.InitLog
import OpenVHost.Datadir.Secrecy
import OpenVHost.Conf.Value
import OpenVHost.Site.Leftover
import OpenVHost.Conf.SamePath
import OpenVHost.Site.LogPaths
import OpenVHost.Install.Model
import OpenVHost.Install.Slot
import OpenVHost.Control.Protocol
import OpenVHost.Control.RoundTrip
import OpenVHost.Cli.Exchange
import OpenVHost.Cli.Render
import OpenVHost.Instance.Model
import OpenVHost.Instance.Single
import OpenVHost.Instance.Socket
import OpenVHost.Pkg.Staging
import OpenVHost.Desktop.Apply
import OpenVHost.Pkg.Publish
import OpenVHost.Clitool.Detect
