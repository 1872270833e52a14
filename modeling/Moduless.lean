import Moduless.Auth.LastAdmin
import Moduless.Auth.Sessions
import Moduless.DB.Injection
import Moduless.DB.Isolation
import Moduless.DB.LostUpdates
import Moduless.DB.MissingKeys
import Moduless.DB.SchemaReconciled
import Moduless.DB.TxDeadlines
import Moduless.DB.TxOwnership
import Moduless.Gateway.Boundary
import Moduless.HostSvc.Announced
import Moduless.HostSvc.Cache
import Moduless.HostSvc.Egress
import Moduless.HostSvc.EventDelivery
import Moduless.HostSvc.Flight
import Moduless.HostSvc.HostAllowed
import Moduless.HostSvc.LockExclusion
import Moduless.Manifest.CronSteps
import Moduless.Manifest.WellFormed
import Moduless.Middleware.Audit
import Moduless.Pipeline.HeaderMemory
import Moduless.PluginHost.Backoff
import Moduless.PluginHost.BreakerStreak
import Moduless.PluginHost.CrashWindow
import Moduless.PluginHost.Draining
import Moduless.PluginHost.HalfOpen
import Moduless.PluginHost.Occurrences
import Moduless.PluginHost.Probing
import Moduless.PluginHost.RegistryHistory
import Moduless.PluginHost.RoundRobin
import Moduless.SDK.Calls
import Moduless.SDK.Durations
import Moduless.System.Balance
import Moduless.System.Capacity
import Moduless.System.CleanSlate
import Moduless.System.Disabling
import Moduless.System.FailedChanges
import Moduless.System.Identity
import Moduless.System.Orphans
import Moduless.System.ReadBack
import Moduless.System.RunningPackage
import Moduless.System.UnderReservation
