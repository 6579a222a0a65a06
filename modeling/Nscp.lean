import Nscp.Access.PathSoundness
import Nscp.CheckDisk.Wildcard
import Nscp.CheckHelpers.Composition
import Nscp.CheckMk.RoundTrip
import Nscp.Collectd.Render
import Nscp.Cron.Grammar
import Nscp.ExternalScripts.Isolation
import Nscp.Filter.Reuse
import Nscp.Gearman.Worker
import Nscp.LogFile.ExactlyOnce
import Nscp.NSClientServer.PasswordMemo
import Nscp.Net.LimiterBlocks
import Nscp.Net.Sources
import Nscp.Nrpe.Client
import Nscp.Nrpe.Reply
import Nscp.Nrpe.Server
import Nscp.Onboarding.Authorised
import Nscp.Onboarding.BundleCache
import Nscp.Onboarding.ContentHash
import Nscp.Onboarding.FleetApply
import Nscp.Onboarding.Precedence
import Nscp.Onboarding.Unconfirmed
import Nscp.Scheduler.Conservation
import Nscp.Scheduler.Overtaking
import Nscp.Service.Dispatch
import Nscp.Service.FactRounds
import Nscp.Service.FailedCheckRuns
import Nscp.Service.PathManager
import Nscp.Service.PluginGates
import Nscp.Service.Redact
import Nscp.Service.Storage
import Nscp.Settings.Redaction
import Nscp.Settings.Refinement
import Nscp.Smtp.Confidential
import Nscp.Str.Format
import Nscp.Str.Prompt
import Nscp.Str.Replace
import Nscp.WebServer.GrantRules
import Nscp.Where.Binding
import Nscp.Where.Bounds
import Nscp.Where.Membership
import Nscp.Where.Nesting
import Nscp.Where.Passes
