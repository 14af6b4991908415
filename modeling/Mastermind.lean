import Mastermind.Effect.Program
import Mastermind.Effect.System
import Mastermind.Effect.Uses
import Mastermind.Effect.Trace
import Mastermind.Effect.Table
import Mastermind.Effect.Ledger
import Mastermind.Effect.Dedup
import Mastermind.Effect.Worker
import Mastermind.Platform.Json
import Mastermind.Platform.Text
import Mastermind.Platform.Path
import Mastermind.Platform.CleanPath
import Mastermind.Platform.Links
import Mastermind.Platform.Regex
import Mastermind.Platform.Spelling
import Mastermind.Platform.Subsequence
import Mastermind.Platform.Utf16
import Mastermind.Platform.Utf8
import Mastermind.Dispatch.Schema
import Mastermind.Dispatch.Statements
import Mastermind.Dispatch.Batches
import Mastermind.Dispatch.Jobs
import Mastermind.Dispatch.Scheduler
import Mastermind.Dispatch.Control
import Mastermind.Dispatch.Rules
import Mastermind.Dispatch.ScheduleRules
import Mastermind.Dispatch.RunRules
import Mastermind.Dispatch.Moves
import Mastermind.Dispatch.Attachments
import Mastermind.Dispatch.Integrity
import Mastermind.Dispatch.Accounting
import Mastermind.Dispatch.Cancellation
import Mastermind.Dispatch.Delivery
import Mastermind.Dispatch.HandOut
import Mastermind.Agent.Loop
import Mastermind.Agent.Heartbeats
import Mastermind.Agent.Adapter
import Mastermind.Agent.Restarting
import Mastermind.Agent.BloodMoon
import Mastermind.Agent.Wiping
import Mastermind.Agent.Registry
import Mastermind.Agent.ModArchive
import Mastermind.Agent.ModInstall
import Mastermind.Agent.ModConfined
import Mastermind.Agent.ModAllOrNothing
import Mastermind.Agent.Pruning
import Mastermind.Agent.Counting
import Mastermind.Agent.Rcon
import Mastermind.Agent.Access
import Mastermind.Agent.Profiles
import Mastermind.Agent.Redaction
import Mastermind.Agent.Disclosure
import Mastermind.Agent.Backoff
import Mastermind.LogTail.Tailer
import Mastermind.LogTail.Offsets
import Mastermind.LogTail.AppendOnly
import Mastermind.LogTail.Rotation
import Mastermind.LogTail.Transport
import Mastermind.LogTail.ChunkLength
import Mastermind.Players.Roster
import Mastermind.Players.Sessions
import Mastermind.Players.Chat
import Mastermind.Players.Chunks
import Mastermind.Players.Injection
import Mastermind.Players.Display
import Mastermind.Players.HighPing
import Mastermind.Players.Addresses
import Mastermind.Players.Ambiguity
import Mastermind.Dispatch.Configuration
import Mastermind.Dispatch.Tenants
import Mastermind.Dispatch.Roles
import Mastermind.Dispatch.HalfMade
import Mastermind.Dispatch.Lifecycle
import Mastermind.Dispatch.Claiming
import Mastermind.Dispatch.FireCounts
import Mastermind.Dispatch.Overlap
import Mastermind.Pairing.Service
import Mastermind.Pairing.SingleUse
import Mastermind.Pairing.Rotation
import Mastermind.Orgs.Accounts
import Mastermind.Orgs.Administrators
import Mastermind.Orgs.Login
import Mastermind.Orgs.SignIn
import Mastermind.Dispatch.Agreement
import Mastermind.Platform.Clock
import Mastermind.Schedule.CronNext
import Mastermind.Schedule.Window
import Mastermind.Schedule.EveryDays
import Mastermind.Schedule.Fields
import Mastermind.Schedule.NextRun
import Mastermind.Web.ModEditor
import Mastermind.Web.VisitMap
import Mastermind.Web.ConfigDiff
import Mastermind.Logs.Keywords
import Mastermind.Logs.Polling
import Mastermind.Moderation.Settings
import Mastermind.Moderation.Moderate
import Mastermind.Discord.RateLimit
import Mastermind.Discord.Relay
import Mastermind.Discovery.Sync
import Mastermind.Moderation.Mutes
import Mastermind.Moderation.Documents
import Mastermind.Moderation.Commands
import Mastermind.Agent.Reporting
import Mastermind.Players.Merging
import Mastermind.Agent.NestedRoots
import Mastermind.Platform.Scan
import Mastermind.Web.LandClaims
import Mastermind.Web.PlayerTags
import Mastermind.Web.PlayerValues
import Mastermind.Web.ClaimsRead
import Mastermind.Platform.FileTree
import Mastermind.Agent.Restoring
import Mastermind.Agent.Restores
import Mastermind.Platform.DelayedJobs
import Mastermind.Schedule.Planner
import Mastermind.Schedule.Armed
import Mastermind.Platform.Throttle
import Mastermind.Discord.Lifecycle
import Mastermind.Agent.Quarantine
import Mastermind.Platform.Relative
import Mastermind.Agent.SaveFolder
import Mastermind.Schedule.BackupPolicy
import Mastermind.Platform.Base64
import Mastermind.Orgs.Providers
import Mastermind.Discord.Delivered
