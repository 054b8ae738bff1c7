import ProxyGateway.Lib.Dict
import ProxyGateway.Lib.Prog
import ProxyGateway.Lib.Method
import ProxyGateway.Lib.Text
import ProxyGateway.Lib.Json
import ProxyGateway.Pdgtx.State
import ProxyGateway.Pdgtx.Target
import ProxyGateway.Pdgtx.Machine
import ProxyGateway.Pdgtx.Service
import ProxyGateway.Pdgtx.Object
import ProxyGateway.Pdgtx.Commit
import ProxyGateway.Pdgtx.Recover
import ProxyGateway.Pdgtx.History
import ProxyGateway.Pdgtx.Discipline
import ProxyGateway.Pdgtx.Phases
import ProxyGateway.Pdgtx.CommitSafe
import ProxyGateway.Pdgtx.RecoverSafe
import ProxyGateway.Pdgtx.Forgotten
import ProxyGateway.Pdgtx.Interleaving
import ProxyGateway.Pdgtx.Alone
import ProxyGateway.Pdgtx.Plan
import ProxyGateway.Pdgtx.Preflight
import ProxyGateway.Pdgtx.Snapshot
import ProxyGateway.Pdgtx.Active
import ProxyGateway.Pdgtx.Outcome
import ProxyGateway.Pdgtx.Atomic
import ProxyGateway.Pdgtx.CrashRecovery
import ProxyGateway.WebImport.Staging
import ProxyGateway.WebImport.Claim
import ProxyGateway.WebImport.Protocol
import ProxyGateway.WebImport.ClaimSafe
import ProxyGateway.WebImport.ClaimRuns
import ProxyGateway.Lib.Dynamic
import ProxyGateway.Lib.Runs
import ProxyGateway.Route.Rule
import ProxyGateway.Route.Operations
import ProxyGateway.Route.OperationCases
import ProxyGateway.Route.Pin
import ProxyGateway.Route.Exits
import ProxyGateway.Route.Import
import ProxyGateway.Route.Listed
import ProxyGateway.Route.Hijack
import ProxyGateway.Route.HijackRuns
import ProxyGateway.Schema.Committer
import ProxyGateway.Schema.Checks
import ProxyGateway.Schema.Validated
import ProxyGateway.Schema.Agreement
import ProxyGateway.Render.RuleProviders
import ProxyGateway.Render.ProvidersAgree
import ProxyGateway.Schema.Limits
import ProxyGateway.Lib.Clean
import ProxyGateway.Schema.Typed
import ProxyGateway.Schema.Legacy
import ProxyGateway.Schema.Faults
import ProxyGateway.Schema.Validator
import ProxyGateway.Schema.ValidatorFaults
import ProxyGateway.Pdgtx.Refused
import ProxyGateway.Pdgtx.Observe
import ProxyGateway.Schema.ValidationRefused
import ProxyGateway.Schema.Declared
import ProxyGateway.Schema.FixedPoint
import ProxyGateway.Schema.Canonical
import ProxyGateway.Schema.Repair
import ProxyGateway.Schema.Merge
import ProxyGateway.Health.State
import ProxyGateway.Health.Run
import ProxyGateway.Health.Sound
import ProxyGateway.Health.Checks
import ProxyGateway.Render.Mihomo
import ProxyGateway.Schema.Rebind
import ProxyGateway.Render.Rebound
import ProxyGateway.Schema.Preserve
import ProxyGateway.Schema.Commute
import ProxyGateway.Mosdns.Contract
import ProxyGateway.Mosdns.Graph
import ProxyGateway.Mosdns.Projection
import ProxyGateway.Exits.Cascaded
import ProxyGateway.Exits.Closed
import ProxyGateway.Exits.Deletion
import ProxyGateway.Route.Decision
import ProxyGateway.Route.Merged
import ProxyGateway.Route.Reassigned
import ProxyGateway.Geosite.Decoded
import ProxyGateway.Geosite.Lossless
import ProxyGateway.Route.Struck
import ProxyGateway.Lib.Lines
import ProxyGateway.Mosdns.DomainFile
import ProxyGateway.Mosdns.Rewritten
import ProxyGateway.Profile.Canonical
import ProxyGateway.Profile.Retarget
import ProxyGateway.Profile.Switch
import ProxyGateway.Jobs.Clock
import ProxyGateway.Jobs.Exclusive
import ProxyGateway.Lib.Pieces
import ProxyGateway.Restore.Extract
import ProxyGateway.Restore.Identity
import ProxyGateway.Restore.Rejected
import ProxyGateway.Restore.Substituted
import ProxyGateway.Ruleset.Expanded
import ProxyGateway.Ruleset.Lossless
import ProxyGateway.Lib.Champion
import ProxyGateway.Lib.Dive
import ProxyGateway.Lib.Regex
import ProxyGateway.Lib.Window
import ProxyGateway.Profile.Agreement
import ProxyGateway.Release.Newest
import ProxyGateway.Render.Accounted
import ProxyGateway.Route.Effective
import ProxyGateway.Route.Shown
import ProxyGateway.Route.Unrelated
import ProxyGateway.Schema.Cycles
import ProxyGateway.Web.Attempts
import ProxyGateway.Web.Logins
import ProxyGateway.Web.Requests
import ProxyGateway.Ruleset.Diagnosis
import ProxyGateway.WebImport.Merge
import ProxyGateway.WebImport.Union
import ProxyGateway.Http.Answered
import ProxyGateway.Http.Segment
import ProxyGateway.Http.Sessions
import ProxyGateway.Wloc.Rewritten
import ProxyGateway.Pdgtx.Optimistic
import ProxyGateway.Firewall.Merge
import ProxyGateway.Firewall.Layout
import ProxyGateway.Firewall.Owned
import ProxyGateway.Firewall.Runs
