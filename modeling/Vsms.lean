import Vsms.Lib.Runs
import Vsms.Lib.Optimistic
import Vsms.Lib.Guarded
import Vsms.Lib.Consumers
import Vsms.Lib.Selection
import Vsms.Lib.Indexes
import Vsms.Lib.Paging
import Vsms.Lib.SessionLocks
import Vsms.Lib.Framing
import Vsms.Lib.HashChain
import Vsms.Lib.Json
import Vsms.Schema.Types
import Vsms.Schema.Messages
import Vsms.Schema.Jobs
import Vsms.Schema.Webhooks
import Vsms.Schema.Accounts
import Vsms.Core.Pack
import Vsms.Core.Breaker
import Vsms.Core.Numbers
import Vsms.Routing.Engine
import Vsms.Routing.Decide
import Vsms.Routing.Simulate
import Vsms.Message.Claim
import Vsms.Message.Dispatch
import Vsms.Message.Dlr
import Vsms.Message.Expiry
import Vsms.Message.System
import Vsms.Message.Lifecycle
import Vsms.Message.DlrRace
import Vsms.Message.EarlyReports
import Vsms.Message.Orphans
import Vsms.Message.Leases
import Vsms.Message.Submits
import Vsms.Message.Transport
import Vsms.Message.Correlation
import Vsms.Job.Model
import Vsms.Job.System
import Vsms.Job.Stuck
import Vsms.Job.Attempts
import Vsms.Job.Finished
import Vsms.Hooks.Claim
import Vsms.Hooks.Candidates
import Vsms.Hooks.Deliver
import Vsms.Hooks.Health
import Vsms.Hooks.Leases
import Vsms.Hooks.Lifecycle
import Vsms.Hooks.Signature
import Vsms.Hooks.Secrets
import Vsms.Claim.Batch
import Vsms.Message.Batch
import Vsms.Message.Failover
import Vsms.Worker.Singleton
import Vsms.Api.Nonces
import Vsms.Api.Lookups
import Vsms.Sso.Users
import Vsms.Sso.Transactions
import Vsms.Sso.Callback
import Vsms.Api.ConsoleKeys
import Vsms.Api.KeyRegistry
import Vsms.Audit.Chain
import Vsms.Audit.Rows
import Vsms.Audit.Anchors
import Vsms.Audit.Coverage
import Vsms.Api.Standing
import Vsms.Api.Delivery
import Vsms.Core.Config
import Vsms.Hooks.FanOut
import Vsms.Message.Purge
import Vsms.Op.Overlap
import Vsms.Sso.Jwks
import Vsms.Sso.JwksLimit
import Vsms.Api.Schedule
import Vsms.Console.Display
import Vsms.Console.Throttle
import Vsms.Core.Segments
import Vsms.Lib.Tiling
import Vsms.Routing.Choice
import Vsms.Routing.Enumerate
import Vsms.Api.Scopes
import Vsms.Claim.Errors
import Vsms.Core.Minimal
import Vsms.Core.Normal
import Vsms.Core.Septets
import Vsms.Core.Storable
import Vsms.Core.Suggestion
import Vsms.Hooks.Scheme
import Vsms.Worker.Breakers
import Vsms.Lib.Fields
import Vsms.Lib.Words
import Vsms.Lib.Percent
import Vsms.Lib.SegmentTree
import Vsms.Lib.Upserts
import Vsms.Api.Windows
import Vsms.Hooks.Backlog
import Vsms.Hooks.Subscriptions
import Vsms.Provider.Sns
import Vsms.Console.LiveList
import Vsms.Sso.TokenKeys
import Vsms.Sdk.Routes
import Vsms.Sdk.Paths
import Vsms.Core.Placeholders
import Vsms.Core.Secrecy
import Vsms.Worker.GreyRoutes
import Vsms.Api.Operators
import Vsms.Lib.Calendar
import Vsms.Lib.Decimals
import Vsms.Core.Instants
import Vsms.Console.DateFilter
import Vsms.Console.LookupForm
