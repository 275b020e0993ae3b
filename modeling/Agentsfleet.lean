import Agentsfleet.Admissions.Ceiling
import Agentsfleet.Admissions.Ledger
import Agentsfleet.Approval.Answers
import Agentsfleet.Approval.Asked
import Agentsfleet.Approval.Desk
import Agentsfleet.Approval.Grants
import Agentsfleet.Approval.Parks
import Agentsfleet.Approval.Policy
import Agentsfleet.Approval.Rows
import Agentsfleet.Approval.Transactions
import Agentsfleet.Billing.Exact
import Agentsfleet.Billing.Ledger
import Agentsfleet.Billing.Price
import Agentsfleet.Billing.Sweep
import Agentsfleet.Billing.Usage
import Agentsfleet.Context.Chain
import Agentsfleet.Context.Checkpoint
import Agentsfleet.Context.Fit
import Agentsfleet.Context.Index
import Agentsfleet.Context.Plan
import Agentsfleet.Context.Preflight
import Agentsfleet.Context.Rebuilt
import Agentsfleet.Context.Settles
import Agentsfleet.Core.Bounds
import Agentsfleet.Core.Clock
import Agentsfleet.Core.Id
import Agentsfleet.Core.Json
import Agentsfleet.Core.JsonText
import Agentsfleet.Core.JsonTree
import Agentsfleet.Core.Net
import Agentsfleet.Cron.Fence
import Agentsfleet.Cron.FireAt
import Agentsfleet.Cron.Missed
import Agentsfleet.Cron.Schedule
import Agentsfleet.Custody.Bucket
import Agentsfleet.Custody.Capture
import Agentsfleet.Custody.Keep
import Agentsfleet.Custody.Ledger
import Agentsfleet.Custody.Manifests
import Agentsfleet.Custody.Requests
import Agentsfleet.Custody.Restores
import Agentsfleet.Custody.Rows
import Agentsfleet.Custody.Runs
import Agentsfleet.Custody.System
import Agentsfleet.Custody.Transactions
import Agentsfleet.Custody.Upkeep
import Agentsfleet.Custody.Writes
import Agentsfleet.Decision.Accounting
import Agentsfleet.Decision.Call
import Agentsfleet.Definition.Document
import Agentsfleet.Definition.Edit
import Agentsfleet.Definition.Patch
import Agentsfleet.Definition.Splice
import Agentsfleet.Edges.Account
import Agentsfleet.Edges.Feed
import Agentsfleet.Edges.Gaps
import Agentsfleet.Edges.Unread
import Agentsfleet.Egress.Admission
import Agentsfleet.Egress.Covered
import Agentsfleet.Egress.Held
import Agentsfleet.Egress.Mask
import Agentsfleet.Egress.Masked
import Agentsfleet.Egress.Origin
import Agentsfleet.Egress.Placeholder
import Agentsfleet.Egress.Redirect
import Agentsfleet.Egress.Request
import Agentsfleet.Egress.Rules
import Agentsfleet.Egress.Vault
import Agentsfleet.Hub.Gap
import Agentsfleet.Lanes.Dispatch
import Agentsfleet.Lanes.Order
import Agentsfleet.Lease.Meter
import Agentsfleet.Lease.Slots
import Agentsfleet.Library.Cut
import Agentsfleet.Library.Escape
import Agentsfleet.Library.Growth
import Agentsfleet.Library.Links
import Agentsfleet.Library.Numeral
import Agentsfleet.Library.Paired
import Agentsfleet.Library.Ranges
import Agentsfleet.Library.Rows
import Agentsfleet.Library.Run
import Agentsfleet.Library.Search
import Agentsfleet.Library.SortedMap
import Agentsfleet.Library.Table
import Agentsfleet.Library.Text
import Agentsfleet.Library.Totals
import Agentsfleet.Library.Trace
import Agentsfleet.Library.Utf8
import Agentsfleet.Nested.Registry
import Agentsfleet.Outbound.Escape
import Agentsfleet.Outbound.Obligations
import Agentsfleet.Outbound.Resume
import Agentsfleet.Patch.Apply
import Agentsfleet.Patch.Hashed
import Agentsfleet.Patch.Landing
import Agentsfleet.Patch.Workspace
import Agentsfleet.Pending.Holds
import Agentsfleet.Pending.Ledger
import Agentsfleet.Pending.Survive
import Agentsfleet.Pending.Tabs
import Agentsfleet.Providers.Order
import Agentsfleet.Providers.Replay
import Agentsfleet.Providers.Turn
import Agentsfleet.Recovery.Catalog
import Agentsfleet.Recovery.Layout
import Agentsfleet.Recovery.Links
import Agentsfleet.Recovery.Manifest
import Agentsfleet.Recovery.Path
import Agentsfleet.Recovery.Restore
import Agentsfleet.Recovery.Tree
import Agentsfleet.Recovery.Verify
import Agentsfleet.Recovery.Visits
import Agentsfleet.Retain.Floor
import Agentsfleet.Retain.Server
import Agentsfleet.Sandbox.EgressSlots
import Agentsfleet.Sandbox.Toolboxes
import Agentsfleet.Sandbox.WarmSlots
import Agentsfleet.Secrets.Live
import Agentsfleet.Secrets.Scrub
import Agentsfleet.Secrets.Statics
import Agentsfleet.Session.Calls
import Agentsfleet.Session.Login
import Agentsfleet.Session.Scripts
import Agentsfleet.Spool.Report
import Agentsfleet.Spool.Retention
import Agentsfleet.Supervisor.Activity
import Agentsfleet.Supervisor.Holds
import Agentsfleet.Supervisor.Renewal
import Agentsfleet.Supervisor.Timing
import Agentsfleet.Supervisor.Turns
import Agentsfleet.Task.Effects
import Agentsfleet.Task.Generations
import Agentsfleet.Task.Interleaving
import Agentsfleet.Task.Lifecycle
import Agentsfleet.Task.Reconcile
import Agentsfleet.Task.Transactions
import Agentsfleet.Terminal.Output
import Agentsfleet.Terminal.Sessions
import Agentsfleet.Tool.Calls
import Agentsfleet.Tool.Detail
import Agentsfleet.Tool.Ledger
import Agentsfleet.Tool.Push
import Agentsfleet.Tool.Rows
import Agentsfleet.Tool.Stored
import Agentsfleet.Waits.Probe
import Agentsfleet.Waits.Row
import Agentsfleet.Waits.Signals
import Agentsfleet.Waits.System
