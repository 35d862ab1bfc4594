import Codewith.Lib.AckLog
import Codewith.Lib.Acyclic
import Codewith.Lib.Text
import Codewith.Lib.Base64
import Codewith.Lib.ByteSize
import Codewith.Lib.ByteRange
import Codewith.Lib.Result
import Codewith.Lib.Checked
import Codewith.Lib.Chunks
import Codewith.Lib.Decimal
import Codewith.Lib.Edits
import Codewith.Lib.Exec
import Codewith.Lib.FirstSeen
import Codewith.Lib.Glob
import Codewith.Lib.IndexMap
import Codewith.Lib.IpAddr
import Codewith.Lib.JsonLength
import Codewith.Lib.Span
import Codewith.Lib.MarkedText
import Codewith.Lib.Needles
import Codewith.Lib.Paging
import Codewith.Lib.Transaction
import Codewith.Lib.Pool
import Codewith.Lib.Quoting
import Codewith.Lib.Saturating
import Codewith.Lib.Scanner
import Codewith.Lib.Table
import Codewith.Lib.Store
import Codewith.Lib.Utf8
import Codewith.Path
import Codewith.ApplyPatch.Hunk
import Codewith.ApplyPatch.Placement
import Codewith.ApplyPatch.Seeking
import Codewith.ApplyPatch.Parser
import Codewith.ApplyPatch.Streaming
import Codewith.ApplyPatch.UpdateLines
import Codewith.ApplyPatch.Grammar
import Codewith.ApplyPatch.UpdateAgreement
import Codewith.ApplyPatch.ParserAgreement
import Codewith.ApplyPatch.Engine
import Codewith.ApplyPatch.Bounds
import Codewith.ApplyPatch.Verify
import Codewith.ApplyPatch.Coverage
import Codewith.ApplyPatch.Preview
import Codewith.ApplyPatch.Record
import Codewith.ApplyPatch.Moves
import Codewith.TurnDiff.Tracker
import Codewith.TurnDiff.UnifiedDiff
import Codewith.TurnDiff.NetChange
import Codewith.TurnDiff.DiffOrder
import Codewith.Session.History
import Codewith.Session.Normalize
import Codewith.Session.TrimFront
import Codewith.Session.Reconstruction
import Codewith.Session.Replay
import Codewith.ThreadHistory.Items
import Codewith.ThreadHistory.Builder
import Codewith.ThreadHistory.Outline
import Codewith.ThreadHistory.ActiveTurn
import Codewith.ThreadHistory.ItemIds
import Codewith.ThreadHistory.UserMessages
import Codewith.Session.RollbackAgreement
import Codewith.Session.RollbackComposition
import Codewith.Sandbox.Policy
import Codewith.Sandbox.WritableRoots
import Codewith.Sandbox.EntryOrder
import Codewith.Sandbox.Legacy
import Codewith.Sandbox.SameTarget
import Codewith.Sandbox.Projection
import Codewith.Sandbox.Faithfulness
import Codewith.Sandbox.AdditionalRoots
import Codewith.GoalStore.Schema
import Codewith.GoalStore.PlanStatus
import Codewith.GoalStore.Goals
import Codewith.GoalStore.Plans
import Codewith.GoalStore.PlanProgress
import Codewith.GoalStore.PlanEdits
import Codewith.GoalStore.Projections
import Codewith.GoalStore.Operations
import Codewith.GoalStore.PauseResume
import Codewith.GoalStore.Activation
import Codewith.GoalStore.Changes
import Codewith.GoalStore.GoalChanges
import Codewith.GoalStore.PlanChanges
import Codewith.GoalStore.PlanProgressChanges
import Codewith.GoalStore.PlanEditChanges
import Codewith.GoalStore.ProjectionChanges
import Codewith.GoalStore.OperationChanges
import Codewith.GoalStore.Budget
import Codewith.GoalStore.Integrity
import Codewith.GoalStore.Ties
import Codewith.GoalStore.Readiness
import Codewith.GoalStore.Spending
import Codewith.GoalStore.Nesting
import Codewith.GoalStore.PlanSums
import Codewith.GoalStore.MarkComplete
import Codewith.GoalStore.Exactness
import Codewith.GoalStore.Completion
import Codewith.Workflow.Schema
import Codewith.Workflow.Runs
import Codewith.Workflow.Idempotency
import Codewith.Workflow.Dependencies
import Codewith.Workflow.DependencyOrder
import Codewith.Readiness.Flag
import Codewith.Readiness.WakeUp
import Codewith.RemoteControl.Protocol
import Codewith.RemoteControl.ClientTracker
import Codewith.RemoteControl.Closing
import Codewith.RemoteControl.EventStreams
import Codewith.RemoteControl.Segments
import Codewith.RemoteControl.Reassembly
import Codewith.RemoteControl.Split
import Codewith.RemoteControl.Outbound
import Codewith.ScheduleStore.Schema
import Codewith.ScheduleStore.Store
import Codewith.ScheduleStore.Leases
import Codewith.ScheduleStore.Effects
import Codewith.ScheduleStore.Nesting
import Codewith.ScheduleStore.Runs
import Codewith.ScheduleStore.Editing
import Codewith.Shell.Syntax
import Codewith.Shell.SafeCommand
import Codewith.Shell.QuoteRemoval
import Codewith.Shell.DangerousCommand
import Codewith.Shell.Wrapping
import Codewith.Shell.Overlap
import Codewith.Shell.OptionBundles
import Codewith.Mailbox.Schema
import Codewith.Mailbox.Store
import Codewith.Mailbox.Delivery
import Codewith.Mailbox.Listing
import Codewith.StreamParser.InlineHiddenTag
import Codewith.StreamParser.Chunking
import Codewith.StreamParser.TaggedLine
import Codewith.StreamParser.LineReference
import Codewith.StreamParser.AssistantText
import Codewith.StreamParser.Utf8Stream
import Codewith.ExecPolicy.Policy
import Codewith.ExecPolicy.Strictness
import Codewith.ExecPolicy.Amendment
import Codewith.ExecPolicy.NetworkRules
import Codewith.NetworkProxy.Policy
import Codewith.NetworkProxy.Constraints
import Codewith.NetworkProxy.Allowlist
import Codewith.NetworkProxy.Runtime
import Codewith.NetworkProxy.HostBlocked
import Codewith.NetworkProxy.DeniedHosts
import Codewith.Output.Truncate
import Codewith.Output.HeadTailBuffer
import Codewith.Output.FunctionOutput
import Codewith.Output.HeadlessBound
import Codewith.Composer.Keys
import Codewith.Composer.State
import Codewith.Composer.Editing
import Codewith.Composer.Motion
import Codewith.Composer.Killing
import Codewith.Composer.TextObjects
import Codewith.Composer.Input
import Codewith.Composer.Operations
import Codewith.Composer.Atomicity
import Codewith.Composer.CursorOutside
import Codewith.Composer.KillYank
import Codewith.Templating.Template
import Codewith.Templating.Escaping
import Codewith.Config.Merge
import Codewith.Config.Layers
import Codewith.Config.DomainDenies
