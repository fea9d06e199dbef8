import StreamQuery.Channel
import StreamQuery.Condition
import StreamQuery.Control.CommitOperator
import StreamQuery.Control.Config
import StreamQuery.Control.Error
import StreamQuery.Control.Mode
import StreamQuery.Control.RedoArea
import StreamQuery.Decimal.Binary
import StreamQuery.Decimal.Fixed
import StreamQuery.Decimal.Shortest
import StreamQuery.Engine.Action
import StreamQuery.Engine.Deployment
import StreamQuery.Engine.Schedule
import StreamQuery.Engine.Session
import StreamQuery.Engine.Trace
import StreamQuery.Engine.World
import StreamQuery.Error
import StreamQuery.Experiment
import StreamQuery.Experiment.Options
import StreamQuery.Experiment.Report
import StreamQuery.Experiment.Trial
import StreamQuery.Main
import StreamQuery.Operator.Aggregation
import StreamQuery.Operator.Cell
import StreamQuery.Operator.Error
import StreamQuery.Operator.Matching
import StreamQuery.Operator.Step
import StreamQuery.Operator.WindowJoin
import StreamQuery.Plan.Error
import StreamQuery.Plan.Graph
import StreamQuery.Plan.Listing
import StreamQuery.Plan.Query
import StreamQuery.Plan.Traversal
import StreamQuery.Plan.Tree
import StreamQuery.Proofs.Outcome
import StreamQuery.Relation
import StreamQuery.Relation.Catalog
import StreamQuery.Relation.RowEdit
import StreamQuery.Schema
import StreamQuery.Text.GraphemeExtend
import StreamQuery.Text.Quoted
import StreamQuery.Text.Unprintable
import StreamQuery.Time
import StreamQuery.Tuple
import StreamQuery.Tuple.Lineage
import StreamQuery.Tuple.Stamps
import StreamQuery.Value
import StreamQuery.Value.Comparator
import StreamQuery.Window
import StreamQuery.Window.Contents
import StreamQuery.Window.RowBuffer
import StreamQuery.Window.SpanBuffer
import StreamQuery.Window.Synopsis
import StreamQuery.Proofs.Plan.Forest
import StreamQuery.Proofs.Channel
import StreamQuery.Proofs.Engine.World
import StreamQuery.Proofs.Window.Held
import StreamQuery.Proofs.Operator.Yields
import StreamQuery.Proofs.Engine.Flow
import StreamQuery.Proofs.Engine.Run
import StreamQuery.Proofs.Plan.CommitOperator
import StreamQuery.Proofs.Engine.Deployment
import StreamQuery.Proofs.Relation.Catalog
import StreamQuery.Proofs.Provenance
import StreamQuery.Proofs.Engine.Firing
import StreamQuery.Proofs.Isolation
import StreamQuery.Proofs.SnapshotIsolation
import StreamQuery.Proofs.Operator.Counters
import StreamQuery.Proofs.TwoPhaseLocking
import StreamQuery.Proofs.Engine.History
import StreamQuery.Proofs.OptimisticReads
import StreamQuery.Proofs.Plan.Typing
import StreamQuery.Proofs.Window.Sliding
import StreamQuery.Proofs.Engine.Updates
import StreamQuery.Proofs.Operator.Totality
import StreamQuery.Proofs.Pipeline
import StreamQuery.Proofs.Pipeline.Steps
import StreamQuery.Proofs.Pipeline.Progress
import StreamQuery.Proofs.Pipeline.Results
import StreamQuery.Proofs.Pipeline.History
import StreamQuery.Proofs.SlidingMeans
import StreamQuery.Proofs.Downstream
import StreamQuery.Proofs.Window.Tumbling
import StreamQuery.Proofs.Relation.Kept
import StreamQuery.Proofs.Pipeline.Sends
import StreamQuery.Proofs.Pipeline.Transactions
import StreamQuery.Proofs.Pipeline.Reads
import StreamQuery.Proofs.Pipeline.Ledger
import StreamQuery.Proofs.Pipeline.LedgerHistory
import StreamQuery.Proofs.Pipeline.Runs
import StreamQuery.Proofs.Pipeline.LedgerRuns
import StreamQuery.Proofs.Pipeline.HistoryRuns
import StreamQuery.Proofs.Pipeline.Boundaries
import StreamQuery.Proofs.Pipeline.Meetings
import StreamQuery.Proofs.Pipeline.Blocks
import StreamQuery.Proofs.Pipeline.BlockHistory
import StreamQuery.Proofs.TumblingMeans
import StreamQuery.Proofs.RepeatedMeetings
import StreamQuery.Proofs.SkippedMeetings
import StreamQuery.Proofs.EndOfStream
import StreamQuery.Proofs.Engine.Sends
import StreamQuery.Proofs.Engine.Typed
import StreamQuery.Proofs.Operator.Accepts
import StreamQuery.Proofs.Pipeline.SegmentRuns
import StreamQuery.Proofs.TransactionMeans
import StreamQuery.Proofs.TypeSafety
import StreamQuery.Proofs.RepeatedPairs
import StreamQuery.Proofs.Plan.CommitChoice
import StreamQuery.Proofs.Plan.RedoArea
import StreamQuery.Proofs.StableRelations
import StreamQuery.Proofs.ChainResults
import StreamQuery.Proofs.Engine.Pending
import StreamQuery.Proofs.Engine.Turns
import StreamQuery.Proofs.JointCommits
import StreamQuery.Proofs.Relation.Uses
import StreamQuery.Proofs.Relation.Repeated
import StreamQuery.Proofs.Engine.RelationUses
import StreamQuery.Proofs.RepeatableReads
import StreamQuery.Proofs.UncommittedPlans
import StreamQuery.Proofs.Engine.Shapes
import StreamQuery.Proofs.WaterMarks
import StreamQuery.Proofs.WindowJoins
import StreamQuery.Proofs.Tuple.Built
import StreamQuery.Proofs.Engine.Checked
import StreamQuery.Proofs.UnitedStamps
import StreamQuery.Proofs.OptimisticCounters
import StreamQuery.Proofs.Window.EvictionMarks
import StreamQuery.Proofs.Window.Attempts
import StreamQuery.Proofs.Pipeline.Attempts
import StreamQuery.Proofs.Pipeline.AttemptRuns
import StreamQuery.Proofs.RestartedMeans
import StreamQuery.Proofs.Channel.Backup
import StreamQuery.Proofs.Tuple.Joined
import StreamQuery.Proofs.JoinedConditions
import StreamQuery.Proofs.Plan.Traversal
import StreamQuery.Proofs.Operator.Failures
import StreamQuery.Proofs.Engine.Failures
import StreamQuery.Proofs.FailingSteps
