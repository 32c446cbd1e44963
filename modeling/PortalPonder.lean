import PortalPonder.Lib.OrdMap
import PortalPonder.Lib.Gen
import PortalPonder.Client.Coverage
import PortalPonder.Client.Termination
import PortalPonder.Historical.ChunkCoverage
import PortalPonder.Realtime.Finality
import PortalPonder.Realtime.ForkPoint
import PortalPonder.Realtime.Accounting
import PortalPonder.Realtime.Link
import PortalPonder.Filters
import PortalPonder.Historical.Assemble
import PortalPonder.Historical.RangeSync
import PortalPonder.Historical.Informed
import PortalPonder.Historical.Pipeline
import PortalPonder.Historical.Completeness
import PortalPonder.Cutover.Guard
import PortalPonder.Cutover.Boundary
import PortalPonder.Assembly.Traces
import PortalPonder.Assembly.Range
import PortalPonder.Assembly.TraceRows
import PortalPonder.Assembly.Streams
import PortalPonder.Assembly.Sharding
import PortalPonder.Assembly.MissingColumns
import PortalPonder.Assembly.Contents
import PortalPonder.Assembly.Lifecycle
import PortalPonder.Assembly.Projection
import PortalPonder.Assembly.Columns
import PortalPonder.Assembly.Losses
import PortalPonder.Assembly.ChunkHeaders
import PortalPonder.Client.Gate
import PortalPonder.Client.Slots
import PortalPonder.Historical.RowBudget
import PortalPonder.Client.Bodies
import PortalPonder.Realtime.Wildcards
import PortalPonder.ShardBodies
import PortalPonder.Client.Degradation
import PortalPonder.Realtime.Degradation
import PortalPonder.Lib.PathTree
import PortalPonder.Assembly.Ranking
import PortalPonder.Lib.LeastMap
import PortalPonder.Lib.Readable
import PortalPonder.ChildDedupe
import PortalPonder.Assembly.BlockRows
import PortalPonder.Assembly.Additivity
import PortalPonder.Assembly.Exact
import PortalPonder.Assembly.Inserts
import PortalPonder.Realtime.HotStream
import PortalPonder.Realtime.Lossless
import PortalPonder.Historical.Discovered
import PortalPonder.Historical.Queue
import PortalPonder.Client.Truncation
import PortalPonder.Realtime.Watchdog
import PortalPonder.Realtime.Deferral
import PortalPonder.Realtime.BlockLogs
import PortalPonder.PortalSync.StreamFinalized
import PortalPonder.Realtime.BodyCache
import PortalPonder.Harness.StoreDiff
import PortalPonder.Historical.Transactions
import PortalPonder.Historical.Durable
import PortalPonder.ChildWriters
import PortalPonder.Historical.Sessions
import PortalPonder.Client.HeadProbe
import PortalPonder.Historical.ProbedHeads
import PortalPonder.Realtime.ConflictBodies
import PortalPonder.Cutover.FinalityFloor
import PortalPonder.Realtime.Branch
import PortalPonder.Seam
import PortalPonder.PortalSync.Backfill
import PortalPonder.PortalSync.Traces
