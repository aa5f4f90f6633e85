import TapMysql.Lib.Dict
import TapMysql.Lib.Loop
import TapMysql.Lib.Buffer
import TapMysql.Lib.Paging
import TapMysql.Lib.Digits
import TapMysql.Lib.Quoting
import TapMysql.Lib.Template
import TapMysql.Lib.Utf8
import TapMysql.Lib.Uri
import TapMysql.Lib.Json
import TapMysql.Lib.JsonRoundTrip
import TapMysql.Lib.Runs
import TapMysql.Lib.Minima
import TapMysql.Value
import TapMysql.Singer
import TapMysql.Discovery
import TapMysql.DiscoverCatalog
import TapMysql.DiscoverTables
import TapMysql.Binlog.Record
import TapMysql.Binlog.Run
import TapMysql.Binlog.Steps
import TapMysql.Binlog.Written
import TapMysql.Binlog.Reader
import TapMysql.Binlog.Positions
import TapMysql.Binlog.NoSkip
import TapMysql.Binlog.Gtid
import TapMysql.Binlog.Statement
import TapMysql.Binlog.Lag
import TapMysql.Binlog.Bookmark
import TapMysql.Binlog.ResumeGtid
import TapMysql.Binlog.FileOrder
import TapMysql.Binlog.Consecutive
import TapMysql.Binlog.Executed
import TapMysql.Binlog.Entries
import TapMysql.Binlog.Selection
import TapMysql.Binlog.Routing
import TapMysql.Binlog.Identity
import TapMysql.Binlog.InForce
import TapMysql.Binlog.Mirror
import TapMysql.Binlog.Independence
import TapMysql.Binlog.Settled
import TapMysql.Binlog.InStep
import TapMysql.Binlog.MinPositions
import TapMysql.Protocol
import TapMysql.Binlog.Turn
import TapMysql.Scheduling
import TapMysql.Select.Query
import TapMysql.Select.SyncQuery
import TapMysql.Select.Pass
import TapMysql.Select.Published
import TapMysql.Select.FullTable
import TapMysql.Select.Incremental
import TapMysql.Select.Window
import TapMysql.Select.Attempts
import TapMysql.Select.KeyPages
import TapMysql.Select.Batches
import TapMysql.Select.Timestamps
import TapMysql.Select.Sync
import TapMysql.Select.Retry
import TapMysql.Select.Restart
import TapMysql.Select.Streams
import TapMysql.Select.Carries
import TapMysql.Select.Version
import TapMysql.Select.Sweep
import TapMysql.Select.Snapshot
import TapMysql.Select.Handoff
import TapMysql.Select.HighWater
import TapMysql.Select.Keeps
import TapMysql.Select.Turns
import TapMysql.Select.SqlText
import TapMysql.DoSync
import TapMysql.Lifecycle
import TapMysql.Replication
import TapMysql.Target
import TapMysql.StreamTurn
import TapMysql.FirstSync
import TapMysql.Select.Increment
import TapMysql.Increments
import TapMysql.Lib.Generations
import TapMysql.FullRefresh
import TapMysql.BatchMode
import TapMysql.Binlog.CurrentGtid
import TapMysql.SnapshotGtid
import TapMysql.Rendering
import TapMysql.Durations
import TapMysql.JsonColumns
import TapMysql.JsonDecoding
import TapMysql.ConnectionUri
import TapMysql.Connection
