import Ticksense.Lib.Checkpoint
import Ticksense.Lib.Dict
import Ticksense.Lib.VersionedMap
import Ticksense.Lib.LastWriter
import Ticksense.Lib.Transducer
import Ticksense.Lib.Machine
import Ticksense.Lib.Fallible
import Ticksense.Lib.OffsetLog
import Ticksense.Lib.Marking
import Ticksense.Lib.RunningStats
import Ticksense.Lib.Lockstep
import Ticksense.Python.Float
import Ticksense.Python.Json
import Ticksense.Python.Datetime
import Ticksense.Python.Text
import Ticksense.Market.Exchange
import Ticksense.Ingest.OrderBook
import Ticksense.Ingest.BookSync
import Ticksense.Ingest.RacePoint
import Ticksense.Ingest.Client
import Ticksense.Ingest.Reconnect
import Ticksense.Ingest.Service
import Ticksense.Flink.Logic
import Ticksense.Flink.DiffAgreement
import Ticksense.Flink.Normalize
import Ticksense.Flink.StateCells
import Ticksense.Flink.Redelivery
import Ticksense.Flink.Recovery
import Ticksense.Flink.TopicRows
import Ticksense.EndToEnd
import Ticksense.Pipeline
import Ticksense.LastListed
import Ticksense.RestartedBars
import Ticksense.Replay.IcebergReader
import Ticksense.Replay.OffsetCover
import Ticksense.Replay.Producer
import Ticksense.Replay.Accounting
import Ticksense.Replay.Announcement
import Ticksense.Replay.LiveRun
import Ticksense.Lib.Sql
import Ticksense.Lib.Windows
import Ticksense.Lib.TimedCache
import Ticksense.Ohlcv.Queries
import Ticksense.Ohlcv.Backfill
import Ticksense.Ohlcv.Agreement
import Ticksense.Ohlcv.Rerun
import Ticksense.Ohlcv.Accumulator
import Ticksense.Ohlcv.StateAgreement
import Ticksense.Ohlcv.WindowJob
import Ticksense.Dbt.MartLiquidity
import Ticksense.Replay.TimeLookup
import Ticksense.Replay.Budget
import Ticksense.Replay.Streams
import Ticksense.Replay.QuietLog
import Ticksense.Replay.Delivery
import Ticksense.Replay.Copies
import Ticksense.Replay.SymbolFilter
import Ticksense.Replay.TwoParts
import Ticksense.ReplayedTopic
import Ticksense.Flink.BookTicker
import Ticksense.Flink.Cdc
import Ticksense.Flink.Envelope
import Ticksense.Flink.CdcRecovery
import Ticksense.Flink.SqlLexer
import Ticksense.Flink.SqlRunner
import Ticksense.Flink.SqlTemplate
import Ticksense.Api.Responses
import Ticksense.Api.ReadModel
import Ticksense.Api.Poller
import Ticksense.Api.Gauges
import Ticksense.Api.OhlcvPaths
import Ticksense.Api.ColdCache
import Ticksense.Api.Availability
