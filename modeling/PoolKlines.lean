import PoolKlines.Bytes.Base58
import PoolKlines.Bytes.Base64
import PoolKlines.Bytes.LittleEndian
import PoolKlines.Bytes.Reader
import PoolKlines.Bytes.Sha256
import PoolKlines.Decimal.Basic
import PoolKlines.Decimal.Quotient
import PoolKlines.Decimal.Sum
import PoolKlines.Decimal.Text
import PoolKlines.DecodeError
import PoolKlines.ErrorJson
import PoolKlines.Event.Basic
import PoolKlines.Event.Json
import PoolKlines.Event.Log
import PoolKlines.Event.Registry
import PoolKlines.IndexerError
import PoolKlines.Json.Basic
import PoolKlines.Json.Decode
import PoolKlines.Json.Parser
import PoolKlines.Kline.Bucket
import PoolKlines.Kline.Json
import PoolKlines.Kline.Observation
import PoolKlines.Kline.Resolution
import PoolKlines.Kline.Rollup
import PoolKlines.Kline.Totals
import PoolKlines.Number.Binary
import PoolKlines.Number.HalfEven
import PoolKlines.Number.Numeral
import PoolKlines.Number.Power
import PoolKlines.Operation.Basic
import PoolKlines.Operation.Decode
import PoolKlines.Operation.Settlement
import PoolKlines.Pool.Config
import PoolKlines.Pool.Snapshot
import PoolKlines.Proofs.Bytes.Base58
import PoolKlines.Proofs.Bytes.Base64
import PoolKlines.Proofs.Bytes.Reader
import PoolKlines.Proofs.Computation
import PoolKlines.Proofs.Decimal.Mean
import PoolKlines.Proofs.Decimal.Positive
import PoolKlines.Proofs.Decimal.Quotient
import PoolKlines.Proofs.Decimal.Sign
import PoolKlines.Proofs.Decimal.Text
import PoolKlines.Proofs.Decimal.Value
import PoolKlines.Proofs.Event.Layout
import PoolKlines.Proofs.Event.Line
import PoolKlines.Proofs.Event.Registry
import PoolKlines.Proofs.Json.Parser
import PoolKlines.Proofs.Kline.Average
import PoolKlines.Proofs.Kline.Bar
import PoolKlines.Proofs.Kline.CarryForward
import PoolKlines.Proofs.Kline.Conservation
import PoolKlines.Proofs.Kline.Consistency
import PoolKlines.Proofs.Kline.Frame
import PoolKlines.Proofs.Kline.Plain
import PoolKlines.Proofs.Kline.Presence
import PoolKlines.Proofs.Kline.Projection
import PoolKlines.Proofs.Kline.Resolution
import PoolKlines.Proofs.Kline.Rollup
import PoolKlines.Proofs.Kline.Rounds
import PoolKlines.Proofs.Kline.Slots
import PoolKlines.Proofs.Kline.Tally
import PoolKlines.Proofs.Kline.ValueLocked
import PoolKlines.Proofs.Operation.Decode
import PoolKlines.Proofs.Operation.Locality
import PoolKlines.Proofs.Operation.Mirror
import PoolKlines.Proofs.Operation.Order
import PoolKlines.Proofs.Operation.Vaults
import PoolKlines.Proofs.Pool.Snapshot
import PoolKlines.Proofs.Record.Agreement
import PoolKlines.Proofs.Record.Configuration
import PoolKlines.Proofs.Record.Price
import PoolKlines.Proofs.Rpc.Convert
import PoolKlines.Proofs.Sorted
import PoolKlines.Proofs.Store.Agreement
import PoolKlines.Proofs.Store.Archive
import PoolKlines.Proofs.Store.Assignment
import PoolKlines.Proofs.Store.Backfill
import PoolKlines.Proofs.Store.Balance
import PoolKlines.Proofs.Store.Fresh
import PoolKlines.Proofs.Store.Memory
import PoolKlines.Proofs.Store.Mirror
import PoolKlines.Proofs.Store.Refinement
import PoolKlines.Proofs.Store.RoundTrip
import PoolKlines.Proofs.Store.ShardTable
import PoolKlines.Proofs.Store.Table
import PoolKlines.Proofs.Sync.Attuned
import PoolKlines.Proofs.Sync.Carry
import PoolKlines.Proofs.Sync.Cycle
import PoolKlines.Proofs.Sync.Drain
import PoolKlines.Proofs.Sync.Durable
import PoolKlines.Proofs.Sync.ExactlyOnce
import PoolKlines.Proofs.Sync.ExecutionOrder
import PoolKlines.Proofs.Sync.FaultFree
import PoolKlines.Proofs.Sync.FirstInversion
import PoolKlines.Proofs.Sync.Interference
import PoolKlines.Proofs.Sync.Inversion
import PoolKlines.Proofs.Sync.Isolation
import PoolKlines.Proofs.Sync.Journal
import PoolKlines.Proofs.Sync.Ledger
import PoolKlines.Proofs.Sync.LeftBehind
import PoolKlines.Proofs.Sync.Link
import PoolKlines.Proofs.Sync.Log
import PoolKlines.Proofs.Sync.PageBorder
import PoolKlines.Proofs.Sync.Process
import PoolKlines.Proofs.Sync.Progress
import PoolKlines.Proofs.Sync.Report
import PoolKlines.Proofs.Sync.Retrieval
import PoolKlines.Proofs.Sync.Retry
import PoolKlines.Proofs.Sync.Source
import PoolKlines.Proofs.Sync.Unpoisoned
import PoolKlines.Proofs.Sync.Writer
import PoolKlines.Proofs.Transaction.Json
import PoolKlines.Record.Basic
import PoolKlines.Record.Build
import PoolKlines.Record.Json
import PoolKlines.Rpc.Basic
import PoolKlines.Rpc.Convert
import PoolKlines.Rpc.Failure
import PoolKlines.Rpc.Json
import PoolKlines.Settings.Basic
import PoolKlines.Settings.File
import PoolKlines.Settings.Json
import PoolKlines.Sides
import PoolKlines.Store.Basic
import PoolKlines.Store.Durable.Basic
import PoolKlines.Store.Durable.Cell
import PoolKlines.Store.Durable.Edit
import PoolKlines.Store.Durable.Row
import PoolKlines.Store.Memory
import PoolKlines.Store.Shard
import PoolKlines.Sync.Cycle
import PoolKlines.Sync.Indexer
import PoolKlines.Sync.Inversion
import PoolKlines.Sync.Link
import PoolKlines.Sync.Worker
import PoolKlines.Text.Blank
import PoolKlines.Text.Count
import PoolKlines.Transaction.Basic
import PoolKlines.Transaction.Json
