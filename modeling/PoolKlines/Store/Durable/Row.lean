import PoolKlines.Kline.Totals
import PoolKlines.Store.Durable.Cell
import PoolKlines.Transaction.Json

/-!
# Table rows

What a database keeps of buckets, totals, cursors, shards and transactions. Decimals are kept as
text, unsigned numbers as the signed numbers with the same bits.

* `BucketRow.ofBucket` and `BucketRow.bucket` convert between a bucket and its row;
* `TotalsRow.ofTotals` and `TotalsRow.totals` between totals and their row;
* `CursorRow`, `ShardRow` and `TransactionRow`.

A text that is no decimal, and a cell that is no whole number, are reported with the number of their
column, the first such column first.
-/

namespace PoolKlines

/-- The text of a decimal that may be absent. -/
def decimalCell (d : Option Decimal) : Option String := d.map Decimal.toText

/-- Read the decimal in a column. -/
def readDecimal (column : Nat) (text : String) : Except DatabaseFault Decimal :=
  (Decimal.parse text).mapError (.decimal column)

/-- Read the decimal in a column, if there is one. -/
def readOptionalDecimal (column : Nat) (text : Option String) :
    Except DatabaseFault (Option Decimal) :=
  match text with
  | none => .ok none
  | some text => (readDecimal column text).map some

/-- Read two neighbouring columns. -/
def readDecimals (column : Nat) (texts : Sides String) : Except DatabaseFault (Sides Decimal) := do
  return ⟨← readDecimal column texts.a, ← readDecimal (column + 1) texts.b⟩

/-- Read two neighbouring columns, where they are filled. -/
def readOptionalDecimals (column : Nat) (texts : Sides (Option String)) :
    Except DatabaseFault (Sides (Option Decimal)) := do
  return ⟨← readOptionalDecimal column texts.a, ← readOptionalDecimal (column + 1) texts.b⟩

/-- Read the name of a pool in the first column. -/
def readKey (pool : Option String) : Except DatabaseFault String :=
  match pool with
  | some pool => .ok pool
  | none => .error (.columnType 0 "pool" .null)

/-! ### Buckets -/

/-- A row of the bucket table of a shard. -/
structure BucketRow where
  shard : UInt16
  pool : String
  resolution : String
  start : NumberCell
  opening : Option String
  high : Option String
  low : Option String
  closing : Option String
  average : Option String
  priceSum : String
  priceCount : NumberCell
  volumes : Sides String
  quoteVolume : String
  balances : Sides (Option String)
  usdPrices : Sides (Option String)
  txCount : NumberCell
  tradeCount : NumberCell
  maxBlockTime : NumberCell
  lastTxId : NumberCell
  deriving DecidableEq

namespace BucketRow

/-- The row of a bucket. -/
def ofBucket (shard : UInt16) (b : Bucket) : BucketRow where
  shard
  pool := b.key.pool
  resolution := b.key.resolution.name
  start := .integer b.key.start
  opening := decimalCell b.opening
  high := decimalCell b.high
  low := decimalCell b.low
  closing := decimalCell b.closing
  average := decimalCell b.average
  priceSum := b.priceSum.toText
  priceCount := .ofUInt64 b.priceCount
  volumes := b.volumes.map Decimal.toText
  quoteVolume := b.quoteVolume.toText
  balances := b.balances.map decimalCell
  usdPrices := b.usdPrices.map decimalCell
  txCount := .ofUInt64 b.txCount
  tradeCount := .ofUInt64 b.tradeCount
  maxBlockTime := .integer b.maxBlockTime
  lastTxId := .ofUInt64 b.lastTxId

/-- The bucket of a row. -/
def bucket (r : BucketRow) : Except DatabaseFault Bucket := do
  let resolution ← match Resolution.ofName? r.resolution with
    | some resolution => pure resolution
    | none => throw (.resolution 1 r.resolution)
  return {
    key := ⟨r.pool, resolution, ← r.start.int 2 "bucket_start"⟩
    opening := ← readOptionalDecimal 3 r.opening
    high := ← readOptionalDecimal 4 r.high
    low := ← readOptionalDecimal 5 r.low
    closing := ← readOptionalDecimal 6 r.closing
    average := ← readOptionalDecimal 7 r.average
    priceSum := ← readDecimal 8 r.priceSum
    priceCount := ← r.priceCount.count 9 "price_count"
    volumes := ← readDecimals 10 r.volumes
    quoteVolume := ← readDecimal 12 r.quoteVolume
    balances := ← readOptionalDecimals 13 r.balances
    usdPrices := ← readOptionalDecimals 15 r.usdPrices
    txCount := ← r.txCount.count 17 "tx_count"
    tradeCount := ← r.tradeCount.count 18 "trade_count"
    maxBlockTime := ← r.maxBlockTime.int 19 "max_block_time"
    lastTxId := ← r.lastTxId.count 20 "last_tx_id" }

/-- The row is in the table of a shard and belongs to a pool at a resolution. -/
def isOf (r : BucketRow) (shard : UInt16) (pool : String) (resolution : Resolution) : Bool :=
  r.shard = shard && r.pool = pool && r.resolution = resolution.name

/-- Two rows have the same key in the same table. -/
def sameKey (r s : BucketRow) : Bool :=
  r.shard = s.shard && r.pool = s.pool && r.resolution = s.resolution && r.start = s.start

end BucketRow

/-! ### Totals -/

/-- A row of the table of totals. -/
structure TotalsRow where
  pool : Option String
  volumes : Sides String
  quoteVolume : String
  fees : Sides String
  txCount : NumberCell
  tradeCount : NumberCell
  balances : Sides (Option String)
  valueLocked : Option String
  lastBlockTime : NumberCell
  lastTxId : NumberCell
  deriving DecidableEq

namespace TotalsRow

/-- The row of totals. -/
def ofTotals (t : PoolTotals) : TotalsRow where
  pool := some t.pool
  volumes := t.volumes.map Decimal.toText
  quoteVolume := t.quoteVolume.toText
  fees := t.fees.map Decimal.toText
  txCount := .ofUInt64 t.txCount
  tradeCount := .ofUInt64 t.tradeCount
  balances := t.balances.map decimalCell
  valueLocked := decimalCell t.valueLocked
  lastBlockTime := .integer t.lastBlockTime
  lastTxId := .ofUInt64 t.lastTxId

/-- The totals of a row. -/
def totals (r : TotalsRow) : Except DatabaseFault PoolTotals := do
  return {
    pool := ← readKey r.pool
    volumes := ← readDecimals 1 r.volumes
    quoteVolume := ← readDecimal 3 r.quoteVolume
    fees := ← readDecimals 4 r.fees
    txCount := ← r.txCount.count 6 "tx_count"
    tradeCount := ← r.tradeCount.count 7 "trade_count"
    balances := ← readOptionalDecimals 8 r.balances
    valueLocked := ← readOptionalDecimal 10 r.valueLocked
    lastBlockTime := ← r.lastBlockTime.int 11 "last_block_time"
    lastTxId := ← r.lastTxId.count 12 "last_tx_id" }

end TotalsRow

/-! ### Cursors, shards and transactions -/

/-- A row of the table of cursors. -/
structure CursorRow where
  pool : String
  version : String
  txId : NumberCell
  deriving DecidableEq

namespace CursorRow

/-- The row belongs to a pool and a version. -/
def isOf (r : CursorRow) (pool : String) (version : ProtocolVersion) : Bool :=
  r.pool = pool && r.version = version.name

/-- The cursor. -/
def cursor (r : CursorRow) : Except DatabaseFault UInt64 := r.txId.count 0 "tx_id"

end CursorRow

/-- A row of the table of shards. -/
structure ShardRow where
  pool : Option String
  shard : NumberCell
  deriving DecidableEq

/-- The pool and the shard of a row. Of the number 16 bits count. -/
def ShardRow.assignment (r : ShardRow) : Except DatabaseFault (String × UInt16) := do
  let pool ← readKey r.pool
  let shard ← r.shard.int 1 "shard"
  return (pool, UInt16.ofNat (shard % 65536).toNat)

/-- A row of the table of transactions; the payload is the text of the transaction. -/
structure TransactionRow where
  id : Int64
  pool : String
  slot : NumberCell
  signature : String
  blockTime : NumberCell
  payload : String
  deriving DecidableEq

namespace TransactionRow

/-- The row of a transaction of a pool. -/
def ofTransaction (id : Int64) (pool : String) (t : Transaction) : TransactionRow where
  id
  pool
  slot := .ofUInt64 t.slot
  signature := t.signature
  blockTime := .ofInt64 t.blockTime
  payload := t.render

/-- The slot and the block time of a row. -/
def slotAndTime (r : TransactionRow) : Except DatabaseFault (UInt64 × Int64) := do
  return (← r.slot.count 2 "slot", ← r.blockTime.int64 4 "block_time")

/-- The transaction of a row with a slot and a block time. -/
def stored (r : TransactionRow) (slot : UInt64) (blockTime : Int64) :
    Except StoreError StoredTransaction :=
  match Transaction.parse r.payload with
  | none => .error .payload
  | some tx => .ok ⟨r.id.toUInt64, r.pool, slot, r.signature, blockTime, tx⟩

/-- The transactions of rows. Numbers of all rows are read before the first payload. -/
def storedAll (rows : List TransactionRow) : Except StoreError (List StoredTransaction) := do
  let numbers ← (rows.mapM slotAndTime).mapError .database
  (rows.zip numbers).mapM fun (r, slot, blockTime) => r.stored slot blockTime

/-- The order in which rows are served: by slot, then by id. -/
def servedBefore (r s : TransactionRow) : Bool :=
  r.slot.before s.slot || (!s.slot.before r.slot && r.id ≤ s.id)

end TransactionRow

end PoolKlines
