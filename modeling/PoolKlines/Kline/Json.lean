import PoolKlines.Kline.Totals
import PoolKlines.Record.Json

/-!
# Buckets and totals in JSON

`toJson` and `ofJson?` for bucket keys, observations, buckets and totals. A price or balance that is
unknown is `null`, and an observation need not name what it does not contribute.
-/

namespace PoolKlines

namespace BucketKey

/-- Write a key. -/
def toJson (k : BucketKey) : Json :=
  .object [
    ("pool", .string k.pool),
    ("resolution", .string k.resolution.name),
    ("bucketStart", .integer k.start)]

/-- Read a key. -/
def ofJson? (j : Json) : Option BucketKey := do
  let [pool, resolution, start] ← j.record? ["pool", "resolution", "bucketStart"] | none
  return {
    pool := ← Json.required Json.string? pool
    resolution := ← Json.required Resolution.ofJson? resolution
    start := (← Json.required Json.int64? start).toInt }

end BucketKey

namespace Observation

/-- Write an observation. -/
def toJson (o : Observation) : Json :=
  .object [
    ("txId", Json.ofUInt64 o.txId),
    ("blockTime", .integer o.blockTime),
    ("price", Decimal.optionToJson o.price),
    ("isTrade", .bool o.isTrade),
    ("volumeA", o.volumes.a.toJson),
    ("volumeB", o.volumes.b.toJson),
    ("quoteVolume", o.quoteVolume.toJson),
    ("feeA", o.fees.a.toJson),
    ("feeB", o.fees.b.toJson),
    ("balanceA", Decimal.optionToJson o.balances.a),
    ("balanceB", Decimal.optionToJson o.balances.b),
    ("usdPriceA", Decimal.optionToJson o.usdPrices.a),
    ("usdPriceB", Decimal.optionToJson o.usdPrices.b)]

/-- Read an observation. -/
def ofJson? (j : Json) : Option Observation := do
  let [txId, blockTime, price, isTrade, volumeA, volumeB, quoteVolume, feeA, feeB, balanceA,
    balanceB, usdPriceA, usdPriceB] ← j.record? ["txId", "blockTime", "price", "isTrade",
      "volumeA", "volumeB", "quoteVolume", "feeA", "feeB", "balanceA", "balanceB", "usdPriceA",
      "usdPriceB"] | none
  let amount (field : Option Json) : Option Decimal :=
    (Json.optional Json.decimal? field).map (·.getD .zero)
  return {
    txId := ← Json.required Json.uint64? txId
    blockTime := (← Json.required Json.int64? blockTime).toInt
    price := ← Json.optional Json.decimal? price
    isTrade := (← Json.optional Json.bool? isTrade).getD false
    volumes := ⟨← amount volumeA, ← amount volumeB⟩
    quoteVolume := ← amount quoteVolume
    fees := ⟨← amount feeA, ← amount feeB⟩
    balances := ← Sides.optionalDecimals? balanceA balanceB
    usdPrices := ← Sides.optionalDecimals? usdPriceA usdPriceB }

end Observation

namespace Bucket

/-- The fields of a bucket in JSON. -/
def fieldNames : List String :=
  ["pool", "resolution", "bucketStart", "open", "high", "low", "close", "average", "priceSum",
    "priceCount", "volumeA", "volumeB", "quoteVolume", "balanceA", "balanceB", "usdPriceA",
    "usdPriceB", "txCount", "tradeCount", "maxBlockTime", "lastTxId"]

/-- Write a bucket. -/
def toJson (b : Bucket) : Json :=
  .object [
    ("pool", .string b.key.pool),
    ("resolution", .string b.key.resolution.name),
    ("bucketStart", .integer b.key.start),
    ("open", Decimal.optionToJson b.opening),
    ("high", Decimal.optionToJson b.high),
    ("low", Decimal.optionToJson b.low),
    ("close", Decimal.optionToJson b.closing),
    ("average", Decimal.optionToJson b.average),
    ("priceSum", b.priceSum.toJson),
    ("priceCount", Json.ofUInt64 b.priceCount),
    ("volumeA", b.volumes.a.toJson),
    ("volumeB", b.volumes.b.toJson),
    ("quoteVolume", b.quoteVolume.toJson),
    ("balanceA", Decimal.optionToJson b.balances.a),
    ("balanceB", Decimal.optionToJson b.balances.b),
    ("usdPriceA", Decimal.optionToJson b.usdPrices.a),
    ("usdPriceB", Decimal.optionToJson b.usdPrices.b),
    ("txCount", Json.ofUInt64 b.txCount),
    ("tradeCount", Json.ofUInt64 b.tradeCount),
    ("maxBlockTime", .integer b.maxBlockTime),
    ("lastTxId", Json.ofUInt64 b.lastTxId)]

/-- Read a bucket. -/
def ofJson? (j : Json) : Option Bucket := do
  let [pool, resolution, start, opening, high, low, closing, average, priceSum, priceCount,
    volumeA, volumeB, quoteVolume, balanceA, balanceB, usdPriceA, usdPriceB, txCount, tradeCount,
    maxBlockTime, lastTxId] ← j.record? fieldNames | none
  return {
    key := {
      pool := ← Json.required Json.string? pool
      resolution := ← Json.required Resolution.ofJson? resolution
      start := (← Json.required Json.int64? start).toInt }
    opening := ← Json.optional Json.decimal? opening
    high := ← Json.optional Json.decimal? high
    low := ← Json.optional Json.decimal? low
    closing := ← Json.optional Json.decimal? closing
    average := ← Json.optional Json.decimal? average
    priceSum := ← Json.required Json.decimal? priceSum
    priceCount := ← Json.required Json.uint64? priceCount
    volumes := ← Sides.decimals? volumeA volumeB
    quoteVolume := ← Json.required Json.decimal? quoteVolume
    balances := ← Sides.optionalDecimals? balanceA balanceB
    usdPrices := ← Sides.optionalDecimals? usdPriceA usdPriceB
    txCount := ← Json.required Json.uint64? txCount
    tradeCount := ← Json.required Json.uint64? tradeCount
    maxBlockTime := (← Json.required Json.int64? maxBlockTime).toInt
    lastTxId := ← Json.required Json.uint64? lastTxId }

end Bucket

namespace PoolTotals

/-- The fields of totals in JSON. -/
def fieldNames : List String :=
  ["pool", "volumeA", "volumeB", "quoteVolume", "feeA", "feeB", "txCount", "tradeCount",
    "balanceA", "balanceB", "tvlUsd", "lastBlockTime", "lastTxId"]

/-- Write totals. -/
def toJson (t : PoolTotals) : Json :=
  .object [
    ("pool", .string t.pool),
    ("volumeA", t.volumes.a.toJson),
    ("volumeB", t.volumes.b.toJson),
    ("quoteVolume", t.quoteVolume.toJson),
    ("feeA", t.fees.a.toJson),
    ("feeB", t.fees.b.toJson),
    ("txCount", Json.ofUInt64 t.txCount),
    ("tradeCount", Json.ofUInt64 t.tradeCount),
    ("balanceA", Decimal.optionToJson t.balances.a),
    ("balanceB", Decimal.optionToJson t.balances.b),
    ("tvlUsd", Decimal.optionToJson t.valueLocked),
    ("lastBlockTime", .integer t.lastBlockTime),
    ("lastTxId", Json.ofUInt64 t.lastTxId)]

/-- Read totals. -/
def ofJson? (j : Json) : Option PoolTotals := do
  let [pool, volumeA, volumeB, quoteVolume, feeA, feeB, txCount, tradeCount, balanceA, balanceB,
    valueLocked, lastBlockTime, lastTxId] ← j.record? fieldNames | none
  return {
    pool := ← Json.required Json.string? pool
    volumes := ← Sides.decimals? volumeA volumeB
    quoteVolume := ← Json.required Json.decimal? quoteVolume
    fees := ← Sides.decimals? feeA feeB
    txCount := ← Json.required Json.uint64? txCount
    tradeCount := ← Json.required Json.uint64? tradeCount
    balances := ← Sides.optionalDecimals? balanceA balanceB
    valueLocked := ← Json.optional Json.decimal? valueLocked
    lastBlockTime := (← Json.required Json.int64? lastBlockTime).toInt
    lastTxId := ← Json.required Json.uint64? lastTxId }

end PoolTotals

end PoolKlines
