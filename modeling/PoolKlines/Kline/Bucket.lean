import PoolKlines.Decimal.Quotient
import PoolKlines.Kline.Observation
import PoolKlines.Kline.Resolution

/-!
# Buckets

* `BucketKey` names a bucket by pool, resolution and start, and orders buckets by these;
* `Bucket` is a bar of a price chart with the volumes, balances and counters of its time span;
* `Bucket.empty` and `Bucket.merge`, which folds one observation in.

The prices of a bucket are absent until an observation brings a price. Balances and dollar prices
follow the latest block time, whatever the order of arrival, and a later unknown value does not
replace a known one.
-/

namespace PoolKlines

/-- The block time before all others. -/
def earliestTime : Int := -9223372036854775808

/-- What names a bucket. -/
structure BucketKey where
  pool : String
  resolution : Resolution
  start : Int
  deriving DecidableEq

namespace BucketKey

/-- The bucket of a pool that contains a timestamp. -/
def containing (pool : String) (resolution : Resolution) (timestamp : Int) : BucketKey :=
  ⟨pool, resolution, resolution.start timestamp⟩

instance : Ord BucketKey where
  compare := compareLex (compareOn pool) (compareLex (compareOn resolution) (compareOn start))

instance : Std.TransOrd BucketKey :=
  inferInstanceAs (Std.TransCmp (compareLex _ (compareLex _ _)))

instance : Std.LawfulEqOrd BucketKey where
  compare_self {_} := Std.ReflCmp.compare_self
  eq_of_compare {k l} h := by
    obtain ⟨p, r, s⟩ := k
    obtain ⟨q, t, u⟩ := l
    have h : (compare p q).then ((compare r t).then (compare s u)) = .eq := h
    simp only [Ordering.then_eq_eq, Std.LawfulEqOrd.compare_eq_iff_eq] at h
    obtain ⟨rfl, rfl, rfl⟩ := h
    rfl

end BucketKey

/-- A bar of a price chart. -/
structure Bucket where
  key : BucketKey
  opening : Option Decimal
  high : Option Decimal
  low : Option Decimal
  closing : Option Decimal
  average : Option Decimal
  priceSum : Decimal
  priceCount : UInt64
  volumes : Sides Decimal
  quoteVolume : Decimal
  balances : Sides (Option Decimal)
  usdPrices : Sides (Option Decimal)
  txCount : UInt64
  tradeCount : UInt64
  maxBlockTime : Int
  lastTxId : UInt64
  deriving DecidableEq

namespace Bucket

/-- A bucket without observations. -/
def empty (key : BucketKey) : Bucket where
  key
  opening := none
  high := none
  low := none
  closing := none
  average := none
  priceSum := .zero
  priceCount := 0
  volumes := .both .zero
  quoteVolume := .zero
  balances := .both none
  usdPrices := .both none
  txCount := 0
  tradeCount := 0
  maxBlockTime := earliestTime
  lastTxId := 0

/-- The time after the bucket. -/
def finish (b : Bucket) : Int := b.key.start + b.key.resolution.seconds

/-- The bucket has seen a price. -/
def hasPrice (b : Bucket) : Bool := b.closing.isSome

/-- Fold a price in; the average is the mean of all prices so far. -/
def mergePrice (b : Bucket) (price : Decimal) : Bucket :=
  let priceSum := b.priceSum.saturatingAdd price
  let priceCount := b.priceCount + 1
  let (opening, high, low) := match b.opening, b.high, b.low with
    | some opening, some high, some low => (opening, max high price, min low price)
    | _, _, _ => (price, price, price)
  { b with
    opening := some opening
    high := some high
    low := some low
    closing := some price
    priceSum
    priceCount
    average := (priceSum.div? (.ofCount priceCount)).or b.average }

/-- Add volumes and count the transaction, unless it was the last one counted. -/
def mergeVolumes (b : Bucket) (o : Observation) : Bucket :=
  { b with
    volumes := b.volumes.map₂ Decimal.saturatingAdd o.volumes
    quoteVolume := b.quoteVolume.saturatingAdd o.quoteVolume
    txCount := if o.txId ≠ b.lastTxId then b.txCount + 1 else b.txCount
    lastTxId := o.txId
    tradeCount := if o.isTrade then b.tradeCount + 1 else b.tradeCount }

/-- Take over what an observation knows, unless a later one was seen. -/
def mergeLatest (b : Bucket) (o : Observation) : Bucket :=
  if b.maxBlockTime ≤ o.blockTime then
    { b with
      balances := o.balances.map₂ Option.or b.balances
      usdPrices := o.usdPrices.map₂ Option.or b.usdPrices
      maxBlockTime := o.blockTime }
  else b

/-- Fold an observation in. -/
def merge (b : Bucket) (o : Observation) : Bucket :=
  let priced := match o.price with
    | some price => b.mergePrice price
    | none => b
  (priced.mergeVolumes o).mergeLatest o

@[simp] theorem key_mergePrice (b : Bucket) (price : Decimal) :
    (b.mergePrice price).key = b.key := rfl

@[simp] theorem key_mergeVolumes (b : Bucket) (o : Observation) :
    (b.mergeVolumes o).key = b.key := rfl

@[simp] theorem key_mergeLatest (b : Bucket) (o : Observation) :
    (b.mergeLatest o).key = b.key := by
  unfold mergeLatest
  split <;> rfl

@[simp] theorem key_merge (b : Bucket) (o : Observation) : (b.merge o).key = b.key := by
  unfold merge
  cases o.price <;> simp

end Bucket

end PoolKlines
