import PoolKlines.Kline.Bucket

/-!
# Totals of a pool

* `PoolTotals` are the running totals of a pool since it was first seen;
* `PoolTotals.merge` folds one observation in;
* `valueLocked` is what the pool's balances are worth in dollars, over the sides of which both the
  balance and the price are known.
-/

namespace PoolKlines

/-- The running totals of a pool. -/
structure PoolTotals where
  pool : String
  volumes : Sides Decimal
  quoteVolume : Decimal
  fees : Sides Decimal
  txCount : UInt64
  tradeCount : UInt64
  balances : Sides (Option Decimal)
  valueLocked : Option Decimal
  lastBlockTime : Int
  lastTxId : UInt64
  deriving DecidableEq

/-- What one side is worth. -/
def sideValue (balance price : Option Decimal) : Option Decimal :=
  match balance, price with
  | some balance, some price => some (balance.saturatingMul price)
  | _, _ => none

/-- What both sides are worth, as far as it is known. -/
def valueLocked (balances usdPrices : Sides (Option Decimal)) : Option Decimal :=
  match sideValue balances.a usdPrices.a, sideValue balances.b usdPrices.b with
  | some a, some b => some (a.saturatingAdd b)
  | some a, none => some a
  | none, b => b

namespace PoolTotals

/-- Totals without observations. -/
def empty (pool : String) : PoolTotals where
  pool
  volumes := .both .zero
  quoteVolume := .zero
  fees := .both .zero
  txCount := 0
  tradeCount := 0
  balances := .both none
  valueLocked := none
  lastBlockTime := earliestTime
  lastTxId := 0

/-- Add volumes and fees and count the transaction, unless it was the last one counted. -/
def mergeVolumes (t : PoolTotals) (o : Observation) : PoolTotals :=
  { t with
    volumes := t.volumes.map₂ Decimal.saturatingAdd o.volumes
    quoteVolume := t.quoteVolume.saturatingAdd o.quoteVolume
    fees := t.fees.map₂ Decimal.saturatingAdd o.fees
    txCount := if o.txId ≠ t.lastTxId then t.txCount + 1 else t.txCount
    lastTxId := o.txId
    tradeCount := if o.isTrade then t.tradeCount + 1 else t.tradeCount }

/-- Take over what an observation knows, unless a later one was seen. -/
def mergeLatest (t : PoolTotals) (o : Observation) : PoolTotals :=
  if t.lastBlockTime ≤ o.blockTime then
    let balances := o.balances.map₂ Option.or t.balances
    { t with
      balances
      lastBlockTime := o.blockTime
      valueLocked := (PoolKlines.valueLocked balances o.usdPrices).or t.valueLocked }
  else t

/-- Fold an observation in. -/
def merge (t : PoolTotals) (o : Observation) : PoolTotals := (t.mergeVolumes o).mergeLatest o

@[simp] theorem pool_mergeVolumes (t : PoolTotals) (o : Observation) :
    (t.mergeVolumes o).pool = t.pool := rfl

@[simp] theorem pool_mergeLatest (t : PoolTotals) (o : Observation) :
    (t.mergeLatest o).pool = t.pool := by
  unfold mergeLatest
  split <;> rfl

@[simp] theorem pool_merge (t : PoolTotals) (o : Observation) : (t.merge o).pool = t.pool := by
  simp [merge]

end PoolTotals

end PoolKlines
