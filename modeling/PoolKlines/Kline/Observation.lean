import PoolKlines.Decimal.Sum
import PoolKlines.Record.Basic

/-!
# Observations

An observation is what one record contributes to the buckets and to the totals of its pool.

* `PriceSource` gives the price of a token in US dollars, by its mint;
* `Observation.ofRecord` makes the observation of a record.
-/

namespace PoolKlines

/-- The dollar prices of tokens, where they are known. -/
abbrev PriceSource := String → Option Decimal

/-- What a record contributes. -/
structure Observation where
  txId : UInt64
  blockTime : Int
  price : Option Decimal
  isTrade : Bool
  volumes : Sides Decimal
  quoteVolume : Decimal
  fees : Sides Decimal
  balances : Sides (Option Decimal)
  usdPrices : Sides (Option Decimal)
  deriving DecidableEq

namespace Observation

/-- The volume in dollars: that of token B if its price is known, else that of token A. -/
def quote (volumes : Sides Decimal) (usdPrices : Sides (Option Decimal)) : Decimal :=
  match usdPrices.b, usdPrices.a with
  | some price, _ => volumes.b.saturatingMul price
  | none, some price => volumes.a.saturatingMul price
  | none, none => .zero

/-- The observation of a record of a pool. -/
def ofRecord (record : Record) (pool : PoolConfig) (prices : PriceSource) : Observation :=
  let usdPrices := pool.tokens.map fun token => prices token.mint
  { txId := record.header.tx.id
    blockTime := record.header.tx.blockTime.toInt
    price := record.price
    isTrade := record.isSwap
    volumes := record.volumes
    quoteVolume := quote record.volumes usdPrices
    fees := record.fees
    balances := record.balances
    usdPrices }

end Observation

end PoolKlines
