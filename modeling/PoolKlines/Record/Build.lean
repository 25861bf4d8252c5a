import PoolKlines.Decimal.Quotient
import PoolKlines.Event.Log
import PoolKlines.Operation.Basic
import PoolKlines.Pool.Snapshot
import PoolKlines.Record.Basic

/-!
# Building records

* `swapPrice` is the price of a swap, `swapFee` the fee of a V1 swap;
* `Record.ofOperation?` and `Record.ofEvent?` build the record of a decoded operation or event, if
  its pool is configured.

Amounts are scaled with the decimals of the configured pool; fees with those of the input token.
-/

namespace PoolKlines

/-- The price in token B per token A; there is none when either volume is zero. -/
def swapPrice (volumes : Sides Decimal) : Option Decimal :=
  if volumes.a.IsZero ∨ volumes.b.IsZero then none else volumes.b.div? volumes.a

/-- The fee in raw units, rounded down, at a rate in millionths; it is at most the largest 64-bit
number. -/
def swapFee (amountIn : UInt64) (feeRate : UInt32) : UInt64 :=
  UInt64.ofNat (min (amountIn.toNat * feeRate.toNat / 1000000) (UInt64.size - 1))

/-- The largest signed 128-bit number. -/
def largestChange : Nat := 170141183460469231731687303715884105727

/-- The signed change of liquidity; a magnitude beyond the signed 128-bit range is capped. -/
def liquidityDelta (kind : LiquidityKind) (liquidity : BitVec 128) : Int :=
  let magnitude : Int := min liquidity.toNat largestChange
  match kind with
  | .increase => magnitude
  | .decrease => -magnitude

/-- Raw amounts in the decimals of the pool's tokens. -/
def PoolConfig.scale (pool : PoolConfig) (raw : Sides UInt64) : Sides Decimal :=
  raw.map₂ (fun raw token => Decimal.ofRaw raw token.decimals) pool.tokens

/-- Raw balances in the decimals of the pool's tokens, where they are known. -/
def PoolConfig.scale? (pool : PoolConfig) (raw : Sides (Option UInt64)) :
    Sides (Option Decimal) :=
  raw.map₂ (fun raw token => raw.map (Decimal.ofRaw · token.decimals)) pool.tokens

/-- The value on the side of a swap's input. -/
def Direction.input {α : Type} (d : Direction) (s : Sides α) : α :=
  match d with
  | .aToB => s.a
  | .bToA => s.b

namespace Record

/-- The record of an operation on a V1 pool. -/
def ofOperation? (pools : PoolSnapshot) (o : Operation) (tx : TransactionMeta) : Option Record :=
  (pools.find? o.pool).map fun pool =>
    let header : RecordHeader := ⟨.v1, pool.address, o.user, tx, o.location.seq⟩
    let amounts := pool.scale o.amounts
    let balances := pool.scale? o.balances
    match o.kind with
    | .swap =>
      let direction := Direction.ofV1 o.rawDirection
      let fee := swapFee (direction.input o.amounts) pool.feeRate
      .swap {
        header
        direction
        rawDirection := o.rawDirection
        volumes := amounts
        balances
        fee := Decimal.ofRaw fee (direction.input pool.tokens).decimals
        protocolFee := .zero
        referralFee := .zero
        price := swapPrice amounts }
    | .increase =>
      .liquidity {
        header
        kind := .increase
        delta := liquidityDelta .increase o.liquidity
        amounts
        balances }
    | .decrease =>
      .liquidity {
        header
        kind := .decrease
        delta := liquidityDelta .decrease o.liquidity
        amounts
        balances }
    | .claim => .collect { header, fees := amounts, balances }

/-- The record of a change of liquidity of a V2 pool. -/
def ofLiquidityEvent (pool : PoolConfig) (kind : LiquidityKind) (e : LiquidityEvent)
    (tx : TransactionMeta) (seq : UInt32) : Record :=
  .liquidity {
    header := ⟨.v2, pool.address, e.owner, tx, seq⟩
    kind
    delta := liquidityDelta kind e.liquidity
    amounts := pool.scale e.amounts
    balances := pool.scale? (e.vaultBalances.map some) }

/-- The record of an event of a V2 pool. -/
def ofEvent? (pools : PoolSnapshot) (decoded : DecodedEvent) (tx : TransactionMeta) :
    Option Record :=
  (pools.find? decoded.event.pool).map fun pool =>
    let seq := UInt32.ofNat decoded.logIndex
    match decoded.event with
    | .swap e =>
      let direction := Direction.ofV2 e.direction
      let amounts : Sides UInt64 := match direction with
        | .aToB => ⟨e.amountIn, e.amountOut⟩
        | .bToA => ⟨e.amountOut, e.amountIn⟩
      let volumes := pool.scale amounts
      let decimals := (direction.input pool.tokens).decimals
      .swap {
        header := ⟨.v2, pool.address, e.user, tx, seq⟩
        direction
        rawDirection := e.direction
        volumes
        balances := pool.scale? (e.vaultBalances.map some)
        fee := Decimal.ofRaw e.feeAmount decimals
        protocolFee := Decimal.ofRaw e.protocolFee decimals
        referralFee := Decimal.ofRaw e.referralFee decimals
        price := swapPrice volumes }
    | .increase e => ofLiquidityEvent pool .increase e tx seq
    | .decrease e => ofLiquidityEvent pool .decrease e tx seq
    | .collect e =>
      .collect {
        header := ⟨.v2, pool.address, e.owner, tx, seq⟩
        fees := pool.scale e.fees
        balances := pool.scale? (e.vaultBalances.map some) }

end Record

end PoolKlines
