import PoolKlines.Event.Log
import PoolKlines.Json.Decode

/-!
# Events in JSON

* `PoolEvent.toJson` and `PoolEvent.ofJson?`: an event is an object with its kind and its fields;
* `DecodedEvent.toJson` adds the name of the event and its line.
-/

namespace PoolKlines

/-! ### Writing -/

/-- Write the fields of a swap. -/
def SwapEvent.toJson (e : SwapEvent) : Json :=
  .object [
    ("pool", .string e.pool),
    ("user", .string e.user),
    ("direction", .integer e.direction.toNat),
    ("amountIn", Json.ofUInt64 e.amountIn),
    ("amountOut", Json.ofUInt64 e.amountOut),
    ("feeAmount", Json.ofUInt64 e.feeAmount),
    ("protocolFee", Json.ofUInt64 e.protocolFee),
    ("referralFee", Json.ofUInt64 e.referralFee),
    ("sqrtPrice", .integer e.sqrtPrice.toNat),
    ("liquidity", .integer e.liquidity.toNat),
    ("vaultABalance", Json.ofUInt64 e.vaultBalances.a),
    ("vaultBBalance", Json.ofUInt64 e.vaultBalances.b),
    ("tick", .integer e.tick.toInt)]

/-- Write the fields of a change of liquidity. -/
def LiquidityEvent.toJson (e : LiquidityEvent) : Json :=
  .object [
    ("pool", .string e.pool),
    ("owner", .string e.owner),
    ("position", .string e.position),
    ("liquidity", .integer e.liquidity.toNat),
    ("amountA", Json.ofUInt64 e.amounts.a),
    ("amountB", Json.ofUInt64 e.amounts.b),
    ("vaultABalance", Json.ofUInt64 e.vaultBalances.a),
    ("vaultBBalance", Json.ofUInt64 e.vaultBalances.b)]

/-- Write the fields of a collection of fees. -/
def CollectEvent.toJson (e : CollectEvent) : Json :=
  .object [
    ("pool", .string e.pool),
    ("owner", .string e.owner),
    ("position", .string e.position),
    ("feeA", Json.ofUInt64 e.fees.a),
    ("feeB", Json.ofUInt64 e.fees.b),
    ("vaultABalance", Json.ofUInt64 e.vaultBalances.a),
    ("vaultBBalance", Json.ofUInt64 e.vaultBalances.b)]

/-- Write an event: its kind beside its fields. -/
def PoolEvent.toJson (event : PoolEvent) : Json :=
  let (kind, data) := match event with
    | swap e => ("Swap", e.toJson)
    | increase e => ("IncreaseLiquidity", e.toJson)
    | decrease e => ("DecreaseLiquidity", e.toJson)
    | collect e => ("CollectFee", e.toJson)
  .object [("kind", .string kind), ("data", data)]

/-- Write a decoded event. -/
def DecodedEvent.toJson (e : DecodedEvent) : Json :=
  .object [
    ("name", .string e.name),
    ("logIndex", .integer e.logIndex),
    ("event", e.event.toJson)]

/-! ### Reading -/

/-- Read two amounts. -/
def Sides.amounts? (a b : Option Json) : Option (Sides UInt64) := do
  return ⟨← Json.required Json.uint64? a, ← Json.required Json.uint64? b⟩

/-- Read the fields of a swap. -/
def SwapEvent.ofJson? (j : Json) : Option SwapEvent := do
  let [pool, user, direction, amountIn, amountOut, feeAmount, protocolFee, referralFee, sqrtPrice,
    liquidity, balanceA, balanceB, tick] ← j.record? ["pool", "user", "direction", "amountIn",
      "amountOut", "feeAmount", "protocolFee", "referralFee", "sqrtPrice", "liquidity",
      "vaultABalance", "vaultBBalance", "tick"] | none
  return {
    pool := ← Json.required Json.string? pool
    user := ← Json.required Json.string? user
    direction := ← Json.required Json.uint8? direction
    amountIn := ← Json.required Json.uint64? amountIn
    amountOut := ← Json.required Json.uint64? amountOut
    feeAmount := ← Json.required Json.uint64? feeAmount
    protocolFee := ← Json.required Json.uint64? protocolFee
    referralFee := ← Json.required Json.uint64? referralFee
    sqrtPrice := ← Json.required Json.uint128? sqrtPrice
    liquidity := ← Json.required Json.uint128? liquidity
    vaultBalances := ← Sides.amounts? balanceA balanceB
    tick := ← Json.required Json.int32? tick }

/-- Read the fields of a change of liquidity. -/
def LiquidityEvent.ofJson? (j : Json) : Option LiquidityEvent := do
  let [pool, owner, position, liquidity, amountA, amountB, balanceA, balanceB] ←
    j.record? ["pool", "owner", "position", "liquidity", "amountA", "amountB", "vaultABalance",
      "vaultBBalance"] | none
  return {
    pool := ← Json.required Json.string? pool
    owner := ← Json.required Json.string? owner
    position := ← Json.required Json.string? position
    liquidity := ← Json.required Json.uint128? liquidity
    amounts := ← Sides.amounts? amountA amountB
    vaultBalances := ← Sides.amounts? balanceA balanceB }

/-- Read the fields of a collection of fees. -/
def CollectEvent.ofJson? (j : Json) : Option CollectEvent := do
  let [pool, owner, position, feeA, feeB, balanceA, balanceB] ←
    j.record? ["pool", "owner", "position", "feeA", "feeB", "vaultABalance", "vaultBBalance"]
    | none
  return {
    pool := ← Json.required Json.string? pool
    owner := ← Json.required Json.string? owner
    position := ← Json.required Json.string? position
    fees := ← Sides.amounts? feeA feeB
    vaultBalances := ← Sides.amounts? balanceA balanceB }

/-- Read an event. -/
def PoolEvent.ofJson? (j : Json) : Option PoolEvent := do
  let [kind, data] ← j.record? ["kind", "data"] | none
  let kind ← Json.required Json.string? kind
  let data ← data
  if kind = "Swap" then return swap (← SwapEvent.ofJson? data)
  else if kind = "IncreaseLiquidity" then return increase (← LiquidityEvent.ofJson? data)
  else if kind = "DecreaseLiquidity" then return decrease (← LiquidityEvent.ofJson? data)
  else if kind = "CollectFee" then return collect (← CollectEvent.ofJson? data)
  else none

end PoolKlines
