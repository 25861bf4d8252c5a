import PoolKlines.Record.Basic

/-!
# Records in JSON

A record is an object with the fields of its kind and a field `type` that names the kind.

* `Record.toJson` writes a record, `Record.ofJson?` reads one;
* balances and the price may be absent or `null`;
* `Record.viewToJson` writes the views common to all records beside the record.
-/

namespace PoolKlines

/-- A decimal as a string. -/
def Decimal.toJson (d : Decimal) : Json := .string d.toText

/-- A decimal that may be absent. -/
def Decimal.optionToJson (d : Option Decimal) : Json := Json.ofOption Decimal.toJson d

namespace RecordHeader

/-- Write a header. -/
def toJson (h : RecordHeader) : Json :=
  .object [
    ("version", .string h.version.name),
    ("pool", .string h.pool),
    ("user", .string h.user),
    ("tx", h.tx.toJson),
    ("seq", .integer h.seq.toNat)]

/-- Read a header. -/
def ofJson? (j : Json) : Option RecordHeader := do
  let [version, pool, user, tx, seq] ← j.record? ["version", "pool", "user", "tx", "seq"] | none
  return {
    version := ← Json.required ProtocolVersion.ofJson? version
    pool := ← Json.required Json.string? pool
    user := ← Json.required Json.string? user
    tx := ← Json.required TransactionMeta.ofJson? tx
    seq := ← Json.required Json.uint32? seq }

end RecordHeader

/-- Read a direction. -/
def Direction.ofJson? (j : Json) : Option Direction := do
  let name ← j.case?
  [aToB, bToA].find? (·.name = name)

/-- Read a kind of change. -/
def LiquidityKind.ofJson? (j : Json) : Option LiquidityKind := do
  let name ← j.case?
  [increase, decrease].find? (·.name = name)

/-- Read two decimals. -/
def Sides.decimals? (a b : Option Json) : Option (Sides Decimal) := do
  return ⟨← Json.required Json.decimal? a, ← Json.required Json.decimal? b⟩

/-- Read two decimals that may be absent. -/
def Sides.optionalDecimals? (a b : Option Json) : Option (Sides (Option Decimal)) := do
  return ⟨← Json.optional Json.decimal? a, ← Json.optional Json.decimal? b⟩

/-- Read a swap. -/
def SwapRecord.ofJson? (j : Json) : Option SwapRecord := do
  let [header, direction, rawDirection, volumeA, volumeB, balanceA, balanceB, fee, protocolFee,
    referralFee, price] ← j.record? ["header", "direction", "rawDirection", "volumeA", "volumeB",
      "balanceA", "balanceB", "feeAmount", "protocolFee", "referralFee", "price"] | none
  return {
    header := ← Json.required RecordHeader.ofJson? header
    direction := ← Json.required Direction.ofJson? direction
    rawDirection := ← Json.required Json.uint8? rawDirection
    volumes := ← Sides.decimals? volumeA volumeB
    balances := ← Sides.optionalDecimals? balanceA balanceB
    fee := ← Json.required Json.decimal? fee
    protocolFee := ← Json.required Json.decimal? protocolFee
    referralFee := ← Json.required Json.decimal? referralFee
    price := ← Json.optional Json.decimal? price }

/-- Read a change of liquidity. -/
def LiquidityRecord.ofJson? (j : Json) : Option LiquidityRecord := do
  let [header, kind, delta, amountA, amountB, balanceA, balanceB] ←
    j.record? ["header", "kind", "liquidityDelta", "amountA", "amountB", "balanceA", "balanceB"]
    | none
  return {
    header := ← Json.required RecordHeader.ofJson? header
    kind := ← Json.required LiquidityKind.ofJson? kind
    delta := ← Json.required Json.int? delta
    amounts := ← Sides.decimals? amountA amountB
    balances := ← Sides.optionalDecimals? balanceA balanceB }

/-- Read a collection of fees. -/
def CollectRecord.ofJson? (j : Json) : Option CollectRecord := do
  let [header, feeA, feeB, balanceA, balanceB] ←
    j.record? ["header", "feeA", "feeB", "balanceA", "balanceB"] | none
  return {
    header := ← Json.required RecordHeader.ofJson? header
    fees := ← Sides.decimals? feeA feeB
    balances := ← Sides.optionalDecimals? balanceA balanceB }

namespace Record

/-- Read a record. -/
def ofJson? (j : Json) : Option Record := do
  let [kind] ← j.record? ["type"] | none
  let kind ← Json.required Json.string? kind
  if kind = "swap" then return swap (← SwapRecord.ofJson? j)
  else if kind = "liquidity" then return liquidity (← LiquidityRecord.ofJson? j)
  else if kind = "collect" then return collect (← CollectRecord.ofJson? j)
  else none

/-- Write a record. -/
def toJson (r : Record) : Json :=
  let header := [("type", .string r.kindName), ("header", r.header.toJson)]
  let balances := [("balanceA", Decimal.optionToJson r.balances.a),
    ("balanceB", Decimal.optionToJson r.balances.b)]
  match r with
  | swap r =>
    .object (header ++ [
      ("direction", .string r.direction.name),
      ("rawDirection", .integer r.rawDirection.toNat),
      ("volumeA", r.volumes.a.toJson),
      ("volumeB", r.volumes.b.toJson)] ++ balances ++ [
      ("feeAmount", r.fee.toJson),
      ("protocolFee", r.protocolFee.toJson),
      ("referralFee", r.referralFee.toJson),
      ("price", Decimal.optionToJson r.price)])
  | liquidity r =>
    .object (header ++ [
      ("kind", .string r.kind.name),
      ("liquidityDelta", .integer r.delta),
      ("amountA", r.amounts.a.toJson),
      ("amountB", r.amounts.b.toJson)] ++ balances)
  | collect r =>
    .object (header ++ [("feeA", r.fees.a.toJson), ("feeB", r.fees.b.toJson)] ++ balances)

/-- Write a value of either side. -/
def sidesToJson {α : Type} (encode : α → Json) (s : Sides α) : Json :=
  .array [encode s.a, encode s.b]

/-- Write a record with the views common to all records. -/
def viewToJson (r : Record) : Json :=
  .object [
    ("record", r.toJson),
    ("kind", .string r.kindName),
    ("pool", .string r.pool),
    ("user", .string r.header.user),
    ("version", .string r.header.version.name),
    ("txId", Json.ofUInt64 r.header.tx.id),
    ("blockTime", .integer r.header.tx.blockTime.toInt),
    ("price", Decimal.optionToJson r.price),
    ("volumes", sidesToJson Decimal.toJson r.volumes),
    ("fees", sidesToJson Decimal.toJson r.fees),
    ("balances", sidesToJson Decimal.optionToJson r.balances)]

end Record

end PoolKlines
