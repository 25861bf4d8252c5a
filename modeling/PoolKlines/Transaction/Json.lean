import PoolKlines.Json.Decode
import PoolKlines.Json.Parser
import PoolKlines.Transaction.Basic

/-!
# Transactions in JSON

`toJson` and `ofJson?` for token balances, instructions, inner groups, transactions, their rows and
their identities. Lists may be absent, and so may the owner of a balance; an absent owner is not
written.

* `Transaction.parse` reads a transaction from text.
-/

namespace PoolKlines

namespace TokenBalance

/-- Write a balance. -/
def toJson (b : TokenBalance) : Json :=
  .object (
    [("accountIndex", .integer b.accountIndex.toNat), ("mint", .string b.mint)] ++
    (match b.owner with
      | some owner => [("owner", .string owner)]
      | none => []) ++
    [("amount", .string b.amount), ("decimals", .integer b.decimals.toNat)])

/-- Read a balance. -/
def ofJson? (j : Json) : Option TokenBalance := do
  let [accountIndex, mint, owner, amount, decimals] ←
    j.record? ["accountIndex", "mint", "owner", "amount", "decimals"] | none
  return {
    accountIndex := ← Json.required Json.uint8? accountIndex
    mint := ← Json.required Json.string? mint
    owner := ← Json.optional Json.string? owner
    amount := ← Json.required Json.string? amount
    decimals := ← Json.required Json.uint8? decimals }

end TokenBalance

namespace Instruction

/-- Write an instruction. -/
def toJson (i : Instruction) : Json :=
  .object [
    ("programIdIndex", .integer i.programIndex.toNat),
    ("accounts", .array (i.accounts.map fun a => .integer a.toNat)),
    ("data", .string i.data)]

/-- Read an instruction. -/
def ofJson? (j : Json) : Option Instruction := do
  let [programIndex, accounts, data] ← j.record? ["programIdIndex", "accounts", "data"] | none
  return {
    programIndex := ← Json.required Json.uint8? programIndex
    accounts := ← Json.orElse (Json.list? Json.uint8?) [] accounts
    data := ← Json.orElse Json.string? "" data }

end Instruction

namespace InnerGroup

/-- Write a group. -/
def toJson (g : InnerGroup) : Json :=
  .object [
    ("index", .integer g.index.toNat),
    ("instructions", .array (g.instructions.map Instruction.toJson))]

/-- Read a group. -/
def ofJson? (j : Json) : Option InnerGroup := do
  let [index, instructions] ← j.record? ["index", "instructions"] | none
  return {
    index := ← Json.required Json.uint8? index
    instructions := ← Json.orElse (Json.list? Instruction.ofJson?) [] instructions }

end InnerGroup

namespace Transaction

/-- The fields of a transaction in JSON. -/
def fieldNames : List String :=
  ["signature", "slot", "blockTime", "accountKeys", "instructions", "innerInstructions",
    "preTokenBalances", "postTokenBalances", "logMessages", "failed"]

/-- Write a transaction. -/
def toJson (t : Transaction) : Json :=
  .object [
    ("signature", .string t.signature),
    ("slot", Json.ofUInt64 t.slot),
    ("blockTime", .integer t.blockTime.toInt),
    ("accountKeys", Json.ofStrings t.accountKeys),
    ("instructions", .array (t.instructions.map Instruction.toJson)),
    ("innerInstructions", .array (t.innerGroups.map InnerGroup.toJson)),
    ("preTokenBalances", .array (t.preBalances.map TokenBalance.toJson)),
    ("postTokenBalances", .array (t.postBalances.map TokenBalance.toJson)),
    ("logMessages", Json.ofStrings t.logMessages),
    ("failed", .bool t.failed)]

/-- Read a transaction. -/
def ofJson? (j : Json) : Option Transaction := do
  let [signature, slot, blockTime, accountKeys, instructions, innerGroups, preBalances,
    postBalances, logMessages, failed] ← j.record? fieldNames | none
  return {
    signature := ← Json.required Json.string? signature
    slot := ← Json.required Json.uint64? slot
    blockTime := ← Json.required Json.int64? blockTime
    accountKeys := ← Json.orElse (Json.list? Json.string?) [] accountKeys
    instructions := ← Json.orElse (Json.list? Instruction.ofJson?) [] instructions
    innerGroups := ← Json.orElse (Json.list? InnerGroup.ofJson?) [] innerGroups
    preBalances := ← Json.orElse (Json.list? TokenBalance.ofJson?) [] preBalances
    postBalances := ← Json.orElse (Json.list? TokenBalance.ofJson?) [] postBalances
    logMessages := ← Json.orElse (Json.list? Json.string?) [] logMessages
    failed := ← Json.orElse Json.bool? false failed }

/-- Read a transaction from text. -/
def parse (text : String) : Option Transaction := (Json.parse text).bind ofJson?

/-- The text of a transaction. -/
def render (t : Transaction) : String := t.toJson.render

end Transaction

namespace TransactionMeta

/-- Write an identity. -/
def toJson (m : TransactionMeta) : Json :=
  .object [
    ("txId", Json.ofUInt64 m.id),
    ("signature", .string m.signature),
    ("slot", Json.ofUInt64 m.slot),
    ("blockTime", .integer m.blockTime.toInt)]

/-- Read an identity. -/
def ofJson? (j : Json) : Option TransactionMeta := do
  let [id, signature, slot, blockTime] ← j.record? ["txId", "signature", "slot", "blockTime"]
    | none
  return {
    id := ← Json.required Json.uint64? id
    signature := ← Json.required Json.string? signature
    slot := ← Json.required Json.uint64? slot
    blockTime := ← Json.required Json.int64? blockTime }

end TransactionMeta

namespace StoredTransaction

/-- Write a row. -/
def toJson (s : StoredTransaction) : Json :=
  .object [
    ("id", Json.ofUInt64 s.id),
    ("pool", .string s.pool),
    ("slot", Json.ofUInt64 s.slot),
    ("signature", .string s.signature),
    ("blockTime", .integer s.blockTime.toInt),
    ("tx", s.tx.toJson)]

/-- Read a row. -/
def ofJson? (j : Json) : Option StoredTransaction := do
  let [id, pool, slot, signature, blockTime, tx] ←
    j.record? ["id", "pool", "slot", "signature", "blockTime", "tx"] | none
  return {
    id := ← Json.required Json.uint64? id
    pool := ← Json.required Json.string? pool
    slot := ← Json.required Json.uint64? slot
    signature := ← Json.required Json.string? signature
    blockTime := ← Json.required Json.int64? blockTime
    tx := ← Json.required Transaction.ofJson? tx }

end StoredTransaction

end PoolKlines
