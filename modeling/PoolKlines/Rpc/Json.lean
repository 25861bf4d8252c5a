import PoolKlines.Rpc.Basic
import PoolKlines.Rpc.Failure

/-!
# Reports in JSON

`ofJson?` for reports and their parts. A value with several forms is read in the first one that
fits. All declared fields have to be right, also those that are not used.

* A transaction is text, text with an encoding, a full transaction, or its accounts only;
* a message is parsed if all its account keys are objects, and raw if all are texts;
* an instruction has indices, is interpreted, or has keys.

Where the last field of a part may be left out of an object, an array has to hold it nevertheless.
-/

namespace PoolKlines

/-- A field that may be absent or `null`, but is checked if it is there. -/
def checkOptional {α : Type} (value? : Json → Option α) (field : Option Json) : Option Unit :=
  (Json.optional value? field).map fun _ => ()

/-- A value that satisfies a condition. -/
def Json.satisfying? (p : Json → Bool) (j : Json) : Option Unit := if p j then some () else none

/-- A list of values that counts as empty when absent or `null`. -/
def listOrEmpty {α : Type} (item? : Json → Option α) (field : Option Json) : Option (List α) :=
  (Json.optional (Json.list? item?) field).map (·.getD [])

/-- A number of any form. -/
def Json.number? : Json → Option Unit
  | .integer _ => some ()
  | .fraction _ => some ()
  | _ => none

/-! ### Instructions -/

/-- Read an instruction with indices. -/
def IndexedInstruction.ofJson? (j : Json) : Option IndexedInstruction := do
  let [programIndex, accounts, data, stackHeight] ←
    j.fullRecord? ["programIdIndex", "accounts", "data", "stackHeight"] | none
  checkOptional Json.uint32? stackHeight
  return {
    programIndex := ← Json.required Json.uint8? programIndex
    accounts := ← Json.required (Json.list? Json.uint8?) accounts
    data := ← Json.required Json.string? data }

/-- Read an instruction with keys. -/
def KeyedInstruction.ofJson? (j : Json) : Option KeyedInstruction := do
  let [program, accounts, data, stackHeight] ←
    j.fullRecord? ["programId", "accounts", "data", "stackHeight"] | none
  checkOptional Json.uint32? stackHeight
  return {
    program := ← Json.required Json.string? program
    accounts := ← Json.required (Json.list? Json.string?) accounts
    data := ← Json.required Json.string? data }

/-- The JSON value is an interpreted instruction. -/
def interpretedInstruction? (j : Json) : Option Unit := do
  let [program, programId, parsed, stackHeight] ←
    j.fullRecord? ["program", "programId", "parsed", "stackHeight"] | none
  let _ ← Json.required Json.string? program
  let _ ← Json.required Json.string? programId
  let _ ← parsed
  checkOptional Json.uint32? stackHeight

/-- Read an instruction. -/
def RpcInstruction.ofJson? (j : Json) : Option RpcInstruction :=
  ((IndexedInstruction.ofJson? j).map .indexed).or
    (((interpretedInstruction? j).map fun _ => .interpreted).or
      ((KeyedInstruction.ofJson? j).map .keyed))

/-- Read the inner instructions of a top-level instruction. -/
def RpcInnerGroup.ofJson? (j : Json) : Option RpcInnerGroup := do
  let [index, instructions] ← j.record? ["index", "instructions"] | none
  return {
    index := ← Json.required Json.uint8? index
    instructions := ← Json.required (Json.list? RpcInstruction.ofJson?) instructions }

/-! ### Messages -/

/-- The JSON value is the header of a message. -/
def messageHeader? (j : Json) : Option Unit := do
  let [signatures, readonlySigned, readonlyUnsigned] ←
    j.record? ["numRequiredSignatures", "numReadonlySignedAccounts", "numReadonlyUnsignedAccounts"]
    | none
  let _ ← Json.required Json.uint8? signatures
  let _ ← Json.required Json.uint8? readonlySigned
  let _ ← Json.required Json.uint8? readonlyUnsigned

/-- The JSON value refers to a table of addresses. -/
def addressTable? (j : Json) : Option Unit := do
  let [key, writable, readonly] ← j.record? ["accountKey", "writableIndexes", "readonlyIndexes"]
    | none
  let _ ← Json.required Json.string? key
  let _ ← Json.required (Json.list? Json.uint8?) writable
  let _ ← Json.required (Json.list? Json.uint8?) readonly

/-- Where an account key comes from. -/
def keySource? (j : Json) : Option Unit := do
  let name ← j.case?
  if name = "transaction" ∨ name = "lookupTable" then some () else none

/-- The key of an account that is given with its properties. -/
def parsedKey? (j : Json) : Option String := do
  let [key, writable, signer, source] ← j.fullRecord? ["pubkey", "writable", "signer", "source"]
    | none
  let _ ← Json.required Json.bool? writable
  let _ ← Json.required Json.bool? signer
  checkOptional keySource? source
  Json.required Json.string? key

/-- Read a parsed message. -/
def parsedMessage? (j : Json) : Option RpcMessage := do
  let [keys, blockhash, instructions, tables] ←
    j.record? ["accountKeys", "recentBlockhash", "instructions", "addressTableLookups"] | none
  let _ ← Json.required Json.string? blockhash
  checkOptional (Json.list? addressTable?) tables
  return .parsed (← Json.required (Json.list? parsedKey?) keys)
    (← Json.required (Json.list? RpcInstruction.ofJson?) instructions)

/-- Read a raw message. -/
def rawMessage? (j : Json) : Option RpcMessage := do
  let [header, keys, blockhash, instructions, tables] ←
    j.record? ["header", "accountKeys", "recentBlockhash", "instructions", "addressTableLookups"]
    | none
  let _ ← Json.required messageHeader? header
  let _ ← Json.required Json.string? blockhash
  checkOptional (Json.list? addressTable?) tables
  return .raw (← Json.required (Json.list? Json.string?) keys)
    (← Json.required (Json.list? IndexedInstruction.ofJson?) instructions)

/-- Read a message. -/
def RpcMessage.ofJson? (j : Json) : Option RpcMessage := (parsedMessage? j).or (rawMessage? j)

/-! ### Transactions -/

/-- The JSON value is the text of a transaction, alone or with its encoding. -/
def encodedText? : Json → Option Unit
  | .string _ => some ()
  | .array [.string _, encoding] => do
    let name ← encoding.case?
    if name = "base58" ∨ name = "base64" then some () else none
  | _ => none

/-- The JSON value is a transaction of which only the accounts are given. -/
def accountList? (j : Json) : Option Unit := do
  let [signatures, keys] ← j.record? ["signatures", "accountKeys"] | none
  let _ ← Json.required (Json.list? Json.string?) signatures
  let _ ← Json.required (Json.list? parsedKey?) keys

/-- Read a full transaction. -/
def fullContent? (j : Json) : Option RpcContent := do
  let [signatures, message] ← j.record? ["signatures", "message"] | none
  return .full (← Json.required (Json.list? Json.string?) signatures)
    (← Json.required RpcMessage.ofJson? message)

/-- Read the content of a transaction. -/
def RpcContent.ofJson? (j : Json) : Option RpcContent :=
  ((encodedText? j).map fun _ => .other).or
    ((fullContent? j).or ((accountList? j).map fun _ => .other))

/-! ### Outcomes -/

/-- The raw amount and the decimals of a token amount. -/
def tokenAmount? (j : Json) : Option (String × UInt8) := do
  let [number, decimals, amount, text] ←
    j.record? ["uiAmount", "decimals", "amount", "uiAmountString"] | none
  checkOptional Json.number? number
  let _ ← Json.required Json.string? text
  return (← Json.required Json.string? amount, ← Json.required Json.uint8? decimals)

/-- Read a token balance. -/
def reportedBalance? (j : Json) : Option TokenBalance := do
  let [accountIndex, mint, amount, owner, program] ←
    j.record? ["accountIndex", "mint", "uiTokenAmount", "owner", "programId"] | none
  checkOptional Json.string? program
  let (amount, decimals) ← Json.required tokenAmount? amount
  return {
    accountIndex := ← Json.required Json.uint8? accountIndex
    mint := ← Json.required Json.string? mint
    owner := ← Json.optional Json.string? owner
    amount
    decimals }

/-- The JSON value is a reward. -/
def reward? (j : Json) : Option Unit := do
  let [key, lamports, balance, kind, commission] ←
    j.fullRecord? ["pubkey", "lamports", "postBalance", "rewardType", "commission"] | none
  let _ ← Json.required Json.string? key
  let _ ← Json.required Json.int64? lamports
  let _ ← Json.required Json.uint64? balance
  checkOptional
    (Json.satisfying? (isNamedFailure ["Fee", "Rent", "Staking", "Voting"])) kind
  checkOptional Json.uint8? commission

/-- The JSON value is the data a program returned. -/
def returnData? (j : Json) : Option Unit := do
  let [program, data] ← j.record? ["programId", "data"] | none
  let _ ← Json.required Json.string? program
  match ← data with
  | .array [.string _, encoding] => if encoding.voidCase? = some "base64" then some () else none
  | _ => none

/-- The loaded keys, first those of writable accounts. -/
def loadedKeys? (j : Json) : Option (List String) := do
  let [writable, readonly] ← j.record? ["writable", "readonly"] | none
  return (← Json.required (Json.list? Json.string?) writable) ++
    (← Json.required (Json.list? Json.string?) readonly)

/-- Read the outcome of a transaction. -/
def RpcMeta.ofJson? (j : Json) : Option RpcMeta := do
  let [cause, status, fee, lamportsBefore, lamportsAfter, innerGroups, logMessages, preBalances,
    postBalances, rewards, loadedKeys, returnData, units] ←
    j.record? ["err", "status", "fee", "preBalances", "postBalances", "innerInstructions",
      "logMessages", "preTokenBalances", "postTokenBalances", "rewards", "loadedAddresses",
      "returnData", "computeUnitsConsumed"] | none
  let _ ← Json.required (Json.satisfying? isExecutionStatus) status
  let _ ← Json.required Json.uint64? fee
  let _ ← Json.required (Json.list? Json.uint64?) lamportsBefore
  let _ ← Json.required (Json.list? Json.uint64?) lamportsAfter
  checkOptional (Json.list? reward?) rewards
  checkOptional returnData? returnData
  checkOptional Json.uint64? units
  return {
    failed := (← Json.optional (Json.satisfying? isFailure) cause).isSome
    innerGroups := ← listOrEmpty RpcInnerGroup.ofJson? innerGroups
    logMessages := ← listOrEmpty Json.string? logMessages
    preBalances := ← listOrEmpty reportedBalance? preBalances
    postBalances := ← listOrEmpty reportedBalance? postBalances
    loadedKeys := (← Json.optional loadedKeys? loadedKeys).getD [] }

/-- The JSON value is the version of a transaction. -/
def transactionVersion? (j : Json) : Option Unit :=
  if j.case? = some "legacy" ∨ j.uint8?.isSome then some () else none

namespace RpcTransaction

/-- The fields of a report. -/
def fieldNames : List String := ["slot", "transaction", "meta", "version", "blockTime"]

/-- Read a report, which is always an object. -/
def ofJson? (j : Json) : Option RpcTransaction := do
  let .object _ := j | none
  let [slot, content, outcome, version, blockTime] ← j.record? fieldNames | none
  checkOptional transactionVersion? version
  return {
    slot := ← Json.required Json.uint64? slot
    blockTime := ← Json.optional Json.int64? blockTime
    content := ← Json.required RpcContent.ofJson? content
    outcome := ← Json.optional RpcMeta.ofJson? outcome }

end RpcTransaction

end PoolKlines
