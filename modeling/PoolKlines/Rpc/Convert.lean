import PoolKlines.Bytes.Base58
import PoolKlines.Rpc.Basic

/-!
# From reports to transactions

* `base58ToBase64` turns the text of instruction data into base64;
* `keyIndex?` is the position of an account key;
* `RpcTransaction.toTransaction` makes a transaction of a report, or says why it cannot.

In a raw message every instruction has to be converted. Elsewhere an instruction that cannot be
converted is left out: one that was interpreted, one with a key that has no position, and one whose
data are malformed.
-/

namespace PoolKlines

/-- Why a report cannot be converted. -/
inductive ConvertError
  | missingOutcome
  | encoding
  | missingSignature
  | base58 (data : String)
  deriving DecidableEq

/-- The wording of the error. -/
def ConvertError.message : ConvertError → String
  | missingOutcome => "transaction missing status meta"
  | encoding => "expected JSON encoded transaction"
  | missingSignature => "transaction missing signature"
  | base58 data => "invalid base58 instruction data " ++ data

/-- Write base58 text as base64 text. -/
def base58ToBase64 (data : String) : Except ConvertError String :=
  match Base58.decode? data with
  | some bytes => .ok (Base64.encode bytes)
  | none => .error (.base58 data)

/-- The first position of a key, if it is below 256. -/
def keyIndex? (keys : List String) (key : String) : Option UInt8 := do
  let index ← keys.idxOf? key
  if index < 256 then some (UInt8.ofNat index) else none

/-- Convert an instruction with indices. -/
def IndexedInstruction.toInstruction (i : IndexedInstruction) : Except ConvertError Instruction :=
  do return ⟨i.programIndex, i.accounts, ← base58ToBase64 i.data⟩

/-- Convert an instruction with keys. -/
def KeyedInstruction.toInstruction? (keys : List String) (i : KeyedInstruction) :
    Option Instruction := do
  let programIndex ← keyIndex? keys i.program
  let accounts ← i.accounts.mapM (keyIndex? keys)
  let data ← (base58ToBase64 i.data).toOption
  return ⟨programIndex, accounts, data⟩

/-- Convert an instruction, if it can be. -/
def RpcInstruction.toInstruction? (keys : List String) : RpcInstruction → Option Instruction
  | indexed i => i.toInstruction.toOption
  | keyed i => i.toInstruction? keys
  | interpreted => none

/-- Convert the inner instructions of a top-level instruction, as far as they can be. -/
def RpcInnerGroup.toInnerGroup (keys : List String) (g : RpcInnerGroup) : InnerGroup :=
  ⟨g.index, g.instructions.filterMap (·.toInstruction? keys)⟩

namespace RpcMessage

/-- The account keys of a message. -/
def accountKeys : RpcMessage → List String
  | raw keys _ => keys
  | parsed keys _ => keys

/-- Convert the instructions of a message. -/
def instructions (keys : List String) : RpcMessage → Except ConvertError (List Instruction)
  | raw _ instructions => instructions.mapM (·.toInstruction)
  | parsed _ instructions => .ok (instructions.filterMap (·.toInstruction? keys))

end RpcMessage

namespace RpcTransaction

/-- Convert a report. -/
def toTransaction (t : RpcTransaction) : Except ConvertError Transaction := do
  let some outcome := t.outcome | throw .missingOutcome
  let .full signatures message := t.content | throw .encoding
  let some signature := signatures.head? | throw .missingSignature
  let accountKeys := message.accountKeys ++ outcome.loadedKeys
  return {
    signature
    slot := t.slot
    blockTime := t.blockTime.getD 0
    accountKeys
    instructions := ← message.instructions accountKeys
    innerGroups := outcome.innerGroups.map (·.toInnerGroup accountKeys)
    preBalances := outcome.preBalances
    postBalances := outcome.postBalances
    logMessages := outcome.logMessages
    failed := outcome.failed }

end RpcTransaction

end PoolKlines
