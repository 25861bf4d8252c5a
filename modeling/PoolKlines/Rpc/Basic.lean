import PoolKlines.Transaction.Basic

/-!
# Transactions as a node reports them

* `RpcInstruction` is an instruction in one of three forms: with indices, with keys, or already
  interpreted, in which case its data are lost;
* `RpcMessage` is the message of a transaction in one of two forms;
* `RpcMeta` is what the node reports of the execution;
* `RpcTransaction` is the whole report.

Instruction data are base58 text.
-/

namespace PoolKlines

/-- An instruction that refers to accounts by their position. -/
structure IndexedInstruction where
  programIndex : UInt8
  accounts : List UInt8
  data : String
  deriving DecidableEq

/-- An instruction that refers to accounts by their keys. -/
structure KeyedInstruction where
  program : String
  accounts : List String
  data : String
  deriving DecidableEq

/-- An instruction. -/
inductive RpcInstruction
  | indexed (instruction : IndexedInstruction)
  | keyed (instruction : KeyedInstruction)
  | interpreted
  deriving DecidableEq

/-- The inner instructions of one top-level instruction. -/
structure RpcInnerGroup where
  index : UInt8
  instructions : List RpcInstruction
  deriving DecidableEq

/-- A message: its own account keys and its instructions. -/
inductive RpcMessage
  | raw (accountKeys : List String) (instructions : List IndexedInstruction)
  | parsed (accountKeys : List String) (instructions : List RpcInstruction)
  deriving DecidableEq

/-- The content of a transaction, which only one of the encodings gives in full. -/
inductive RpcContent
  | full (signatures : List String) (message : RpcMessage)
  /-- The bytes of the transaction, or its accounts only. -/
  | other
  deriving DecidableEq

/-- What happened on execution. The loaded keys are those of writable accounts, then those of
readonly ones. -/
structure RpcMeta where
  failed : Bool
  innerGroups : List RpcInnerGroup
  logMessages : List String
  preBalances : List TokenBalance
  postBalances : List TokenBalance
  loadedKeys : List String
  deriving DecidableEq

/-- The report of a transaction. -/
structure RpcTransaction where
  slot : UInt64
  blockTime : Option Int64
  content : RpcContent
  outcome : Option RpcMeta
  deriving DecidableEq

end PoolKlines
