import PoolKlines.DecodeError
import PoolKlines.Kline.Rollup

/-!
# Indexing errors

`IndexerError` says why a transaction or a page was not applied, `IndexerError.message` puts it into
words, and `IndexerError.errorClass` says what follows from it.
-/

namespace PoolKlines

/-- What follows from an error. -/
inductive ErrorClass
  /-- The transaction counts as applied. -/
  | skippable
  /-- The next cycle tries again. -/
  | retryable
  /-- The transaction is rolled back, and its pool stalls until it can be applied. -/
  | fatal
  deriving DecidableEq

/-- The name of a class. -/
def ErrorClass.name : ErrorClass → String
  | skippable => "Skippable"
  | retryable => "Retryable"
  | fatal => "Fatal"

/-- Why a transaction or a page was not applied. -/
inductive IndexerError
  | decode (cause : DecodeError)
  | fetch (cause : StoreError)
  | storage (cause : StoreError)
  | rollup (txId : UInt64) (cause : RollupError)
  | commit (txId : UInt64) (cause : StoreError)
  /-- A transaction with a lower id comes after the transaction, at a later slot. -/
  | outOfOrder (txId slot lowerId : UInt64)
  deriving DecidableEq

namespace IndexerError

/-- The wording of an error. -/
def message : IndexerError → String
  | decode cause => "decode failed: " ++ cause.message
  | fetch cause => "fetching transactions failed: " ++ cause.message
  | storage cause => "storage unavailable: " ++ cause.message
  | rollup txId cause => "rollup failed for tx " ++ toString txId.toNat ++ ": " ++ cause.message
  | commit txId cause => "commit failed for tx " ++ toString txId.toNat ++ ": " ++ cause.message
  | outOfOrder txId slot lowerId =>
    "tx " ++ toString txId.toNat ++ " at slot " ++ toString slot.toNat ++
      " would move the cursor past unapplied tx " ++ toString lowerId.toNat

/-- What follows from the error. -/
def errorClass : IndexerError → ErrorClass
  | decode _ => .skippable
  | fetch _ => .retryable
  | storage _ => .retryable
  | rollup _ _ => .fatal
  | commit _ _ => .fatal
  | outOfOrder _ _ _ => .fatal

/-- The error rolls its transaction back. -/
def isFatal (e : IndexerError) : Bool := e.errorClass = .fatal

/-- The error is about the order of transactions. -/
def isOutOfOrder : IndexerError → Bool
  | outOfOrder _ _ _ => true
  | _ => false

end IndexerError

end PoolKlines
