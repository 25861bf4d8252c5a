import PoolKlines.IndexerError
import PoolKlines.Operation.Decode
import PoolKlines.Record.Build
import PoolKlines.Sync.Link

/-!
# Applying a transaction

* `Indexer` is what the workers of all pools share;
* `Indexer.decode` turns a transaction into the records of a pool;
* `Indexer.process` rolls these up and moves the cursor of the pool, in one batch.
-/

namespace PoolKlines

/-- The program of V1 pools, the events of V2 pools, the dollar prices, the length of pages, and how
often a refused request for a page is repeated. -/
structure Indexer where
  programId : String
  events : Registry PoolEvent
  prices : PriceSource
  pageSize : Nat
  fetchRetries : Nat

/-- Why a computation over a link ended early. -/
inductive Stop
  | error (error : IndexerError)
  | aborted
  deriving DecidableEq

/-- A refusal is an error of some kind. -/
def Stop.ofFault (kind : StoreError → IndexerError) : Fault → Stop
  | .refuse e => .error (kind e)
  | .abort => .aborted

/-- What became of an applied transaction: the number of its records, and whether nothing in it
could be decoded although something should have been. -/
structure Outcome where
  records : Nat
  undecodable : Bool
  deriving DecidableEq

/-- Write an outcome. -/
def Outcome.toJson (o : Outcome) : Json :=
  .object [("records", .integer o.records), ("undecodable", .bool o.undecodable)]

namespace Indexer

/-- All records that a transaction gives rise to, in the order in which they were found, and the
errors of what is malformed. -/
def recordsAndErrors (indexer : Indexer) (pools : PoolSnapshot) (version : ProtocolVersion)
    (stored : StoredTransaction) : List Record × List DecodeError :=
  match version with
  | .v1 =>
    let (operations, errors) := scanTransaction indexer.programId stored.tx pools
    (operations.filterMap (Record.ofOperation? pools · stored.meta), errors)
  | .v2 =>
    let (events, errors) := scanLog indexer.events stored.tx.logMessages
    (events.filterMap (Record.ofEvent? pools · stored.meta), errors)

/-- The records of a pool in the order of their places in the transaction. The first error counts
only if there was no record at all, and a failed transaction has neither. -/
def decode (indexer : Indexer) (pools : PoolSnapshot) (pool : PoolConfig)
    (stored : StoredTransaction) : List Record × Option DecodeError :=
  if stored.tx.failed then ([], none)
  else
    let (records, errors) := indexer.recordsAndErrors pools pool.version stored
    ((records.filter (·.pool = pool.address)).mergeSort fun r s => r.header.seq ≤ s.header.seq,
      if records.isEmpty then errors.head? else none)

/-- Roll up the records of a transaction and move the cursor of the pool. -/
def stage {β : Type} [Batch β] (indexer : Indexer) (pool : PoolConfig) (txId : UInt64)
    (records : List Record) : Staged IndexerError β Unit := do
  records.forM fun record =>
    EStateM.adaptExcept (.rollup txId) (Rollup.apply indexer.prices pool record)
  EStateM.adaptExcept (.commit txId) (Staged.advanceCursor pool.address pool.version txId)

variable {σ β : Type} [Store σ β]

/-- Apply a transaction in a batch of its own. -/
def process (indexer : Indexer) (pools : PoolSnapshot) (pool : PoolConfig)
    (stored : StoredTransaction) : Linked Stop σ Outcome := do
  let (records, error) := indexer.decode pools pool stored
  let batch ← EStateM.adaptExcept (Stop.ofFault .storage) Link.begin
  match indexer.stage pool stored.id records batch with
  | .error e _ => throw (.error e)
  | .ok _ staged =>
    EStateM.adaptExcept (Stop.ofFault (.commit stored.id)) (Link.commit staged)
    return ⟨records.length, error.isSome⟩

end Indexer

end PoolKlines
