import PoolKlines.Kline.Totals
import PoolKlines.Transaction.Basic

/-!
# Stores

A store keeps buckets, totals and cursors, and takes writes in batches that are committed as a
whole or not at all.

* `StoreError` says why a store refused, and `StoreError.message` puts it into words;
* `Batch β` are the reads and writes on the staged state `β` of a batch;
* `Staged ε β α` is a computation on a staged state that may fail; what it wrote before it failed
  stays written in the batch;
* `Staged.upsert` loads or creates a bucket, changes it and writes it back;
* `Store σ β` begins and commits batches, and serves the transactions of a pool.
-/

namespace PoolKlines

/-! ### Errors -/

/-- What a column may hold instead of a value of its type. -/
inductive CellKind
  | null
  | text
  | real
  deriving DecidableEq

/-- The name of a kind of cell. -/
def CellKind.name : CellKind → String
  | null => "Null"
  | text => "Text"
  | real => "Real"

/-- Why a database refused. -/
inductive DatabaseFault
  /-- The text in a column is no decimal. -/
  | decimal (column : Nat) (error : Decimal.ParseError)
  /-- The text in a column is no name of a resolution. -/
  | resolution (column : Nat) (name : String)
  /-- A column holds something of another type. -/
  | columnType (column : Nat) (name : String) (kind : CellKind)
  /-- Another connection holds the lock for writing. -/
  | locked
  /-- No row number is left. -/
  | full
  deriving DecidableEq

/-- The wording of a database fault. -/
def DatabaseFault.message : DatabaseFault → String
  | decimal column error =>
    "Conversion error from type Text at index: " ++ toString column ++ ", " ++ error.message
  | resolution column name =>
    "Conversion error from type Text at index: " ++ toString column ++ ", unknown resolution " ++
      name
  | columnType column name kind =>
    "Invalid column type " ++ kind.name ++ " at index: " ++ toString column ++ ", name: " ++ name
  | locked => "database is locked"
  | full => "database or disk is full"

/-- Why a store refused. -/
inductive StoreError
  | database (fault : DatabaseFault)
  /-- A stored payload is no transaction. -/
  | payload
  | unavailable (reason : String)
  | corrupt (table reason : String)
  | unassignedPool (pool : String)
  | outOfOrder (pool : String) (slot newest : UInt64)
  deriving DecidableEq

/-- The wording of a store error. -/
def StoreError.message : StoreError → String
  | database fault => "sqlite error: " ++ fault.message
  | payload => "json error: payload is no transaction"
  | unavailable reason => "store unavailable: " ++ reason
  | corrupt table reason => "corrupt " ++ table ++ " row: " ++ reason
  | unassignedPool pool => "pool " ++ pool ++ " has no shard assignment"
  | outOfOrder pool slot newest =>
    "pool " ++ pool ++ ": slot " ++ toString slot.toNat ++ " is older than stored slot " ++
      toString newest.toNat

/-! ### Batches -/

/-- What a batch can read and write. -/
class Batch (β : Type) where
  /-- The bucket with a key. -/
  bucket? : β → BucketKey → Except StoreError (Option Bucket)
  /-- The buckets of a pool at a resolution that start from the first time on and before the
  second, in order. -/
  bucketsBetween : β → String → Resolution → Int → Int → Except StoreError (List Bucket)
  /-- The latest bucket of a pool at a resolution that starts before a time and has an average. -/
  latestBefore? : β → String → Resolution → Int → Except StoreError (Option Bucket)
  /-- Write a bucket under its key. -/
  putBucket : β → Bucket → Except StoreError β
  /-- The totals of a pool. -/
  totals? : β → String → Except StoreError (Option PoolTotals)
  /-- Write the totals of their pool. -/
  putTotals : β → PoolTotals → Except StoreError β
  /-- Move the cursor of a pool forward to a transaction, but never back. -/
  advanceCursor : β → String → ProtocolVersion → UInt64 → Except StoreError β

/-- A computation on a staged state. -/
abbrev Staged (ε β α : Type) := EStateM ε β α

namespace Staged

variable {ε β α : Type}

/-- Ask the staged state. -/
def read (ask : β → Except ε α) : Staged ε β α := fun s =>
  match ask s with
  | .ok a => .ok a s
  | .error e => .error e s

/-- Change the staged state. -/
def write (change : β → Except ε β) : Staged ε β Unit := fun s =>
  match change s with
  | .ok s => .ok () s
  | .error e => .error e s

variable [Batch β]

/-- The bucket with a key. -/
def bucket? (key : BucketKey) : Staged StoreError β (Option Bucket) := read (Batch.bucket? · key)

/-- The buckets that start within a span. -/
def bucketsBetween (pool : String) (resolution : Resolution) (first last : Int) :
    Staged StoreError β (List Bucket) :=
  read (Batch.bucketsBetween · pool resolution first last)

/-- The latest bucket before a time that has an average. -/
def latestBefore? (pool : String) (resolution : Resolution) (time : Int) :
    Staged StoreError β (Option Bucket) :=
  read (Batch.latestBefore? · pool resolution time)

/-- Write a bucket. -/
def putBucket (bucket : Bucket) : Staged StoreError β Unit := write (Batch.putBucket · bucket)

/-- The totals of a pool. -/
def totals? (pool : String) : Staged StoreError β (Option PoolTotals) :=
  read (Batch.totals? · pool)

/-- Write totals. -/
def putTotals (totals : PoolTotals) : Staged StoreError β Unit :=
  write (Batch.putTotals · totals)

/-- Move a cursor forward. -/
def advanceCursor (pool : String) (version : ProtocolVersion) (id : UInt64) :
    Staged StoreError β Unit :=
  write (Batch.advanceCursor · pool version id)

/-- Load the bucket with a key, or an empty one, change it, and write it back. -/
def upsert (key : BucketKey) (change : Bucket → Bucket) : Staged StoreError β Bucket := do
  let found ← bucket? key
  let changed := change (found.getD (.empty key))
  putBucket changed
  return changed

end Staged

/-! ### Stores -/

/-- A store `σ` whose batches work on a staged state `β`. -/
class Store (σ : Type) (β : outParam Type) extends Batch β where
  /-- The last applied transaction of a pool, zero if there is none. -/
  cursor : σ → String → ProtocolVersion → Except StoreError UInt64
  /-- Begin a batch on the committed state. -/
  begin : σ → Except StoreError β
  /-- Make the staged state the committed one. -/
  commit : σ → β → Except StoreError σ
  /-- At most so many transactions of a pool after an id, by slot and id. -/
  fetchAfter : σ → String → UInt64 → Nat → Except StoreError (List StoredTransaction)

end PoolKlines
