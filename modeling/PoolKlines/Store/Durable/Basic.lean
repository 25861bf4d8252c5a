import PoolKlines.Store.Durable.Row
import PoolKlines.Store.Shard

/-!
# The durable store

A database with a table of buckets for every shard, and tables of totals, cursors, shards and
transactions. Numbers in the database are signed, so a number of 64 bits counts as negative there.

* `Database` holds the rows of all tables;
* `DurableStore` is a database with the shards of its pools as they were loaded when it was opened;
* `DurableStore.assignPools` gives pools a shard, `DurableStore.insert` stores a transaction;
* `DurableBatch` works on a copy of the database that a commit puts in its place.

Transactions are numbered upwards from one in the order in which they were stored, and no number is
given twice.
-/

namespace PoolKlines

/-- Put a row in the place of the row with the same key, or at the end. -/
def putRow {α : Type} (same : α → Bool) (row : α) (rows : List α) : List α :=
  if rows.any same then rows.map fun r => if same r then row else r else rows ++ [row]

/-- The rows of all tables. -/
structure Database where
  buckets : List BucketRow
  totals : List TotalsRow
  cursors : List CursorRow
  shards : List ShardRow
  transactions : List TransactionRow
  /-- The last number that was given to a stored transaction, zero before the first one. -/
  lastId : Int64
  deriving DecidableEq

namespace Database

/-- Empty tables. -/
def empty : Database := ⟨[], [], [], [], [], 0⟩

/-- Read a bucket, if a row was found. -/
def readBucket? (row : Option BucketRow) : Except StoreError (Option Bucket) :=
  match row with
  | none => .ok none
  | some row => (row.bucket.map some).mapError .database

/-- The bucket with a key in the table of a shard. -/
def bucket? (d : Database) (shard : UInt16) (key : BucketKey) : Except StoreError (Option Bucket) :=
  readBucket? (d.buckets.find? fun r =>
    r.isOf shard key.pool key.resolution && r.start = .integer key.start)

/-- The rows of a pool at a resolution, by start. -/
def bucketRows (d : Database) (shard : UInt16) (pool : String) (resolution : Resolution) :
    List BucketRow :=
  (d.buckets.filter fun r => r.isOf shard pool resolution).mergeSort fun r s =>
    !s.start.before r.start

/-- The buckets that start within a span, in order. -/
def bucketsBetween (d : Database) (shard : UInt16) (pool : String) (resolution : Resolution)
    (first last : Int) : Except StoreError (List Bucket) :=
  (((d.bucketRows shard pool resolution).filter fun r =>
    !r.start.before (.integer first) && r.start.before (.integer last)).mapM
      BucketRow.bucket).mapError .database

/-- The latest bucket that starts before a time and has an average. -/
def latestBefore? (d : Database) (shard : UInt16) (pool : String) (resolution : Resolution)
    (time : Int) : Except StoreError (Option Bucket) :=
  readBucket? ((d.bucketRows shard pool resolution).reverse.find? fun r =>
    r.start.before (.integer time) && r.average.isSome)

/-- Write a bucket into the table of a shard. -/
def putBucket (d : Database) (shard : UInt16) (b : Bucket) : Database :=
  let row := BucketRow.ofBucket shard b
  { d with buckets := putRow row.sameKey row d.buckets }

/-- The totals of a pool. -/
def totals? (d : Database) (pool : String) : Except StoreError (Option PoolTotals) :=
  match d.totals.find? (·.pool = some pool) with
  | none => .ok none
  | some row => (row.totals.map some).mapError .database

/-- Write totals. -/
def putTotals (d : Database) (t : PoolTotals) : Database :=
  { d with totals := putRow (·.pool = some t.pool) (.ofTotals t) d.totals }

/-- The row of a cursor. -/
def cursorRow? (d : Database) (pool : String) (version : ProtocolVersion) : Option CursorRow :=
  d.cursors.find? (·.isOf pool version)

/-- Move a cursor forward, in the order of signed numbers. -/
def advanceCursor (d : Database) (pool : String) (version : ProtocolVersion) (id : UInt64) :
    Database :=
  let txId := match d.cursorRow? pool version with
    | some row => max row.txId (.ofUInt64 id)
    | none => .ofUInt64 id
  { d with cursors := putRow (·.isOf pool version) ⟨pool, version.name, txId⟩ d.cursors }

/-- The newest slot stored for a pool, in the order of signed numbers. -/
def newestSlot? (d : Database) (pool : String) : Except DatabaseFault (Option UInt64) :=
  match ((d.transactions.filter (·.pool = pool)).map (·.slot)).max? with
  | none => .ok none
  | some slot => (slot.count 0 "MAX(slot)").map some

/-- The number of the next transaction: above all numbers that are or were in the table, unless the
largest one is taken. -/
def nextId? (d : Database) : Option Int64 :=
  let last := (d.transactions.map (·.id)).foldl max d.lastId
  if last = Int64.maxValue then none else some (last + 1)

/-- Append a transaction under the next number. -/
def addTransaction (d : Database) (pool : String) (t : Transaction) :
    Except DatabaseFault (Int64 × Database) :=
  match d.nextId? with
  | none => .error .full
  | some id =>
    .ok (id, { d with
      transactions := d.transactions ++ [.ofTransaction id pool t]
      lastId := id })

/-- Store the shards of pools that have none. -/
def addShards (d : Database) (added : List (String × UInt16)) : Database :=
  { d with
    shards := added.foldl
      (fun rows (pool, shard) =>
        if rows.any (·.pool = some pool) then rows
        else rows ++ [⟨some pool, .integer shard.toNat⟩])
      d.shards }

/-- The transactions of a pool after an id, in the order in which they are served, at most so many;
a negative limit is none. -/
def rowsAfter (d : Database) (pool : String) (after limit : Int64) : List TransactionRow :=
  let rows := (d.transactions.filter fun r => r.pool = pool && after < r.id).mergeSort
    TransactionRow.servedBefore
  if limit < 0 then rows else rows.take limit.toNatClampNeg

end Database

/-! ### Batches -/

/-- The staged tables of a batch, and the shards of the pools. -/
structure DurableBatch where
  staged : Database
  shards : ShardMap

namespace DurableBatch

/-- The shard of a pool, which every access to its buckets needs. -/
def shard (b : DurableBatch) (pool : String) : Except StoreError UInt16 :=
  match b.shards.find? pool with
  | some shard => .ok shard
  | none => .error (.unassignedPool pool)

end DurableBatch

instance : Batch DurableBatch where
  bucket? b key := do b.staged.bucket? (← b.shard key.pool) key
  bucketsBetween b pool resolution first last := do
    b.staged.bucketsBetween (← b.shard pool) pool resolution first last
  latestBefore? b pool resolution time := do
    b.staged.latestBefore? (← b.shard pool) pool resolution time
  putBucket b bucket := do
    return { b with staged := b.staged.putBucket (← b.shard bucket.key.pool) bucket }
  totals? b pool := b.staged.totals? pool
  putTotals b totals := .ok { b with staged := b.staged.putTotals totals }
  advanceCursor b pool version id := .ok { b with staged := b.staged.advanceCursor pool version id }

/-! ### The store -/

/-- A database, the shards of its pools, and whether another connection holds the lock for
writing. -/
structure DurableStore where
  database : Database
  shards : ShardMap
  locked : Bool

namespace DurableStore

/-- Empty tables with a number of shards. -/
def empty (shardCount : UInt16) : DurableStore := ⟨.empty, .ofList shardCount [], false⟩

/-- Open a database with a number of shards. -/
def ofDatabase (database : Database) (shardCount : UInt16) : Except StoreError DurableStore := do
  let assigned ← (database.shards.mapM ShardRow.assignment).mapError .database
  return ⟨database, .ofList shardCount assigned, false⟩

/-- A batch on the committed tables, without the lock. -/
def view (s : DurableStore) : DurableBatch := ⟨s.database, s.shards⟩

/-- Give every pool without a shard one, and store the new shards. The pools have their shards in
this store even if they could not be stored. -/
def assignPools (s : DurableStore) (pools : List String) :
    Except StoreError (List (String × UInt16)) × DurableStore :=
  let (shards, added) := s.shards.assignMissing pools
  let s := { s with shards }
  if added.isEmpty then (.ok added, s)
  else if s.locked then (.error (.database .locked), s)
  else (.ok added, { s with database := s.database.addShards added })

/-- Store a transaction of a pool, and answer its number. A transaction whose signature is known
keeps its number; one older than the newest slot of the pool is refused. -/
def insert (s : DurableStore) (pool : String) (t : Transaction) :
    Except StoreError (UInt64 × DurableStore) :=
  let d := s.database
  match d.transactions.find? fun r => r.pool = pool && r.signature = t.signature with
  | some row => .ok (row.id.toUInt64, s)
  | none => do
    let newest ← (d.newestSlot? pool).mapError .database
    match newest.filter (t.slot < ·) with
    | some newest => throw (.outOfOrder pool t.slot newest)
    | none =>
      if s.locked then throw (.database .locked)
      let (id, d) ← (d.addTransaction pool t).mapError .database
      return (id.toUInt64, { s with database := d })

end DurableStore

instance : Store DurableStore DurableBatch where
  cursor s pool version :=
    match s.database.cursorRow? pool version with
    | none => .ok 0
    | some row => row.cursor.mapError .database
  begin s := if s.locked then .error (.database .locked) else .ok s.view
  commit s b := .ok { s with database := b.staged }
  fetchAfter s pool after limit :=
    TransactionRow.storedAll (s.database.rowsAfter pool after.toInt64 (Int64.ofNat limit))

end PoolKlines
