import PoolKlines.Store.Basic
import Std.Data.ExtTreeMap

/-!
# The store in memory

* `MemoryState` holds buckets, totals and cursors by key;
* `MemoryStore` is the committed state with a queue of transactions, and may be told to refuse
  commits;
* `MemoryBatch` works on a copy of the state that a commit puts in its place.
-/

namespace PoolKlines

/-- What names a cursor. -/
structure CursorKey where
  pool : String
  version : ProtocolVersion
  deriving DecidableEq

namespace CursorKey

instance : Ord CursorKey where
  compare := compareLex (compareOn pool) (compareOn version)

instance : Std.TransOrd CursorKey := inferInstanceAs (Std.TransCmp (compareLex _ _))

instance : Std.LawfulEqOrd CursorKey where
  compare_self {_} := Std.ReflCmp.compare_self
  eq_of_compare {k l} h := by
    obtain ⟨p, v⟩ := k
    obtain ⟨q, w⟩ := l
    have h : (compare p q).then (compare v w) = .eq := h
    simp only [Ordering.then_eq_eq, Std.LawfulEqOrd.compare_eq_iff_eq] at h
    obtain ⟨rfl, rfl⟩ := h
    rfl

end CursorKey

/-- Buckets, totals and cursors. -/
structure MemoryState where
  buckets : Std.ExtTreeMap BucketKey Bucket
  totals : Std.ExtTreeMap String PoolTotals
  cursors : Std.ExtTreeMap CursorKey UInt64

namespace MemoryState

/-- Nothing stored. -/
def empty : MemoryState := ⟨∅, ∅, ∅⟩

/-- All buckets in the order of their keys. -/
def bucketList (s : MemoryState) : List Bucket := s.buckets.toList.map Prod.snd

/-- The buckets of a pool at a resolution whose start satisfies a condition, in order. -/
def bucketsWhere (s : MemoryState) (pool : String) (resolution : Resolution) (p : Int → Bool) :
    List Bucket :=
  (s.buckets.toList.filter fun (key, _) =>
    key.pool = pool && key.resolution = resolution && p key.start).map Prod.snd

/-- The cursor of a pool, zero if it was never moved. -/
def cursor (s : MemoryState) (pool : String) (version : ProtocolVersion) : UInt64 :=
  s.cursors[CursorKey.mk pool version]?.getD 0

/-- Move a cursor forward. -/
def advanceCursor (s : MemoryState) (pool : String) (version : ProtocolVersion) (id : UInt64) :
    MemoryState :=
  { s with cursors := s.cursors.insert ⟨pool, version⟩ (max (s.cursor pool version) id) }

end MemoryState

/-- The staged state of a batch, and whether its commit will be refused. -/
structure MemoryBatch where
  staged : MemoryState
  refused : Bool

instance : Batch MemoryBatch where
  bucket? b key := .ok b.staged.buckets[key]?
  bucketsBetween b pool resolution first last :=
    .ok (b.staged.bucketsWhere pool resolution fun start => first ≤ start && start < last)
  latestBefore? b pool resolution time :=
    .ok ((b.staged.bucketsWhere pool resolution (· < time)).reverse.find? (·.average.isSome))
  putBucket b bucket :=
    .ok { b with staged.buckets := b.staged.buckets.insert bucket.key bucket }
  totals? b pool := .ok b.staged.totals[pool]?
  putTotals b totals :=
    .ok { b with staged.totals := b.staged.totals.insert totals.pool totals }
  advanceCursor b pool version id := .ok { b with staged := b.staged.advanceCursor pool version id }

/-- The committed state and the queue of transactions. -/
structure MemoryStore where
  state : MemoryState
  transactions : List StoredTransaction
  refusesCommits : Bool

namespace MemoryStore

/-- A store without contents. -/
def empty : MemoryStore := ⟨.empty, [], false⟩

/-- Queue a transaction. -/
def push (s : MemoryStore) (t : StoredTransaction) : MemoryStore :=
  { s with transactions := s.transactions ++ [t] }

/-- The order in which transactions are served: by slot, then by id. -/
def servedBefore (s t : StoredTransaction) : Bool :=
  s.slot < t.slot || (s.slot == t.slot && s.id ≤ t.id)

/-- The transactions of a pool after an id, in the order in which they are served. -/
def rowsAfter (s : MemoryStore) (pool : String) (after : UInt64) : List StoredTransaction :=
  (s.transactions.filter fun t => t.pool = pool && after < t.id).mergeSort servedBefore

end MemoryStore

instance : Store MemoryStore MemoryBatch where
  cursor s pool version := .ok (s.state.cursor pool version)
  begin s := .ok ⟨s.state, s.refusesCommits⟩
  commit s b :=
    if b.refused then .error (.unavailable "commit rejected") else .ok { s with state := b.staged }
  fetchAfter s pool after limit := .ok ((s.rowsAfter pool after).take limit)

end PoolKlines
