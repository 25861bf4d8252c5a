import Std.Data.ExtTreeMap

/-!
# Shards

Pools are spread over a fixed number of shards, each of which has a table of buckets of its own.

* `ShardMap.ofList` takes over known assignments, as far as their shards exist;
* `ShardMap.assignMissing` gives every new pool the shard with the fewest pools, the first of them
  on a tie.
-/

namespace PoolKlines

/-- The shards of pools. -/
structure ShardMap where
  count : UInt16
  assignments : Std.ExtTreeMap String UInt16

namespace ShardMap

/-- The shards of the given pools; there is at least one shard, a pool with a shard that does not
exist is left out, and a later assignment of a pool replaces an earlier one. -/
def ofList (count : UInt16) (assignments : List (String × UInt16)) : ShardMap :=
  let count := max count 1
  let known := assignments.filter fun (_, shard) => shard < count
  ⟨count, known.foldl (fun map (pool, shard) => map.insert pool shard) ∅⟩

/-- The shard of a pool. -/
def find? (m : ShardMap) (pool : String) : Option UInt16 := m.assignments[pool]?

/-- The number of assigned pools. -/
def size (m : ShardMap) : Nat := m.assignments.size

/-- No pool is assigned. -/
def isEmpty (m : ShardMap) : Bool := m.assignments.isEmpty

/-- The number of pools on a shard. -/
def load (m : ShardMap) (shard : Nat) : Nat :=
  m.assignments.toList.countP fun (_, s) => s.toNat = shard

/-- The first position of the least number in a list that begins with `best` at position `at`. -/
def firstLeast (position best : Nat) : Nat → List Nat → Nat
  | _, [] => position
  | next, n :: rest =>
    if n < best then firstLeast next n (next + 1) rest else firstLeast position best (next + 1) rest

/-- The first shard with the fewest pools. -/
def leastLoaded (m : ShardMap) : UInt16 :=
  match (List.range m.count.toNat).map m.load with
  | [] => 0
  | first :: rest => UInt16.ofNat (firstLeast 0 first 1 rest)

/-- Give a pool a shard. -/
def assign (m : ShardMap) (pool : String) (shard : UInt16) : ShardMap :=
  { m with assignments := m.assignments.insert pool shard }

/-- Give every pool without a shard the least loaded one, in the order of the list. The new
assignments are answered in that order. -/
def assignMissing (m : ShardMap) : List String → ShardMap × List (String × UInt16)
  | [] => (m, [])
  | pool :: pools =>
    match m.find? pool with
    | some _ => m.assignMissing pools
    | none =>
      let shard := m.leastLoaded
      let (m, added) := (m.assign pool shard).assignMissing pools
      (m, (pool, shard) :: added)

/-- The name of the bucket table of a shard, whose number has at least two digits. -/
def tableName (shard : UInt16) : String :=
  let digits := Nat.toDigits 10 shard.toNat
  "kline_bucket_" ++ String.ofList (if digits.length < 2 then '0' :: digits else digits)

@[simp] theorem find?_assign_self (m : ShardMap) (pool : String) (shard : UInt16) :
    (m.assign pool shard).find? pool = some shard := by
  simp [assign, find?]

@[simp] theorem count_assign (m : ShardMap) (pool : String) (shard : UInt16) :
    (m.assign pool shard).count = m.count := rfl

@[simp] theorem assignMissing_nil (m : ShardMap) : m.assignMissing [] = (m, []) := rfl

end ShardMap

end PoolKlines
