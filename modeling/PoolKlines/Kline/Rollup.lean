import PoolKlines.Store.Basic

/-!
# Rolling up records

Each record is folded into the bucket of its block time at every resolution, and into the totals of
its pool. The average of a bucket at the finest resolution is the mean of its own prices; that of a
coarser one is the mean over the buckets of the parent resolution within its span.

* `carryForward` fills gaps in a list of averages with the value before them;
* `meanOf?` is the mean of some decimals;
* `Rollup.average` computes the average of a bucket that was just changed;
* `Rollup.apply` rolls up one record, through the reads and writes of a batch.
-/

namespace PoolKlines

/-- Why a record was not rolled up. -/
inductive RollupError
  | store (error : StoreError)
  | poolMismatch (record pool : String)
  deriving DecidableEq

/-- The wording of a rollup error. -/
def RollupError.message : RollupError → String
  | store error => "store error: " ++ error.message
  | poolMismatch record pool => "record for pool " ++ record ++ " applied to pool " ++ pool

/-- Replace each missing value by the one before it, the first ones by `seed`. -/
def carryForward {α : Type} (seed : Option α) : List (Option α) → List (Option α)
  | [] => []
  | value :: rest =>
    let carried := value.or seed
    carried :: carryForward carried rest

@[simp] theorem carryForward_nil {α : Type} (seed : Option α) : carryForward seed [] = [] := rfl

@[simp] theorem length_carryForward {α : Type} (seed : Option α) (values : List (Option α)) :
    (carryForward seed values).length = values.length := by
  induction values generalizing seed with
  | nil => rfl
  | cons value rest ih => simp [carryForward, ih]

/-- The mean of some decimals, summed up from the first. -/
def meanOf? (values : List Decimal) : Option Decimal :=
  (values.foldl Decimal.saturatingAdd .zero).div? (.ofCount (UInt64.ofNat values.length))

namespace Rollup

variable {β : Type} [Batch β]

/-- The averages of the parent buckets in the slots of a span, from its start up to its latest
bucket. -/
def slotAverages (children : List Bucket) (first step window : Int) : List (Option Decimal) :=
  let latest := children.foldl (fun latest child => max latest child.key.start) first
  let slots := min ((latest - first) / step + 1) window
  (List.range slots.toNat).map fun (slot : Nat) =>
    (children.find? (·.key.start = first + slot * step)).bind Bucket.average

/-- The average at the finest resolution: that of the bucket's own prices, or else that of the
latest bucket before it that has one. -/
def finestAverage (bucket : Bucket) : Staged StoreError β (Option Decimal) := do
  if 0 < bucket.priceCount then return bucket.average
  let earlier ← Staged.latestBefore? bucket.key.pool bucket.key.resolution bucket.key.start
  return (earlier.bind Bucket.average).or bucket.average

/-- The average at a coarser resolution: the mean over the slots of the parent resolution, where an
empty slot takes the value before it, also from before the span. -/
def backfilledAverage (bucket : Bucket) (parent : Resolution) :
    Staged StoreError β (Option Decimal) := do
  let first := bucket.key.start
  let children ← Staged.bucketsBetween bucket.key.pool parent first bucket.finish
  if children.isEmpty then return bucket.average
  let earlier ← Staged.latestBefore? bucket.key.pool parent first
  let slots := slotAverages children first parent.seconds bucket.key.resolution.window
  match (carryForward (earlier.bind Bucket.average) slots).filterMap id with
  | [] => return bucket.average
  | values => return (meanOf? values).or bucket.average

/-- The average of a bucket. -/
def average (bucket : Bucket) : Staged StoreError β (Option Decimal) :=
  match bucket.key.resolution.parent? with
  | none => finestAverage bucket
  | some parent => backfilledAverage bucket parent

/-- Fold an observation into the bucket of its time at a resolution, and bring the average up to
date. -/
def applyAt (pool : String) (observation : Observation) (resolution : Resolution) :
    Staged StoreError β Unit := do
  let key := BucketKey.containing pool resolution observation.blockTime
  let bucket ← Staged.upsert key (·.merge observation)
  let average ← average bucket
  if ¬Decimal.SameOption average bucket.average then
    Staged.putBucket { bucket with average }

/-- Fold an observation into the totals of a pool. -/
def applyTotals (pool : String) (observation : Observation) : Staged StoreError β Unit := do
  let totals ← Staged.totals? pool
  Staged.putTotals ((totals.getD (.empty pool)).merge observation)

/-- Fold an observation into all resolutions, finest first, and into the totals. -/
def applyObservation (pool : String) (observation : Observation) : Staged StoreError β Unit := do
  Resolution.all.forM (applyAt pool observation)
  applyTotals pool observation

/-- Roll up a record of a pool. -/
def apply (prices : PriceSource) (pool : PoolConfig) (record : Record) :
    Staged RollupError β Unit :=
  if record.pool ≠ pool.address then throw (.poolMismatch record.pool pool.address)
  else
    EStateM.adaptExcept .store
      (applyObservation pool.address (.ofRecord record pool prices))

end Rollup

end PoolKlines
