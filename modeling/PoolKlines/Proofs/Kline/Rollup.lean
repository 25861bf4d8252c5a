import PoolKlines.Kline.Rollup
import PoolKlines.Proofs.Computation
import PoolKlines.Proofs.Store.Memory

/-!
# Rolling up in memory

On the staged state of a batch in memory no read and no write fails, so that rolling up is a
function on states.

* `MemoryState.average` is the average that `Rollup.average` computes;
* `MemoryState.rolled` is the bucket that an observation leaves at a resolution, and
  `MemoryState.rollAt` puts it in its place;
* `MemoryState.rollUp` folds an observation into all resolutions and into the totals;
* `Rollup.apply_memory` and `Rollup.forM_apply_memory`: rolling up records is this function.
-/

namespace PoolKlines

theorem Decimal.SameOption.refl (a : Option Decimal) : SameOption a a := by
  cases a with
  | none => trivial
  | some a => exact Eq.refl (a.coefficient * tenPow a.scale)

theorem Decimal.SameOption.symm {a b : Option Decimal} (h : SameOption a b) : SameOption b a := by
  cases a <;> cases b
  · trivial
  · exact h
  · exact h
  · exact Eq.symm h

namespace Bucket

/-- The fields of a bucket apart from its average. -/
def withoutAverage (b : Bucket) : Bucket := { b with average := none }

/-- A bucket with its average brought up to date, in its own form if it has the same value. -/
def refresh (b : Bucket) (average : Option Decimal) : Bucket :=
  if Decimal.SameOption average b.average then b else { b with average }

@[simp] theorem withoutAverage_refresh (b : Bucket) (average : Option Decimal) :
    (b.refresh average).withoutAverage = b.withoutAverage := by
  unfold refresh
  split <;> rfl

theorem key_eq_of_withoutAverage {b c : Bucket} (h : b.withoutAverage = c.withoutAverage) :
    b.key = c.key := by
  have hkey := congrArg key h
  exact hkey

@[simp] theorem key_refresh (b : Bucket) (average : Option Decimal) :
    (b.refresh average).key = b.key :=
  key_eq_of_withoutAverage (b.withoutAverage_refresh average)

theorem sameOption_average_refresh (b : Bucket) (average : Option Decimal) :
    Decimal.SameOption (b.refresh average).average average := by
  unfold refresh
  split
  · exact Decimal.SameOption.symm (by assumption)
  · exact Decimal.SameOption.refl _

end Bucket

@[simp] theorem meanOf?_nil : meanOf? [] = none := rfl

namespace MemoryState

/-- The averages over the slots of the parent resolution, which a coarser average is the mean of:
those of the buckets of the span, carried forward over the slots without one. -/
def carriedAverages (s : MemoryState) (bucket : Bucket) (parent : Resolution) : List Decimal :=
  let first := bucket.key.start
  let children := s.bucketsWhere bucket.key.pool parent fun start =>
    first ≤ start && start < bucket.finish
  if children.isEmpty then []
  else
    let seed := lastAverage? (s.bucketsWhere bucket.key.pool parent (· < first))
    (carryForward seed
      (Rollup.slotAverages children first parent.seconds bucket.key.resolution.window)).filterMap id

/-- The average of a bucket that was just changed. -/
def average (s : MemoryState) (bucket : Bucket) : Option Decimal :=
  match bucket.key.resolution.parent? with
  | none =>
    if 0 < bucket.priceCount then bucket.average
    else
      (lastAverage? (s.bucketsWhere bucket.key.pool bucket.key.resolution
        (· < bucket.key.start))).or bucket.average
  | some parent => (meanOf? (s.carriedAverages bucket parent)).or bucket.average

/-- The bucket of an observation's time at a resolution, with the observation folded in. -/
def merged (s : MemoryState) (pool : String) (o : Observation) (r : Resolution) : Bucket :=
  let key := BucketKey.containing pool r o.blockTime
  (s.buckets[key]?.getD (.empty key)).merge o

/-- The bucket that an observation leaves at a resolution. -/
def rolled (s : MemoryState) (pool : String) (o : Observation) (r : Resolution) : Bucket :=
  (s.merged pool o r).refresh ((s.putBucket (s.merged pool o r)).average (s.merged pool o r))

/-- Fold an observation in at a resolution. -/
def rollAt (pool : String) (o : Observation) (s : MemoryState) (r : Resolution) : MemoryState :=
  s.putBucket (s.rolled pool o r)

/-- Fold an observation into the totals of a pool. -/
def rollTotals (pool : String) (s : MemoryState) (o : Observation) : MemoryState :=
  let totals := (s.totals[pool]?.getD (.empty pool)).merge o
  { s with totals := s.totals.insert totals.pool totals }

/-- Fold an observation into all resolutions and into the totals. -/
def rollUp (pool : String) (s : MemoryState) (o : Observation) : MemoryState :=
  (Resolution.all.foldl (rollAt pool o) s).rollTotals pool o

end MemoryState

/-! ### The computation is the function -/

namespace Rollup

variable (s : MemoryState) (refused : Bool)

theorem average_memory (bucket : Bucket) :
    average bucket (⟨s, refused⟩ : MemoryBatch) = .ok (s.average bucket) ⟨s, refused⟩ := by
  unfold average MemoryState.average
  cases bucket.key.resolution.parent? with
  | none =>
    rw [← bind_find?_reverse_average]
    by_cases hc : 0 < bucket.priceCount
    · simp only [finestAverage, hc, if_true]
      rfl
    · simp only [finestAverage, hc, if_false]
      rfl
  | some parent =>
    simp only [MemoryState.carriedAverages]
    rw [← bind_find?_reverse_average]
    have hchildren : Staged.bucketsBetween bucket.key.pool parent bucket.key.start bucket.finish
        (⟨s, refused⟩ : MemoryBatch) = .ok (s.bucketsWhere bucket.key.pool parent fun start =>
          bucket.key.start ≤ start && start < bucket.finish) ⟨s, refused⟩ := rfl
    refine (bind_of_ok hchildren _).trans ?_
    by_cases hc : (s.bucketsWhere bucket.key.pool parent fun start =>
      bucket.key.start ≤ start && start < bucket.finish).isEmpty
    · simp only [hc, if_true, meanOf?_nil, Option.none_or]
      rfl
    · simp only [hc, Bool.false_eq_true, if_false]
      have hlatest : Staged.latestBefore? bucket.key.pool parent bucket.key.start
          (⟨s, refused⟩ : MemoryBatch) = .ok ((s.bucketsWhere bucket.key.pool parent
            (· < bucket.key.start)).reverse.find? (·.average.isSome)) ⟨s, refused⟩ := rfl
      refine (bind_of_ok hlatest _).trans ?_
      generalize (carryForward _ (slotAverages _ _ _ _)).filterMap id = values
      cases values <;> rfl

theorem applyAt_memory (pool : String) (o : Observation) (r : Resolution) :
    applyAt pool o r (⟨s, refused⟩ : MemoryBatch) = .ok () ⟨s.rollAt pool o r, refused⟩ := by
  have hupsert : Staged.upsert (.containing pool r o.blockTime) (·.merge o)
      (⟨s, refused⟩ : MemoryBatch) =
        .ok (s.merged pool o r) ⟨s.putBucket (s.merged pool o r), refused⟩ := rfl
  refine (bind_of_ok hupsert _).trans ((bind_of_ok (average_memory _ _ _) _).trans ?_)
  unfold MemoryState.rollAt MemoryState.rolled Bucket.refresh
  split
  · exact congrArg (fun t => EStateM.Result.ok () (⟨t, refused⟩ : MemoryBatch))
      (s.putBucket_putBucket rfl)
  · rename_i h
    rw [if_pos (not_not.1 h)]
    rfl

theorem applyTotals_memory (pool : String) (o : Observation) :
    applyTotals pool o (⟨s, refused⟩ : MemoryBatch) = .ok () ⟨s.rollTotals pool o, refused⟩ := rfl

theorem applyObservation_memory (pool : String) (o : Observation) :
    applyObservation pool o (⟨s, refused⟩ : MemoryBatch) = .ok () ⟨s.rollUp pool o, refused⟩ := by
  have hresolutions : Resolution.all.forM (applyAt pool o) (⟨s, refused⟩ : MemoryBatch) =
      .ok () ⟨Resolution.all.foldl (MemoryState.rollAt pool o) s, refused⟩ :=
    forM_eq_foldl (g := fun s => (⟨s, refused⟩ : MemoryBatch))
      (fun r _ s => applyAt_memory s refused pool o r) s
  exact (bind_of_ok hresolutions _).trans (applyTotals_memory _ refused pool o)

/-- Rolling up a record of the pool folds its observation in. -/
theorem apply_memory (prices : PriceSource) {pool : PoolConfig} {record : Record}
    (h : record.pool = pool.address) :
    apply prices pool record (⟨s, refused⟩ : MemoryBatch) =
      .ok () ⟨s.rollUp pool.address (.ofRecord record pool prices), refused⟩ := by
  rw [apply, if_neg (not_not.2 h)]
  exact adaptExcept_of_ok (applyObservation_memory ..) _

/-- Rolling up records of the pool folds their observations in, one after the other. -/
theorem forM_apply_memory (prices : PriceSource) {pool : PoolConfig} {records : List Record}
    (h : ∀ record ∈ records, record.pool = pool.address) :
    records.forM (apply prices pool) (⟨s, refused⟩ : MemoryBatch) =
      .ok () ⟨(records.map (.ofRecord · pool prices)).foldl (MemoryState.rollUp pool.address) s,
        refused⟩ := by
  rw [List.foldl_map]
  exact forM_eq_foldl (g := fun s => (⟨s, refused⟩ : MemoryBatch))
    (fun record hrecord s => apply_memory s refused prices (h record hrecord)) s

/-- Rolling up records of the pool leaves no other state. -/
theorem eq_of_forM_apply_memory {prices : PriceSource} {pool : PoolConfig} {records : List Record}
    (h : ∀ record ∈ records, record.pool = pool.address) {t : MemoryState} {refused' : Bool}
    (ht : records.forM (apply prices pool) (⟨s, refused⟩ : MemoryBatch) = .ok () ⟨t, refused'⟩) :
    t = (records.map (.ofRecord · pool prices)).foldl (MemoryState.rollUp pool.address) s := by
  rw [forM_apply_memory s refused prices h] at ht
  cases ht
  rfl

end Rollup

end PoolKlines
