import PoolKlines.Proofs.Kline.Average
import PoolKlines.Proofs.Kline.Projection

/-!
# Consistency of the resolutions

When observations come in the order of their block times, the averages of all resolutions fit
together after every one of them. An observation touches one bucket at each resolution, and no
bucket left of it depends on a touched one.

* `Bucket.Sound` relates the counter, the prices and the average of one bucket;
* `MemoryState.Consistent` says what the average of a bucket is, given all other buckets;
* `MemoryState.Stocked` is what holds in any order of block times;
* `MemoryState.InOrder` is the invariant: nothing is stored after the last block time, and every
  bucket is consistent;
* `InOrder.rollUp` is the step and `InOrder.foldl_rollUp` the run;
* `averages_consistent_in_order` is the statement about records.
-/

namespace PoolKlines

open Decimal (SameOption)

theorem Decimal.SameOption.eq_none_iff {a b : Option Decimal} (h : SameOption a b) :
    a = none ↔ b = none := by
  cases a <;> cases b
  · exact Iff.rfl
  · exact h.elim
  · exact h.elim
  · simp

namespace Bucket

@[simp] theorem refresh_average (b : Bucket) : b.refresh b.average = b :=
  if_pos (SameOption.refl _)

@[simp] theorem priceCount_refresh (b : Bucket) (average : Option Decimal) :
    (b.refresh average).priceCount = b.priceCount := by
  unfold refresh
  split <;> rfl

@[simp] theorem hasPrice_refresh (b : Bucket) (average : Option Decimal) :
    (b.refresh average).hasPrice = b.hasPrice := by
  unfold refresh
  split <;> rfl

theorem priceSum_refresh (b : Bucket) (average : Option Decimal) :
    (b.refresh average).priceSum = b.priceSum := by
  unfold refresh
  split <;> rfl

theorem isSome_average_refresh (b : Bucket) {average : Option Decimal} (h : average.isSome) :
    (b.refresh average).average.isSome := by
  rw [Option.isSome_iff_ne_none] at h ⊢
  exact mt (b.sameOption_average_refresh average).eq_none_iff.1 h

/-- Merging without a price leaves prices and average alone. -/
theorem merge_of_price_eq_none (b : Bucket) {o : Observation} (h : o.price = none) :
    (b.merge o).closing = b.closing ∧ (b.merge o).average = b.average ∧
      (b.merge o).priceSum = b.priceSum ∧ (b.merge o).priceCount = b.priceCount := by
  simp only [merge, h, mergeLatest]
  split <;> exact ⟨rfl, rfl, rfl, rfl⟩

/-- Merging a price counts it and takes the mean. -/
theorem merge_of_price_eq_some (b : Bucket) {o : Observation} {price : Decimal}
    (h : o.price = some price) :
    (b.merge o).closing = some price ∧
      (b.merge o).average =
        ((b.merge o).priceSum.div? (.ofCount (b.merge o).priceCount)).or b.average ∧
      (b.merge o).priceCount = b.priceCount + 1 := by
  simp only [merge, h, mergeLatest]
  split <;> exact ⟨rfl, rfl, rfl⟩

theorem hasPrice_merge (b : Bucket) (o : Observation) :
    (b.merge o).hasPrice = (o.price.isSome || b.hasPrice) := by
  cases h : o.price with
  | none => simp [hasPrice, (b.merge_of_price_eq_none h).1]
  | some price => simp [hasPrice, (b.merge_of_price_eq_some h).1]

/-- A bucket that counts prices has one, and a bucket with a price has an average. -/
structure Sound (b : Bucket) : Prop where
  hasPrice_of_count : b.priceCount ≠ 0 → b.hasPrice
  isSome_average : b.hasPrice → b.average.isSome

theorem sound_empty (key : BucketKey) : (empty key).Sound :=
  ⟨fun h => absurd rfl h, fun h => nomatch h⟩

theorem isSome_average_merge {b : Bucket} (h : b.average.isSome) (o : Observation) :
    (b.merge o).average.isSome := by
  cases hprice : o.price with
  | none => rwa [(b.merge_of_price_eq_none hprice).2.1]
  | some price =>
    rw [(b.merge_of_price_eq_some hprice).2.1, Option.isSome_or, h, Bool.or_true]

/-- The average is the mean of the prices that were counted. -/
def AveragesPrices (b : Bucket) : Prop :=
  b.priceCount ≠ 0 → SameOption b.average (b.priceSum.div? (.ofCount b.priceCount))

theorem averagesPrices_empty (key : BucketKey) : (empty key).AveragesPrices :=
  fun h => absurd rfl h

theorem AveragesPrices.merge {b : Bucket} (hb : b.AveragesPrices) (o : Observation) :
    (b.merge o).AveragesPrices := by
  intro hcount
  cases hprice : o.price with
  | none =>
    obtain ⟨-, haverage, hsum, hsame⟩ := b.merge_of_price_eq_none hprice
    rw [hsame] at hcount
    rw [haverage, hsum, hsame]
    exact hb hcount
  | some price =>
    obtain ⟨-, haverage, -⟩ := b.merge_of_price_eq_some hprice
    obtain ⟨mean, hmean⟩ :=
      Option.isSome_iff_exists.1 (Decimal.isSome_div?_ofCount (b.merge o).priceSum hcount)
    rw [haverage, hmean, Option.some_or]
    exact SameOption.refl _

theorem Sound.merge {b : Bucket} (hb : b.Sound) (o : Observation) : (b.merge o).Sound := by
  constructor
  · intro hcount
    rw [hasPrice_merge, Bool.or_eq_true]
    cases hprice : o.price with
    | none =>
      rw [(b.merge_of_price_eq_none hprice).2.2.2] at hcount
      exact .inr (hb.hasPrice_of_count hcount)
    | some price => exact .inl rfl
  · intro hpriced
    by_cases hold : b.hasPrice
    · exact isSome_average_merge (hb.isSome_average hold) o
    · -- the price is the first one, so it is counted as one
      rw [hasPrice_merge, Bool.or_eq_true] at hpriced
      obtain ⟨price, hprice⟩ := Option.isSome_iff_exists.1 (hpriced.resolve_right hold)
      obtain ⟨-, haverage, hcount⟩ := b.merge_of_price_eq_some hprice
      have hzero : b.priceCount = 0 := by
        by_contra hne
        exact hold (hb.hasPrice_of_count hne)
      have hone : (b.merge o).priceCount ≠ 0 := by
        rw [hcount, hzero]
        decide
      rw [haverage, Option.isSome_or, Decimal.isSome_div?_ofCount _ hone, Bool.true_or]

theorem Sound.refresh {b : Bucket} (hb : b.Sound) {average : Option Decimal}
    (h : b.average.isSome → average.isSome) : (b.refresh average).Sound := by
  unfold Bucket.refresh
  split
  · exact hb
  · exact ⟨hb.hasPrice_of_count, fun hpriced => h (hb.isSome_average hpriced)⟩

end Bucket

namespace MemoryState

/-- What the average of a bucket is. At the finest resolution it is the mean of the bucket's own
prices, or else the latest average before it. At a coarser one it is the mean over the slots of the
parent resolution, and there is none just if no slot has a value. -/
def Consistent (s : MemoryState) (b : Bucket) : Prop :=
  match b.key.resolution.parent? with
  | none =>
    b.AveragesPrices ∧
    (b.hasPrice = false → SameOption b.average
      (lastAverage? (s.bucketsWhere b.key.pool b.key.resolution (· < b.key.start))))
  | some parent =>
    SameOption b.average (meanOf? (s.slotValues b.key parent)) ∧
    (b.average = none ↔ s.slotValues b.key parent = [])

theorem consistent_iff_of_none {s : MemoryState} {b : Bucket}
    (h : b.key.resolution.parent? = none) :
    s.Consistent b ↔ b.AveragesPrices ∧ (b.hasPrice = false → SameOption b.average
      (lastAverage? (s.bucketsWhere b.key.pool b.key.resolution (· < b.key.start)))) := by
  rw [Consistent, h]

theorem consistent_iff_of_some {s : MemoryState} {b : Bucket} {parent : Resolution}
    (h : b.key.resolution.parent? = some parent) :
    s.Consistent b ↔ SameOption b.average (meanOf? (s.slotValues b.key parent)) ∧
      (b.average = none ↔ s.slotValues b.key parent = []) := by
  rw [Consistent, h]

/-- Whether a bucket is consistent depends on the buckets that its average depends on. -/
theorem Consistent.congr {s t : MemoryState} {b : Bucket} (hs : s.Keyed) (ht : t.Keyed)
    (has : s.Aligned) (hat : t.Aligned) (hd : b.key.resolution.seconds ∣ b.key.start)
    (h : ∀ l, b.key.DependsOn l → s.buckets[l]? = t.buckets[l]?) (hb : s.Consistent b) :
    t.Consistent b := by
  cases hp : b.key.resolution.parent? with
  | none =>
    rw [consistent_iff_of_none hp] at hb ⊢
    rwa [← bucketsWhere_before_congr hs ht hp h]
  | some parent =>
    rw [consistent_iff_of_some hp] at hb ⊢
    rwa [← carriedAverages_eq_slotValues ht hat hp hd, ← carriedAverages_congr hs ht hp h,
      carriedAverages_eq_slotValues hs has hp hd]

/-! ### In any order -/

/-- What is left of observations of a pool, in whatever order they came. -/
structure Stocked (s : MemoryState) (pool : String) : Prop where
  keyed : s.Keyed
  aligned : s.Aligned
  pool_eq : ∀ (k : BucketKey) (b : Bucket), s.buckets[k]? = some b → k.pool = pool
  sound : ∀ (k : BucketKey) (b : Bucket), s.buckets[k]? = some b → b.Sound

theorem getElem?_empty_ne (k : BucketKey) (b : Bucket) : empty.buckets[k]? ≠ some b := by
  intro hb
  simp [empty] at hb

theorem stocked_empty (pool : String) : empty.Stocked pool :=
  ⟨keyed_empty, fun k b hb => absurd hb (getElem?_empty_ne k b),
    fun k b hb => absurd hb (getElem?_empty_ne k b),
    fun k b hb => absurd hb (getElem?_empty_ne k b)⟩

theorem isSome_average {b : Bucket} (h : b.average.isSome) (s : MemoryState) :
    (s.average b).isSome := by
  unfold MemoryState.average
  split
  · split
    · exact h
    · rw [Option.isSome_or, h, Bool.or_true]
  · rw [Option.isSome_or, h, Bool.or_true]

namespace Stocked

variable {s : MemoryState} {pool : String} {o : Observation}

/-- Every bucket of the new state is a touched one or one of the old state. -/
theorem touched_or_stored (hs : s.Stocked pool) {k : BucketKey} {b : Bucket}
    (hb : (s.rollUp pool o).buckets[k]? = some b) :
    (k = .containing pool k.resolution o.blockTime ∧
      b = ((s.buckets[k]?.getD (.empty k)).merge o).refresh
        ((s.rollUp pool o).average ((s.buckets[k]?.getD (.empty k)).merge o))) ∨
    (k ≠ .containing pool k.resolution o.blockTime ∧ s.buckets[k]? = some b) := by
  rw [hs.keyed.getElem?_rollUp] at hb
  split at hb
  · rename_i hk
    exact .inl ⟨hk, (Option.some.inj hb).symm⟩
  · rename_i hk
    exact .inr ⟨hk, hb⟩

/-- The bucket that an observation is merged into has the key, and is sound. -/
theorem getD_empty (hs : s.Stocked pool) (k : BucketKey) :
    (s.buckets[k]?.getD (.empty k)).key = k ∧ (s.buckets[k]?.getD (.empty k)).Sound := by
  cases hb : s.buckets[k]? with
  | none => exact ⟨rfl, Bucket.sound_empty k⟩
  | some b => exact ⟨hs.keyed k b hb, hs.sound k b hb⟩

theorem key_merge_getD_empty (hs : s.Stocked pool) (k : BucketKey) (o : Observation) :
    ((s.buckets[k]?.getD (.empty k)).merge o).key = k := by
  rw [Bucket.key_merge, (hs.getD_empty k).1]

theorem rollUp (hs : s.Stocked pool) (o : Observation) : (s.rollUp pool o).Stocked pool where
  keyed := hs.keyed.rollUp pool o
  aligned k b hb := by
    rcases hs.touched_or_stored hb with ⟨hk, -⟩ | ⟨-, hb⟩
    · rw [hk]
      exact k.resolution.seconds_dvd_start o.blockTime
    · exact hs.aligned k b hb
  pool_eq k b hb := by
    rcases hs.touched_or_stored hb with ⟨hk, -⟩ | ⟨-, hb⟩
    · rw [hk]
      rfl
    · exact hs.pool_eq k b hb
  sound k b hb := by
    rcases hs.touched_or_stored hb with ⟨-, rfl⟩ | ⟨-, hb⟩
    · exact ((hs.getD_empty k).2.merge o).refresh fun h => isSome_average h _
    · exact hs.sound k b hb

/-- No bucket loses its average. -/
theorem exists_isSome_average_rollUp (hs : s.Stocked pool) (o : Observation) {k : BucketKey}
    {b : Bucket} (hb : s.buckets[k]? = some b) (h : b.average.isSome) :
    ∃ c, (s.rollUp pool o).buckets[k]? = some c ∧ c.average.isSome := by
  rw [hs.keyed.getElem?_rollUp]
  split
  · refine ⟨_, rfl, ?_⟩
    rw [hb, Option.getD_some]
    exact Bucket.isSome_average_refresh _ (isSome_average (Bucket.isSome_average_merge h o) _)
  · exact ⟨b, hb, h⟩

/-- At every resolution there is a touched bucket, and a price gives it an average. -/
theorem exists_touched (hs : s.Stocked pool) (o : Observation) (r : Resolution) :
    ∃ b, (s.rollUp pool o).buckets[BucketKey.containing pool r o.blockTime]? = some b ∧
      (o.price.isSome → b.average.isSome) := by
  have htouched := hs.keyed.getElem?_rollUp pool o (.containing pool r o.blockTime)
  have hself : BucketKey.containing pool r o.blockTime =
      .containing pool (BucketKey.containing pool r o.blockTime).resolution o.blockTime := rfl
  rw [if_pos hself] at htouched
  refine ⟨_, htouched, fun hprice => ((hs.rollUp o).sound _ _ htouched).isSome_average ?_⟩
  rw [Bucket.hasPrice_refresh, Bucket.hasPrice_merge, hprice, Bool.true_or]

/-- The round at the parent resolution leaves a bucket in the span of a touched one. -/
theorem children_ne_nil (hs : s.Stocked pool) {k : BucketKey} {parent : Resolution}
    (hp : k.resolution.parent? = some parent)
    (hk : k = .containing pool k.resolution o.blockTime) :
    (s.rollUp pool o).children k parent ≠ [] := by
  obtain rfl : pool = k.pool := (congrArg BucketKey.pool hk).symm
  have hstart : k.start = k.resolution.start o.blockTime := congrArg BucketKey.start hk
  obtain ⟨child, hchild, -⟩ := hs.exists_touched o parent
  have hle := Resolution.start_le_start_of_parent hp o.blockTime
  have hlt := Resolution.start_lt_finish_of_parent parent k.resolution o.blockTime
  rw [← hstart] at hle hlt
  refine List.ne_nil_of_mem (mem_bucketsWhere.2 ⟨_, hchild, ?_⟩)
  rw [Bool.and_eq_true, decide_eq_true_eq, decide_eq_true_eq]
  exact ⟨hle, hlt⟩

end Stocked

/-! ### In the order of block times -/

/-- What is left of observations of a pool that came in order, up to a time. -/
structure InOrder (s : MemoryState) (pool : String) (time : Int) : Prop where
  keyed : s.Keyed
  aligned : s.Aligned
  past : ∀ (k : BucketKey) (b : Bucket), s.buckets[k]? = some b →
    k.pool = pool ∧ k.start ≤ k.resolution.start time
  sound : ∀ (k : BucketKey) (b : Bucket), s.buckets[k]? = some b → b.Sound
  consistent : ∀ (k : BucketKey) (b : Bucket), s.buckets[k]? = some b → s.Consistent b

theorem inOrder_empty (pool : String) (time : Int) : empty.InOrder pool time :=
  ⟨keyed_empty, fun k b hb => absurd hb (getElem?_empty_ne k b),
    fun k b hb => absurd hb (getElem?_empty_ne k b),
    fun k b hb => absurd hb (getElem?_empty_ne k b),
    fun k b hb => absurd hb (getElem?_empty_ne k b)⟩

namespace InOrder

variable {s : MemoryState} {pool : String}

theorem mono {t u : Int} (hs : s.InOrder pool t) (h : t ≤ u) : s.InOrder pool u where
  keyed := hs.keyed
  aligned := hs.aligned
  past k b hb := by
    obtain ⟨hpool, hle⟩ := hs.past k b hb
    exact ⟨hpool, hle.trans (k.resolution.start_mono h)⟩
  sound := hs.sound
  consistent := hs.consistent

variable {o : Observation}

theorem stocked {t : Int} (hs : s.InOrder pool t) : s.Stocked pool :=
  ⟨hs.keyed, hs.aligned, fun k b hb => (hs.past k b hb).1, hs.sound⟩

theorem past_rollUp (hs : s.InOrder pool o.blockTime) {k : BucketKey} {b : Bucket}
    (hb : (s.rollUp pool o).buckets[k]? = some b) :
    k.pool = pool ∧ k.start ≤ k.resolution.start o.blockTime := by
  rcases hs.stocked.touched_or_stored hb with ⟨hk, -⟩ | ⟨-, hb⟩
  · rw [hk]
    exact ⟨rfl, le_rfl⟩
  · exact hs.past k b hb

/-- A bucket that starts before the touched one of its resolution stays. -/
theorem getElem?_rollUp_of_lt (hs : s.InOrder pool o.blockTime) {l : BucketKey}
    (h : l.start < l.resolution.start o.blockTime) :
    (s.rollUp pool o).buckets[l]? = s.buckets[l]? := by
  rw [hs.keyed.getElem?_rollUp, if_neg]
  intro hl
  have hstart : l.start = l.resolution.start o.blockTime := congrArg BucketKey.start hl
  omega

/-- A bucket that is not touched ends before the touched one starts, and all that it depends on
stays. -/
theorem getElem?_rollUp_of_dependsOn (hs : s.InOrder pool o.blockTime) {k l : BucketKey}
    {b : Bucket} (hb : s.buckets[k]? = some b)
    (hk : k ≠ .containing pool k.resolution o.blockTime) (hl : k.DependsOn l) :
    (s.rollUp pool o).buckets[l]? = s.buckets[l]? := by
  obtain ⟨hpool, hle⟩ := hs.past k b hb
  have hne : k.start ≠ k.resolution.start o.blockTime := fun h =>
    hk (BucketKey.eq_containing_iff.2 ⟨hpool, rfl, h.symm⟩)
  have hfinish : k.finish ≤ k.resolution.start o.blockTime :=
    Resolution.add_le_of_dvd (hs.aligned k b hb) (k.resolution.seconds_dvd_start _)
      (lt_of_le_of_ne hle hne)
  apply hs.getElem?_rollUp_of_lt
  cases hp : k.resolution.parent? with
  | none =>
    obtain ⟨-, hr, hlt⟩ := (BucketKey.dependsOn_iff_of_none hp).1 hl
    rw [hr]
    exact hlt.trans_le hle
  | some parent =>
    obtain ⟨-, hr, hlt⟩ := (BucketKey.dependsOn_iff_of_some hp).1 hl
    rw [hr]
    exact (hlt.trans_le hfinish).trans_le (Resolution.start_le_start_of_parent hp _)

/-- The bucket that an observation is merged into at the finest resolution: the mean of its prices
and what it carried over from before are up to date. -/
theorem getD_empty_of_none (hs : s.InOrder pool o.blockTime) {k : BucketKey}
    (hp : k.resolution.parent? = none) :
    (s.buckets[k]?.getD (.empty k)).AveragesPrices ∧
      ((s.buckets[k]?.getD (.empty k)).hasPrice = false →
        lastAverage? (s.bucketsWhere k.pool k.resolution (· < k.start)) = none →
        (s.buckets[k]?.getD (.empty k)).average = none) := by
  cases hb : s.buckets[k]? with
  | none => exact ⟨Bucket.averagesPrices_empty k, fun _ _ => rfl⟩
  | some b =>
    have hkey := hs.keyed k b hb
    obtain ⟨hmean, hcarried⟩ := (consistent_iff_of_none (hkey ▸ hp)).1 (hs.consistent k b hb)
    rw [hkey] at hcarried
    exact ⟨hmean, fun hpriced hlast => (hcarried hpriced).eq_none_iff.2 hlast⟩

/-- A touched bucket of the finest resolution is consistent. -/
theorem consistent_touched_of_none (hs : s.InOrder pool o.blockTime) {k : BucketKey}
    (hp : k.resolution.parent? = none) (hk : k = .containing pool k.resolution o.blockTime)
    {b : Bucket} (hb : (s.rollUp pool o).buckets[k]? = some b) :
    (s.rollUp pool o).Consistent b := by
  have hkey := hs.keyed.rollUp pool o k b hb
  -- earlier buckets are not touched, and so neither is the average that is carried on
  have hbefore : (s.rollUp pool o).bucketsWhere k.pool k.resolution (· < k.start) =
      s.bucketsWhere k.pool k.resolution (· < k.start) := by
    refine bucketsWhere_before_congr (hs.keyed.rollUp pool o) hs.keyed hp fun l hl => ?_
    obtain ⟨-, hr, hlt⟩ := (BucketKey.dependsOn_iff_of_none hp).1 hl
    apply hs.getElem?_rollUp_of_lt
    have hstart : k.start = k.resolution.start o.blockTime := congrArg BucketKey.start hk
    rwa [hr, ← hstart]
  obtain ⟨-, hb⟩ := (hs.stocked.touched_or_stored hb).resolve_right fun h => h.1 hk
  obtain ⟨holdKey, holdSound⟩ := hs.stocked.getD_empty k
  obtain ⟨hmean, hcarried⟩ := hs.getD_empty_of_none hp
  generalize s.buckets[k]?.getD (.empty k) = old at hb holdKey holdSound hmean hcarried
  have haverage : (s.rollUp pool o).average (old.merge o) =
      if 0 < (old.merge o).priceCount then (old.merge o).average
      else (lastAverage? (s.bucketsWhere k.pool k.resolution (· < k.start))).or
        (old.merge o).average := by
    unfold MemoryState.average
    rw [Bucket.key_merge, holdKey, hp, ← hbefore]
  rw [consistent_iff_of_none (hkey ▸ hp), hkey, hbefore]
  by_cases hcount : (old.merge o).priceCount = 0
  · -- no price was counted: the average is the latest one before
    rw [if_neg (by rw [hcount]; decide)] at haverage
    subst hb
    rw [Bucket.AveragesPrices, Bucket.priceCount_refresh, Bucket.hasPrice_refresh,
      Bucket.hasPrice_merge, Bool.or_eq_false_iff]
    refine ⟨fun h => absurd hcount h, fun ⟨hprice, hpriced⟩ => ?_⟩
    have hsame : (old.merge o).average = old.average :=
      (old.merge_of_price_eq_none (by simpa using hprice)).2.1
    have hlatest : (s.rollUp pool o).average (old.merge o) =
        lastAverage? (s.bucketsWhere k.pool k.resolution (· < k.start)) := by
      rw [haverage, hsame]
      cases hlast : lastAverage? (s.bucketsWhere k.pool k.resolution (· < k.start)) with
      | some average => rfl
      | none => rw [Option.none_or, hcarried hpriced hlast]
    rw [hlatest]
    exact Bucket.sameOption_average_refresh ..
  · -- the average is the mean that merging has taken
    rw [if_pos (UInt64.pos_iff_ne_zero.2 hcount)] at haverage
    rw [haverage, Bucket.refresh_average] at hb
    subst hb
    refine ⟨hmean.merge o, fun hpriced => ?_⟩
    rw [(holdSound.merge o).hasPrice_of_count hcount] at hpriced
    cases hpriced

/-- At a coarser resolution, a touched bucket without an average has no slot with a value. -/
theorem slotValues_ne_nil_of_touched (hs : s.InOrder pool o.blockTime) {k : BucketKey}
    {parent : Resolution} (hp : k.resolution.parent? = some parent)
    (hk : k = .containing pool k.resolution o.blockTime)
    (h : ((s.buckets[k]?.getD (.empty k)).merge o).average.isSome) :
    (s.rollUp pool o).slotValues k parent ≠ [] := by
  obtain rfl : pool = k.pool := (congrArg BucketKey.pool hk).symm
  have hkeyed := hs.keyed.rollUp k.pool o
  have hd : k.resolution.seconds ∣ k.start := by
    rw [hk]
    exact k.resolution.seconds_dvd_start o.blockTime
  have hstart : k.start = k.resolution.start o.blockTime := congrArg BucketKey.start hk
  rw [slotValues_ne_nil_iff hkeyed (hs.stocked.rollUp o).aligned hp hd]
  refine ⟨hs.stocked.children_ne_nil hp hk, ?_⟩
  cases hprice : o.price with
  | some price =>
    obtain ⟨child, hchild, hpriced⟩ := hs.stocked.exists_touched o parent
    have hlt := Resolution.start_lt_finish_of_parent parent k.resolution o.blockTime
    rw [← hstart] at hlt
    exact ⟨_, child, hchild, hlt, hpriced (Option.isSome_of_eq_some hprice)⟩
  | none =>
    -- the average is that of the old bucket, so an old parent bucket has one, and still does
    rw [(Bucket.merge_of_price_eq_none _ hprice).2.1] at h
    cases hb : s.buckets[k]? with
    | none =>
      rw [hb] at h
      cases h
    | some b =>
      rw [hb, Option.getD_some] at h
      have hkey := hs.keyed k b hb
      have hnone := ((consistent_iff_of_some (hkey ▸ hp)).1 (hs.consistent k b hb)).2
      rw [hkey] at hnone
      rw [Option.isSome_iff_ne_none, ne_eq, hnone] at h
      obtain ⟨-, start, c, hc, hlt, haverage⟩ :=
        (slotValues_ne_nil_iff hs.keyed hs.aligned hp hd).1 h
      obtain ⟨c', hc', haverage'⟩ := hs.stocked.exists_isSome_average_rollUp o hc haverage
      exact ⟨start, c', hc', hlt, haverage'⟩

/-- A touched bucket of a coarser resolution is consistent. -/
theorem consistent_touched_of_some (hs : s.InOrder pool o.blockTime) {k : BucketKey}
    {parent : Resolution} (hp : k.resolution.parent? = some parent)
    (hk : k = .containing pool k.resolution o.blockTime)
    {b : Bucket} (hb : (s.rollUp pool o).buckets[k]? = some b) :
    (s.rollUp pool o).Consistent b := by
  have hkeyed := hs.keyed.rollUp pool o
  have hkey := hkeyed k b hb
  have hd : k.resolution.seconds ∣ k.start := by
    rw [hk]
    exact k.resolution.seconds_dvd_start o.blockTime
  obtain ⟨-, hb⟩ := (hs.stocked.touched_or_stored hb).resolve_right fun h => h.1 hk
  -- merging keeps an old average, and this is right only if some slot has a value
  have hmergedKey := hs.stocked.key_merge_getD_empty k o
  have hvalues := hs.slotValues_ne_nil_of_touched hp hk
  generalize s.buckets[k]?.getD (.empty k) = old at hb hmergedKey hvalues
  have hexists := isSome_meanOf?_slotValues hkeyed (hs.stocked.rollUp o).aligned hp hd
  have haverage : (s.rollUp pool o).average (old.merge o) =
      meanOf? ((s.rollUp pool o).slotValues k parent) := by
    have hslots := carriedAverages_eq_slotValues hkeyed (hs.stocked.rollUp o).aligned
      (hmergedKey ▸ hp) (hmergedKey ▸ hd)
    unfold MemoryState.average
    rw [hmergedKey] at hslots ⊢
    rw [hp]
    simp only [hslots]
    by_cases hnil : (s.rollUp pool o).slotValues k parent = []
    · have hnone : (old.merge o).average = none := by
        by_contra hsome
        exact hvalues (Option.isSome_iff_ne_none.2 hsome) hnil
      rw [hnone, Option.or_none]
    · obtain ⟨mean, hmean⟩ := Option.isSome_iff_exists.1 (hexists.2 hnil)
      rw [hmean, Option.some_or]
  have hsame : SameOption b.average (meanOf? ((s.rollUp pool o).slotValues k parent)) := by
    rw [hb, haverage]
    exact Bucket.sameOption_average_refresh ..
  rw [consistent_iff_of_some (hkey ▸ hp), hkey]
  refine ⟨hsame, ?_⟩
  rw [hsame.eq_none_iff, ← Option.not_isSome_iff_eq_none, hexists, not_not]

/-- An observation that is no earlier than all before it keeps the buckets consistent. -/
theorem rollUp (hs : s.InOrder pool o.blockTime) : (s.rollUp pool o).InOrder pool o.blockTime where
  keyed := hs.keyed.rollUp pool o
  aligned := (hs.stocked.rollUp o).aligned
  past _ _ := hs.past_rollUp
  sound := (hs.stocked.rollUp o).sound
  consistent k b hb := by
    by_cases hk : k = .containing pool k.resolution o.blockTime
    · cases hp : k.resolution.parent? with
      | none => exact hs.consistent_touched_of_none hp hk hb
      | some parent => exact hs.consistent_touched_of_some hp hk hb
    · have hstored : s.buckets[k]? = some b := by
        obtain ⟨-, hstored⟩ := (hs.stocked.touched_or_stored hb).resolve_left fun h => hk h.1
        exact hstored
      have hkey := hs.keyed k b hstored
      refine (hs.consistent k b hstored).congr hs.keyed (hs.keyed.rollUp pool o) hs.aligned
        (hs.stocked.rollUp o).aligned (hkey.symm ▸ hs.aligned k b hstored) fun l hl => ?_
      exact (hs.getElem?_rollUp_of_dependsOn hstored hk (hkey ▸ hl)).symm

/-- Observations in the order of their block times keep the buckets consistent. -/
theorem foldl_rollUp {t : Int} (hs : s.InOrder pool t) {os : List Observation}
    (hfirst : ∀ o ∈ os, t ≤ o.blockTime)
    (horder : os.Pairwise fun o o' => o.blockTime ≤ o'.blockTime) :
    ∃ u, (os.foldl (MemoryState.rollUp pool) s).InOrder pool u := by
  induction os generalizing s t with
  | nil => exact ⟨t, hs⟩
  | cons o os ih =>
    obtain ⟨hlater, horder⟩ := List.pairwise_cons.1 horder
    exact ih (hs.mono (hfirst o List.mem_cons_self)).rollUp hlater horder

end InOrder

end MemoryState

namespace Bucket

/-! ### Counting prices -/

theorem hasPrice_foldl_merge (b : Bucket) (os : List Observation) :
    (os.foldl merge b).hasPrice = (b.hasPrice || os.any (·.price.isSome)) := by
  induction os generalizing b with
  | nil => rw [List.foldl_nil, List.any_nil, Bool.or_false]
  | cons o os ih =>
    rw [List.foldl_cons, ih, hasPrice_merge, List.any_cons, Bool.or_comm o.price.isSome,
      Bool.or_assoc]

theorem priceCount_foldl_merge (b : Bucket) (os : List Observation) :
    (os.foldl merge b).priceCount =
      b.priceCount + UInt64.ofNat (os.countP (·.price.isSome)) := by
  induction os generalizing b with
  | nil => exact (UInt64.add_zero _).symm
  | cons o os ih =>
    rw [List.foldl_cons, ih, List.countP_cons]
    cases hprice : o.price with
    | none =>
      rw [(b.merge_of_price_eq_none hprice).2.2.2]
      rfl
    | some price =>
      rw [(b.merge_of_price_eq_some hprice).2.2, Option.isSome_some, if_pos rfl,
        UInt64.ofNat_add, UInt64.add_assoc, UInt64.add_comm 1]
      rfl

/-- As long as the counter does not overflow, it tells whether there was a price. -/
theorem priceCount_ne_zero_iff {key : BucketKey} {os : List Observation}
    (hlength : os.length < UInt64.size) :
    (os.foldl merge (empty key)).priceCount ≠ 0 ↔ (os.foldl merge (empty key)).hasPrice := by
  have hcount : os.countP (·.price.isSome) < UInt64.size :=
    Nat.lt_of_le_of_lt List.countP_le_length hlength
  have hzero : (os.foldl merge (empty key)).priceCount = 0 ↔
      os.countP (·.price.isSome) = 0 := by
    rw [priceCount_foldl_merge, show (empty key).priceCount = 0 from rfl, UInt64.zero_add,
      ← UInt64.toNat_inj, UInt64.toNat_ofNat_of_lt' hcount]
    rfl
  rw [ne_eq, hzero, hasPrice_foldl_merge, show (empty key).hasPrice = false from rfl,
    Bool.false_or, List.countP_eq_zero, List.any_eq_true]
  push Not
  rfl

end Bucket

/-- A bucket has seen a price just if an observation in its span has one. -/
theorem MemoryState.hasPrice_iff_of_foldl_rollUp {pool : String} {os : List Observation}
    {k : BucketKey} {b : Bucket}
    (hb : (os.foldl (MemoryState.rollUp pool) .empty).buckets[k]? = some b) :
    b.hasPrice ↔ ∃ o ∈ os, k.resolution.start o.blockTime = k.start ∧ o.price.isSome := by
  obtain ⟨-, -, hfields⟩ := withoutAverage_of_foldl_rollUp hb
  have hpriced := congrArg Bucket.hasPrice hfields
  rw [show b.hasPrice = _ from hpriced]
  show (Bucket.hasPrice (List.foldl _ _ _) : Bool) = true ↔ _
  rw [Bucket.hasPrice_foldl_merge, show (Bucket.empty k).hasPrice = false from rfl,
    Bool.false_or, List.any_eq_true]
  simp only [List.mem_filter, decide_eq_true_eq, and_assoc]

/-- As long as no counter can overflow, it tells of each bucket whether there was a price. -/
theorem MemoryState.priceCount_ne_zero_iff_of_foldl_rollUp {pool : String} {os : List Observation}
    (hlength : os.length < UInt64.size) {k : BucketKey} {b : Bucket}
    (hb : (os.foldl (MemoryState.rollUp pool) .empty).buckets[k]? = some b) :
    b.priceCount ≠ 0 ↔ b.hasPrice := by
  -- apart from its average the bucket is the fold of the observations in its span
  obtain ⟨-, -, hfields⟩ := withoutAverage_of_foldl_rollUp hb
  have hcount := congrArg Bucket.priceCount hfields
  have hpriced := congrArg Bucket.hasPrice hfields
  rw [show b.priceCount = _ from hcount, show b.hasPrice = _ from hpriced]
  exact Bucket.priceCount_ne_zero_iff ((List.length_filter_le _ _).trans_lt hlength)

/-- **The resolutions stay consistent.** Rolling up records of a pool into an empty store in the
order of their block times succeeds, and after each of them every bucket is consistent with all
others, not only the touched ones. Whether a bucket has seen a price is told by its counter, unless
there are so many records that it may overflow. -/
theorem averages_consistent_in_order (prices : PriceSource) (pool : PoolConfig)
    (records : List Record) (refused : Bool)
    (h : ∀ record ∈ records, record.pool = pool.address)
    (horder : records.Pairwise fun r r' => r.header.tx.blockTime ≤ r'.header.tx.blockTime)
    (applied : Nat) :
    ∃ s : MemoryState,
      (records.take applied).forM (Rollup.apply prices pool) (⟨.empty, refused⟩ : MemoryBatch) =
        .ok () ⟨s, refused⟩ ∧
      ∀ (k : BucketKey) (b : Bucket), s.buckets[k]? = some b →
        s.Consistent b ∧
          (records.length < UInt64.size → (b.priceCount ≠ 0 ↔ b.hasPrice)) := by
  have hpool : ∀ record ∈ records.take applied, record.pool = pool.address := fun record hrecord =>
    h record (List.mem_of_mem_take hrecord)
  refine ⟨_, Rollup.forM_apply_memory .empty refused prices hpool, fun k b hb => ?_⟩
  have hsorted : ((records.take applied).map (Observation.ofRecord · pool prices)).Pairwise
      fun o o' => o.blockTime ≤ o'.blockTime := by
    rw [List.pairwise_map]
    exact (horder.sublist (List.take_sublist _ _)).imp Int64.le_iff_toInt_le.1
  constructor
  · have hfirst : ∀ o ∈ (records.take applied).map (Observation.ofRecord · pool prices),
        earliestTime ≤ o.blockTime := by
      intro o ho
      obtain ⟨record, -, rfl⟩ := List.mem_map.1 ho
      exact Int64.le_toInt _
    obtain ⟨t, hs⟩ :=
      (MemoryState.inOrder_empty pool.address earliestTime).foldl_rollUp hfirst hsorted
    exact hs.consistent k b hb
  · intro hlength
    refine MemoryState.priceCount_ne_zero_iff_of_foldl_rollUp ?_ hb
    rw [List.length_map, List.length_take]
    omega

/-- Three swaps in order, the second one without a price: its minute has the average of the minute
before it, which counts once more in the average of the five minutes. -/
theorem averages_consistent_three_swaps :
    let records := [plainSwap 1 5 (some (.ofCount 2)), plainSwap 2 65 none,
      plainSwap 3 130 (some (.ofCount 5))]
    (∀ record ∈ records, record.pool = plainPool.address) ∧
    records.Pairwise (fun r r' => r.header.tx.blockTime ≤ r'.header.tx.blockTime) ∧
    ∃ (s : MemoryState) (minute five : Bucket),
      records.forM (Rollup.apply (fun _ => none) plainPool) (⟨.empty, false⟩ : MemoryBatch) =
        .ok () ⟨s, false⟩ ∧
      s.buckets[BucketKey.mk "pool" .min1 60]? = some minute ∧
      minute.average = some (.ofCount 2) ∧
      s.buckets[BucketKey.mk "pool" .min5 0]? = some five ∧
      five.average = some (.ofCount 3) ∧
      ∀ (k : BucketKey) (b : Bucket), s.buckets[k]? = some b →
        s.Consistent b ∧ (b.priceCount ≠ 0 ↔ b.hasPrice) := by
  intro records
  have h : ∀ record ∈ records, record.pool = plainPool.address := by decide
  have horder : records.Pairwise fun r r' => r.header.tx.blockTime ≤ r'.header.tx.blockTime := by
    decide
  obtain ⟨t, ht, hbuckets⟩ :=
    averages_consistent_in_order (fun _ => none) plainPool records false h horder 3
  -- the state is the one that the records are folded into
  let s := (records.map (Observation.ofRecord · plainPool fun _ => none)).foldl
    (MemoryState.rollUp plainPool.address) .empty
  obtain rfl : t = s := Rollup.eq_of_forM_apply_memory .empty false h ht
  have hminute : (s.buckets[BucketKey.mk "pool" .min1 60]?).bind Bucket.average =
    some (.ofCount 2) := by decide +kernel
  have hfive : (s.buckets[BucketKey.mk "pool" .min5 0]?).bind Bucket.average =
    some (.ofCount 3) := by decide +kernel
  obtain ⟨minute, hminute, htwo⟩ := Option.bind_eq_some_iff.1 hminute
  obtain ⟨five, hfive, hthree⟩ := Option.bind_eq_some_iff.1 hfive
  refine ⟨h, horder, s, minute, five, ht, hminute, htwo, hfive, hthree, fun k b hb => ?_⟩
  obtain ⟨hconsistent, hcount⟩ := hbuckets k b hb
  exact ⟨hconsistent, hcount (by decide)⟩

end PoolKlines
