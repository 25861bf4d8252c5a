import PoolKlines.Proofs.Kline.Rounds

/-!
# Buckets as projections of the history

Whatever the order of block times, a bucket says what the records within its span say, folded in
the order in which they were applied, and the totals say what all records say. Only the average
depends on other buckets, and it is left out here.

* `Bucket.foldHistory` folds a history into a bucket that may not exist yet;
* `MemoryState.map_withoutAverage_rollUp` is what one observation does to each bucket, and
  `MemoryState.map_withoutAverage_foldl_rollUp` what a history does;
* `rollup_projects_history` is the statement about records.
-/

namespace PoolKlines

namespace Bucket

@[simp] theorem withoutAverage_withoutAverage (b : Bucket) :
    b.withoutAverage.withoutAverage = b.withoutAverage := rfl

theorem withoutAverage_mergePrice (b : Bucket) (price : Decimal) :
    (b.mergePrice price).withoutAverage =
      (b.withoutAverage.mergePrice price).withoutAverage := rfl

theorem withoutAverage_mergeVolumes (b : Bucket) (o : Observation) :
    (b.mergeVolumes o).withoutAverage = b.withoutAverage.mergeVolumes o := rfl

theorem withoutAverage_mergeLatest (b : Bucket) (o : Observation) :
    (b.mergeLatest o).withoutAverage = b.withoutAverage.mergeLatest o := by
  by_cases h : b.maxBlockTime ≤ o.blockTime
  · rw [mergeLatest, mergeLatest, if_pos h, if_pos (show b.withoutAverage.maxBlockTime ≤ _ from h)]
    rfl
  · rw [mergeLatest, mergeLatest, if_neg h,
      if_neg (show ¬ b.withoutAverage.maxBlockTime ≤ _ from h)]

/-- What merging leaves, apart from the average, does not depend on the average. -/
theorem withoutAverage_merge (b : Bucket) (o : Observation) :
    (b.merge o).withoutAverage = (b.withoutAverage.merge o).withoutAverage := by
  unfold merge
  cases o.price with
  | none =>
    simp only [withoutAverage_mergeLatest, withoutAverage_mergeVolumes,
      withoutAverage_withoutAverage]
  | some price =>
    simp only [withoutAverage_mergeLatest, withoutAverage_mergeVolumes,
      withoutAverage_mergePrice b price]

theorem withoutAverage_merge_congr {b c : Bucket} (h : b.withoutAverage = c.withoutAverage)
    (o : Observation) : (b.merge o).withoutAverage = (c.merge o).withoutAverage := by
  rw [withoutAverage_merge b, withoutAverage_merge c, h]

/-- Fold a history into the bucket with a key, which may not exist yet. -/
def foldHistory (key : BucketKey) (found : Option Bucket) (os : List Observation) :
    Option Bucket :=
  os.foldl (fun found o => some ((found.getD (.empty key)).merge o)) found

@[simp] theorem foldHistory_nil (key : BucketKey) (found : Option Bucket) :
    foldHistory key found [] = found := rfl

@[simp] theorem foldHistory_cons (key : BucketKey) (found : Option Bucket) (o : Observation)
    (os : List Observation) :
    foldHistory key found (o :: os) =
      foldHistory key (some ((found.getD (.empty key)).merge o)) os := rfl

theorem foldHistory_some (key : BucketKey) (b : Bucket) (os : List Observation) :
    foldHistory key (some b) os = some (os.foldl merge b) := by
  induction os generalizing b with
  | nil => rfl
  | cons o os ih => exact ih (b.merge o)

theorem foldHistory_none (key : BucketKey) {os : List Observation} (h : os ≠ []) :
    foldHistory key none os = some (os.foldl merge (.empty key)) := by
  cases os with
  | nil => exact absurd rfl h
  | cons o os => exact foldHistory_some key _ os

theorem map_withoutAverage_foldHistory_congr (key : BucketKey) {f g : Option Bucket}
    (h : f.map withoutAverage = g.map withoutAverage) (os : List Observation) :
    (foldHistory key f os).map withoutAverage = (foldHistory key g os).map withoutAverage := by
  induction os generalizing f g with
  | nil => exact h
  | cons o os ih =>
    apply ih
    have hget : (f.getD (.empty key)).withoutAverage = (g.getD (.empty key)).withoutAverage := by
      cases f <;> cases g <;> simp_all
    exact congrArg some (withoutAverage_merge_congr hget o)

end Bucket

theorem BucketKey.eq_containing_iff {k : BucketKey} {pool : String} {r : Resolution} {t : Int} :
    k = .containing pool r t ↔ k.pool = pool ∧ k.resolution = r ∧ r.start t = k.start := by
  obtain ⟨pool', r', start⟩ := k
  simp only [containing, BucketKey.mk.injEq]
  tauto

namespace MemoryState

open Bucket

/-- What one observation of a pool does to each bucket. -/
theorem map_withoutAverage_rollUp {s : MemoryState} (hs : s.Keyed) (pool : String)
    (o : Observation) (k : BucketKey) :
    ((s.rollUp pool o).buckets[k]?).map withoutAverage =
      if k.pool = pool ∧ k.resolution.start o.blockTime = k.start then
        some (((s.buckets[k]?.getD (.empty k)).merge o).withoutAverage)
      else (s.buckets[k]?).map withoutAverage := by
  rw [hs.getElem?_rollUp]
  by_cases h : k.pool = pool ∧ k.resolution.start o.blockTime = k.start
  · rw [if_pos h, if_pos (BucketKey.eq_containing_iff.2 ⟨h.1, rfl, h.2⟩), Option.map_some,
      withoutAverage_refresh]
  · rw [if_neg h, if_neg fun heq => h (by
      obtain ⟨hpool, -, hstart⟩ := BucketKey.eq_containing_iff.1 heq
      exact ⟨hpool, hstart⟩)]

/-- What a history of observations of a pool does to each bucket. -/
theorem map_withoutAverage_foldl_rollUp {s : MemoryState} (hs : s.Keyed) (pool : String)
    (k : BucketKey) (os : List Observation) :
    ((os.foldl (rollUp pool) s).buckets[k]?).map withoutAverage =
      (foldHistory k s.buckets[k]? (os.filter fun o =>
        k.pool = pool ∧ k.resolution.start o.blockTime = k.start)).map withoutAverage := by
  induction os generalizing s with
  | nil => rfl
  | cons o os ih =>
    rw [List.foldl_cons, ih (hs.rollUp pool o)]
    have hstep := map_withoutAverage_rollUp hs pool o k
    by_cases h : k.pool = pool ∧ k.resolution.start o.blockTime = k.start
    · rw [List.filter_cons_of_pos (by simpa using h), foldHistory_cons]
      rw [if_pos h] at hstep
      exact map_withoutAverage_foldHistory_congr k hstep _
    · rw [List.filter_cons_of_neg (by simpa using h)]
      rw [if_neg h] at hstep
      exact map_withoutAverage_foldHistory_congr k hstep _

/-- A history of a pool leaves no bucket of another one. -/
theorem getElem?_foldl_rollUp_of_ne {pool : String} {k : BucketKey} (h : k.pool ≠ pool)
    (os : List Observation) : (os.foldl (rollUp pool) empty).buckets[k]? = none := by
  have hk := map_withoutAverage_foldl_rollUp keyed_empty pool k os
  simp only [h, false_and, decide_false, List.filter_false, foldHistory_nil] at hk
  simpa [empty] using hk

/-- What a history of a pool leaves of one of its buckets. -/
theorem map_withoutAverage_getElem?_foldl_rollUp (pool : String) (r : Resolution) (start : Int)
    (os : List Observation) :
    ((os.foldl (rollUp pool) empty).buckets[BucketKey.mk pool r start]?).map withoutAverage =
      (foldHistory ⟨pool, r, start⟩ none
        (os.filter fun o => r.start o.blockTime = start)).map withoutAverage := by
  have hk := map_withoutAverage_foldl_rollUp keyed_empty pool ⟨pool, r, start⟩ os
  simpa [empty] using hk

/-- A bucket that a history of a pool leaves is the fold of the observations in its span, of which
there are some. -/
theorem withoutAverage_of_foldl_rollUp {pool : String} {os : List Observation} {k : BucketKey}
    {b : Bucket} (hb : (os.foldl (rollUp pool) empty).buckets[k]? = some b) :
    k.pool = pool ∧ os.filter (fun o => k.resolution.start o.blockTime = k.start) ≠ [] ∧
      b.withoutAverage = ((os.filter fun o => k.resolution.start o.blockTime = k.start).foldl
        merge (.empty k)).withoutAverage := by
  have hpool : k.pool = pool := by
    by_contra h
    rw [getElem?_foldl_rollUp_of_ne h] at hb
    cases hb
  obtain ⟨pool', r, start⟩ := k
  subst hpool
  have hfold := map_withoutAverage_getElem?_foldl_rollUp pool' r start os
  rw [hb] at hfold
  have hne : os.filter (fun o => r.start o.blockTime = start) ≠ [] := by
    intro h
    rw [h] at hfold
    cases hfold
  rw [foldHistory_none _ hne] at hfold
  exact ⟨rfl, hne, Option.some.inj hfold⟩

/-- Every observation leaves a bucket at each resolution. -/
theorem exists_bucket_of_mem (pool : String) (r : Resolution) {os : List Observation}
    {o : Observation} (ho : o ∈ os) :
    ∃ b, (os.foldl (rollUp pool) empty).buckets[BucketKey.containing pool r o.blockTime]? =
      some b := by
  have hfold := map_withoutAverage_getElem?_foldl_rollUp pool r (r.start o.blockTime) os
  have hmem : o ∈ os.filter fun o' => r.start o'.blockTime = r.start o.blockTime :=
    List.mem_filter.2 ⟨ho, decide_eq_true rfl⟩
  rw [foldHistory_none _ (List.ne_nil_of_mem hmem)] at hfold
  obtain ⟨b, hb, -⟩ := Option.map_eq_some_iff.1 hfold
  exact ⟨b, hb⟩

/-- What one observation does to the totals of its pool. -/
theorem getElem?_totals_rollUp {s : MemoryState} {pool : String}
    (h : (s.totals[pool]?.getD (.empty pool)).pool = pool) (o : Observation) :
    (s.rollUp pool o).totals[pool]? = some ((s.totals[pool]?.getD (.empty pool)).merge o) := by
  rw [rollUp, rollTotals, totals_foldl_rollAt, PoolTotals.pool_merge, h]
  exact Std.ExtTreeMap.getElem?_insert_self

theorem getElem?_totals_foldl_rollUp {s : MemoryState} {pool : String} {t : PoolTotals}
    (ht : s.totals[pool]? = some t) (hpool : t.pool = pool) (os : List Observation) :
    (os.foldl (rollUp pool) s).totals[pool]? = some (os.foldl PoolTotals.merge t) := by
  induction os generalizing s t with
  | nil => exact ht
  | cons o os ih =>
    have hstep := getElem?_totals_rollUp (s := s) (by rw [ht]; exact hpool) o
    rw [ht] at hstep
    exact ih hstep ((t.pool_merge o).trans hpool)

/-- What a history of a pool leaves in its totals. -/
theorem getElem?_totals_foldl_rollUp_empty (pool : String) (os : List Observation) :
    (os.foldl (rollUp pool) empty).totals[pool]? =
      if os = [] then none else some (os.foldl PoolTotals.merge (.empty pool)) := by
  cases os with
  | nil => simp [empty]
  | cons o os =>
    have hnone : empty.totals[pool]? = none := by simp [empty]
    have hfirst : (empty.rollUp pool o).totals[pool]? = some ((PoolTotals.empty pool).merge o) := by
      rw [getElem?_totals_rollUp (by rw [hnone]; rfl), hnone, Option.getD_none]
    rw [if_neg (List.cons_ne_nil o os), List.foldl_cons, List.foldl_cons]
    exact getElem?_totals_foldl_rollUp hfirst (PoolTotals.pool_merge ..) os

end MemoryState

/-- **Every bucket is a projection of the history.** Rolling up records of a pool into an empty
store succeeds, in any order of their block times. A bucket exists just if a record lies within its
span, and apart from its average it is the fold of those records in the order in which they were
applied; the totals are the fold of all records. -/
theorem rollup_projects_history (prices : PriceSource) (pool : PoolConfig) (records : List Record)
    (refused : Bool) (h : ∀ record ∈ records, record.pool = pool.address) :
    let history := records.map (Observation.ofRecord · pool prices)
    ∃ s : MemoryState,
      records.forM (Rollup.apply prices pool) (⟨.empty, refused⟩ : MemoryBatch) =
        .ok () ⟨s, refused⟩ ∧
      (∀ (r : Resolution) (start : Int),
        ((s.buckets[BucketKey.mk pool.address r start]?).isSome ↔
          ∃ record ∈ records, r.start record.header.tx.blockTime.toInt = start) ∧
        ∀ b, s.buckets[BucketKey.mk pool.address r start]? = some b →
          b.withoutAverage =
            ((history.filter fun o => r.start o.blockTime = start).foldl Bucket.merge
              (.empty ⟨pool.address, r, start⟩)).withoutAverage) ∧
      (∀ k : BucketKey, k.pool ≠ pool.address → s.buckets[k]? = none) ∧
      s.totals[pool.address]? =
        if records = [] then none
        else some (history.foldl PoolTotals.merge (.empty pool.address)) := by
  intro history
  refine ⟨_, Rollup.forM_apply_memory .empty refused prices h, ?_, ?_, ?_⟩
  · intro r start
    have hbucket :=
      MemoryState.map_withoutAverage_getElem?_foldl_rollUp pool.address r start history
    by_cases hnone : (history.filter fun o => r.start o.blockTime = start) = []
    · -- no record lies within the span
      rw [hnone, Bucket.foldHistory_nil, Option.map_none, Option.map_eq_none_iff] at hbucket
      have habsent : ¬ ∃ record ∈ records, r.start record.header.tx.blockTime.toInt = start := by
        rintro ⟨record, hrecord, hstart⟩
        have hmem : Observation.ofRecord record pool prices ∈
            history.filter fun o => r.start o.blockTime = start :=
          List.mem_filter.2 ⟨List.mem_map_of_mem hrecord, decide_eq_true hstart⟩
        rw [hnone] at hmem
        exact List.not_mem_nil hmem
      rw [hbucket]
      exact ⟨iff_of_false Bool.false_ne_true habsent, fun b hb => nomatch hb⟩
    · rw [Bucket.foldHistory_none _ hnone, Option.map_some] at hbucket
      obtain ⟨b, hb, hfold⟩ := Option.map_eq_some_iff.1 hbucket
      obtain ⟨o, ho⟩ := List.exists_mem_of_ne_nil _ hnone
      obtain ⟨ho, hstart⟩ := List.mem_filter.1 ho
      obtain ⟨record, hrecord, rfl⟩ := List.mem_map.1 ho
      rw [hb]
      refine ⟨iff_of_true rfl ⟨record, hrecord, of_decide_eq_true hstart⟩, ?_⟩
      rintro c ⟨⟩
      exact hfold
  · intro k hk
    exact MemoryState.getElem?_foldl_rollUp_of_ne hk history
  · rw [MemoryState.getElem?_totals_foldl_rollUp_empty]
    simp only [history, List.map_eq_nil_iff]

/-! ### An instance -/

/-- A pool whose two tokens have the same decimals. -/
def plainPool : PoolConfig where
  address := "pool"
  version := .v2
  tokens := ⟨⟨"mint-a", "vault-a", 6⟩, ⟨"mint-b", "vault-b", 6⟩⟩
  feeRate := 0

/-- A swap of one token A in `plainPool`, with a price or without one. -/
def plainSwap (txId : UInt64) (blockTime : Int64) (price : Option Decimal) : Record :=
  .swap {
    header := ⟨.v2, "pool", "user", ⟨txId, "signature", txId, blockTime⟩, 0⟩
    direction := .aToB
    rawDirection := 0
    volumes := ⟨.ofCount 1, price.getD .zero⟩
    balances := .both none
    fee := .zero
    protocolFee := .zero
    referralFee := .zero
    price }

/-- Two swaps, the later one first: both lie within one bucket of five minutes. -/
theorem rollup_projects_two_swaps :
    let records := [plainSwap 2 65 (some (.ofCount 3)), plainSwap 1 5 (some (.ofCount 2))]
    (∀ record ∈ records, record.pool = plainPool.address) ∧
    ∃ (s : MemoryState) (b : Bucket),
      records.forM (Rollup.apply (fun _ => none) plainPool) (⟨.empty, false⟩ : MemoryBatch) =
        .ok () ⟨s, false⟩ ∧
      (s.buckets[BucketKey.mk "pool" .min1 60]?).isSome = true ∧
      (s.buckets[BucketKey.mk "pool" .min1 120]?).isSome = false ∧
      s.buckets[BucketKey.mk "pool" .min5 0]? = some b ∧
      b.opening = some (.ofCount 3) ∧ b.closing = some (.ofCount 2) ∧ b.txCount = 2 := by
  intro records
  have h : ∀ record ∈ records, record.pool = plainPool.address := by decide
  obtain ⟨s, hs, hbuckets, -, -⟩ :=
    rollup_projects_history (fun _ => none) plainPool records false h
  have hfive := (hbuckets .min5 0).1.2 ⟨_, List.mem_cons_self, by decide⟩
  obtain ⟨b, hb⟩ := Option.isSome_iff_exists.1 hfive
  have hfold := (hbuckets .min5 0).2 b hb
  refine ⟨h, s, b, hs, (hbuckets .min1 60).1.2 ⟨_, List.mem_cons_self, by decide⟩, ?_, hb,
    congrArg Bucket.opening hfold, congrArg Bucket.closing hfold, congrArg Bucket.txCount hfold⟩
  refine Bool.eq_false_iff.2 fun hsome => ?_
  exact absurd ((hbuckets .min1 120).1.1 hsome) (by decide)

end PoolKlines
