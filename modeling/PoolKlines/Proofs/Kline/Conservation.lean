import Mathlib.Algebra.BigOperators.Group.List.Basic
import PoolKlines.Proofs.Kline.Tally

/-!
# Conservation of volumes and counts

At each resolution a transaction falls into one bucket, with all its records. So the buckets of a
resolution share out the transactions, and what they count adds up to the totals of the pool, which
count all of them.

* `sum_parts`: an additive quantity is the sum over the parts into which a key divides a list;
* `Tally.agrees_run`: what is counted over a run;
* `exists_tally_bucket` and `start_mem_of_contribution`: each bucket counts the transactions in its
  span, and each transaction with a record has a bucket;
* `volumes_and_counts_conserved` is the statement about records.
-/

namespace PoolKlines

/-! ### Sums over parts -/

section Parts

variable {M α ι : Type} [AddCommMonoid M] [DecidableEq ι]

theorem sum_map_ite_of_nodup {parts : List ι} (h : parts.Nodup) (i : ι) (x : M) :
    (parts.map fun j => if i = j then x else 0).sum = if i ∈ parts then x else 0 := by
  induction parts with
  | nil => rfl
  | cons j parts ih =>
    obtain ⟨hj, hnodup⟩ := List.nodup_cons.1 h
    rw [List.map_cons, List.sum_cons, ih hnodup]
    by_cases hij : i = j
    · subst hij
      simp [hj]
    · simp [hij]

/-- An additive quantity is the sum over the parts into which a key divides a list, if these parts
hold all members that matter. -/
theorem sum_parts {W : List α → M} (hnil : W [] = 0)
    (hcons : ∀ a l, W (a :: l) = W [a] + W l) {parts : List ι} (hparts : parts.Nodup) (key : α → ι)
    {l : List α} (hl : ∀ a ∈ l, key a ∉ parts → W [a] = 0) :
    (parts.map fun i => W (l.filter fun a => key a = i)).sum = W l := by
  induction l with
  | nil => simp [hnil]
  | cons a l ih =>
    obtain ⟨ha, hl⟩ := List.forall_mem_cons.1 hl
    have hsplit : ∀ i, W ((a :: l).filter fun b => key b = i) =
        (if key a = i then W [a] else 0) + W (l.filter fun b => key b = i) := by
      intro i
      rw [List.filter_cons]
      by_cases hi : key a = i
      · rw [decide_eq_true hi, if_pos rfl, if_pos hi, hcons]
      · rw [decide_eq_false hi, if_neg Bool.false_ne_true, if_neg hi, zero_add]
    rw [List.map_congr_left fun i _ => hsplit i, List.sum_map_add, ih hl,
      sum_map_ite_of_nodup hparts, hcons a l]
    split
    · rfl
    · rename_i hout
      rw [ha hout]

end Parts

/-- A condition that is the same for all members of a part keeps or drops the part. -/
theorem filter_flatMap_of_part {α ι : Type} {l : List ι} {f : ι → List α} {p : α → Bool}
    {q : ι → Bool}
    (h : ∀ i ∈ l, ∀ a ∈ f i, p a = q i) : (l.flatMap f).filter p = (l.filter q).flatMap f := by
  induction l with
  | nil => rfl
  | cons i l ih =>
    obtain ⟨hi, hl⟩ := List.forall_mem_cons.1 h
    rw [List.flatMap_cons, List.filter_append, ih hl, List.filter_cons]
    split
    · rename_i hq
      rw [List.filter_eq_self.2 fun a ha => (hi a ha).trans hq, List.flatMap_cons]
    · rename_i hq
      rw [List.filter_eq_nil_iff.2 fun a ha => by rwa [hi a ha], List.nil_append]

/-! ### What is counted over a run -/

variable {pools : PoolSnapshot} {pool : PoolConfig} {run : List Contribution}

/-- A run of transactions of a pool: each source gives an address of the pool, ids increase from one
on, and there are fewer than `2 ^ 32` sources. -/
structure IsRun (pools : PoolSnapshot) (pool : PoolConfig) (run : List Contribution) : Prop where
  find?_eq : ∀ c ∈ run, ∀ x ∈ c.sources, pools.find? x.address = some pool
  one_le_id : ∀ c ∈ run, 1 ≤ c.tx.id
  id_lt_id : run.Pairwise fun c d => c.tx.id < d.tx.id
  sourceCount_lt : sourceCount run < 2 ^ 32

theorem IsRun.sublist {part : List Contribution} (h : IsRun pools pool run)
    (hpart : part.Sublist run) : IsRun pools pool part where
  find?_eq c hc := h.find?_eq c (hpart.subset hc)
  one_le_id c hc := h.one_le_id c (hpart.subset hc)
  id_lt_id := h.id_lt_id.sublist hpart
  sourceCount_lt := by
    refine Nat.lt_of_le_of_lt ?_ h.sourceCount_lt
    exact List.Sublist.sum_le_sum (hpart.map _) fun n _ => Nat.zero_le n

/-- The observations of the records of a run. -/
def observations (pools : PoolSnapshot) (pool : PoolConfig) (prices : PriceSource)
    (run : List Contribution) : List Observation :=
  run.flatMap fun c => (c.records pools).map (.ofRecord · pool prices)

theorem Tally.agrees_run (h : IsRun pools pool run) (prices : PriceSource) :
    ∃ last, ((observations pools pool prices run).foldl Tally.count .empty).Agrees pool.scales
      (run.flatMap Contribution.swaps) (run.countP (·.sources ≠ [])) last := by
  have hpos : ∀ c ∈ run, (0 : UInt64) < c.tx.id := fun c hc =>
    UInt64.lt_of_lt_of_le (by decide) (h.one_le_id c hc)
  have hcount := h.sourceCount_lt
  obtain ⟨last, hagrees⟩ := (Tally.agrees_empty pool.scales).foldl_run prices h.find?_eq hpos
    h.id_lt_id (by simpa using hcount) (by simpa using hcount)
  rw [List.nil_append, Nat.zero_add] at hagrees
  exact ⟨last, hagrees⟩

/-- An observation of a run belongs to the transaction of its record. -/
theorem blockTime_of_mem {c : Contribution}
    (hpool : ∀ x ∈ c.sources, pools.find? x.address = some pool) {prices : PriceSource}
    {o : Observation} (ho : o ∈ (c.records pools).map (.ofRecord · pool prices)) :
    o.blockTime = c.tx.blockTime.toInt := by
  obtain ⟨record, hrecord, rfl⟩ := List.mem_map.1 ho
  obtain ⟨x, hx, hbuilt⟩ := List.mem_filterMap.1 hrecord
  obtain ⟨record', hbuilt', -, hcounts⟩ := x.exists_record (hpool x hx) c.tx prices
  obtain rfl : record = record' := Option.some.inj (hbuilt.symm.trans hbuilt')
  exact hcounts.blockTime_eq

/-! ### What the buckets and the totals count -/

/-- What a run leaves. -/
def stateAfter (pools : PoolSnapshot) (pool : PoolConfig) (prices : PriceSource)
    (run : List Contribution) : MemoryState :=
  (observations pools pool prices run).foldl (MemoryState.rollUp pool.address) .empty

/-- The totals count all transactions. -/
theorem agrees_totals (h : IsRun pools pool run) (prices : PriceSource) :
    ∃ last, ((stateAfter pools pool prices run).totals[pool.address]?.getD
      (.empty pool.address)).tally.Agrees pool.scales (run.flatMap Contribution.swaps)
        (run.countP (·.sources ≠ [])) last := by
  obtain ⟨last, hagrees⟩ := Tally.agrees_run h prices
  refine ⟨last, ?_⟩
  have htotals : (stateAfter pools pool prices run).totals[pool.address]?.getD
      (.empty pool.address) =
        (observations pools pool prices run).foldl PoolTotals.merge (.empty pool.address) := by
    rw [stateAfter, MemoryState.getElem?_totals_foldl_rollUp_empty]
    split
    · rename_i hnil
      rw [hnil]
      rfl
    · rfl
  rw [htotals, PoolTotals.tally_foldl_merge]
  exact hagrees

/-- A bucket counts the transactions in its span. -/
theorem agrees_bucket (h : IsRun pools pool run) (prices : PriceSource) {k : BucketKey} {b : Bucket}
    (hb : (stateAfter pools pool prices run).buckets[k]? = some b) :
    let part := run.filter fun c => k.resolution.start c.tx.blockTime.toInt = k.start
    ∃ last, b.tally.Agrees pool.scales (part.flatMap Contribution.swaps)
      (part.countP (·.sources ≠ [])) last := by
  intro part
  obtain ⟨-, -, hfields⟩ := MemoryState.withoutAverage_of_foldl_rollUp hb
  have hpart : (observations pools pool prices run).filter
      (fun o => k.resolution.start o.blockTime = k.start) =
        observations pools pool prices part := by
    refine filter_flatMap_of_part fun c hc o ho => ?_
    rw [blockTime_of_mem (h.find?_eq c hc) ho]
  have htally : b.tally = (observations pools pool prices part).foldl Tally.count .empty := by
    have hview := congrArg Bucket.tally hfields
    rw [show b.tally = _ from hview, hpart]
    exact Bucket.tally_foldl_merge (.empty k) _
  rw [htally]
  exact Tally.agrees_run (h.sublist List.filter_sublist) prices

/-- A transaction with a record has a bucket at each resolution. -/
theorem exists_bucket_of_sources (h : IsRun pools pool run) (prices : PriceSource)
    (r : Resolution) {c : Contribution} (hc : c ∈ run) (hne : c.sources ≠ []) :
    ∃ b, (stateAfter pools pool prices run).buckets[
      BucketKey.containing pool.address r c.tx.blockTime.toInt]? = some b := by
  obtain ⟨x, hx⟩ := List.exists_mem_of_ne_nil _ hne
  obtain ⟨record, hrecord, -, hcounts⟩ := x.exists_record (h.find?_eq c hc x hx) c.tx prices
  rw [← hcounts.blockTime_eq]
  refine MemoryState.exists_bucket_of_mem pool.address r (List.mem_flatMap.2 ⟨c, hc, ?_⟩)
  exact List.mem_map_of_mem (List.mem_filterMap.2 ⟨x, hx, hrecord⟩)

/-- A quantity that adds up over transactions and that a tally tells. -/
structure Measures {M : Type} [AddCommMonoid M] (pool : PoolConfig) (view : Tally → M)
    (W : List Contribution → M) : Prop where
  nil : W [] = 0
  cons : ∀ c l, W (c :: l) = W [c] + W l
  silent : ∀ c : Contribution, c.sources = [] → W [c] = 0
  view_eq : ∀ {l : List Contribution} {t : Tally} {last : UInt64},
    t.Agrees pool.scales (l.flatMap Contribution.swaps) (l.countP (·.sources ≠ [])) last →
      view t = W l

/-- The volume on one side is a sum of raw amounts. -/
theorem measures_volume {side : Sides UInt64 → UInt64} {volume : Tally → Decimal} {scale : Nat}
    (h : ∀ {t : Tally} {swaps : List (Sides UInt64)} {txs : Nat} {last : UInt64},
      t.Agrees pool.scales swaps txs last →
        (volume t).Units (swaps.map fun raw => (side raw).toNat).sum scale) :
    Measures pool (fun t => (volume t).value) fun run =>
      (((run.flatMap Contribution.swaps).map fun raw => (side raw).toNat).sum : ℕ) /
        (tenPow scale : ℚ) where
  nil := by simp
  cons c l := by
    rw [List.flatMap_cons, List.map_append, List.sum_append, Nat.cast_add, add_div,
      List.flatMap_singleton]
  silent c hc := by simp [Contribution.swaps, hc]
  view_eq hagrees := (h hagrees).value_eq

theorem measures_trades : Measures pool (fun t => t.tradeCount.toNat) fun run =>
    (run.flatMap Contribution.swaps).length where
  nil := rfl
  cons c l := by rw [List.flatMap_cons, List.length_append, List.flatMap_singleton]
  silent c hc := by simp [Contribution.swaps, hc]
  view_eq hagrees := hagrees.tradeCount_eq

theorem measures_transactions : Measures pool (fun t => t.txCount.toNat) fun run =>
    run.countP (·.sources ≠ []) where
  nil := rfl
  cons c l := by rw [← List.singleton_append, List.countP_append]
  silent c hc := by simp [hc]
  view_eq hagrees := hagrees.txCount_eq

/-- What the buckets of a resolution count adds up to what is counted over the run. -/
theorem Measures.sum_buckets {M : Type} [AddCommMonoid M] {view : Tally → M}
    {W : List Contribution → M} (hW : Measures pool view W) (h : IsRun pools pool run)
    (prices : PriceSource) (r : Resolution) :
    (((stateAfter pools pool prices run).bucketsWhere pool.address r fun _ => true).map
      fun b => view b.tally).sum = W run := by
  have hkeyed : (stateAfter pools pool prices run).Keyed :=
    MemoryState.keyed_empty.foldl_rollUp _ _
  generalize hbuckets : (stateAfter pools pool prices run).bucketsWhere pool.address r
    (fun _ => true) = buckets
  have hparts : (buckets.map fun b => b.key.start).Nodup := by
    rw [← hbuckets, List.Nodup, List.pairwise_map]
    exact (MemoryState.sorted_bucketsWhere hkeyed ..).imp fun hlt => ne_of_lt hlt
  have hmem : ∀ b ∈ buckets, view b.tally =
      W (run.filter fun c => r.start c.tx.blockTime.toInt = b.key.start) := by
    intro b hb
    rw [← hbuckets] at hb
    obtain ⟨last, hagrees⟩ := agrees_bucket h prices (hkeyed.start_of_mem hb).1
    exact hW.view_eq hagrees
  have hcovers : ∀ c ∈ run, r.start c.tx.blockTime.toInt ∉ buckets.map (fun b => b.key.start) →
      W [c] = 0 := by
    intro c hc hout
    refine hW.silent c (by_contra fun hne => hout ?_)
    obtain ⟨b, hb⟩ := exists_bucket_of_sources h prices r hc hne
    refine List.mem_map.2 ⟨b, ?_, congrArg BucketKey.start (hkeyed _ b hb)⟩
    rw [← hbuckets]
    exact MemoryState.mem_bucketsWhere.2 ⟨_, hb, rfl⟩
  have hsum := sum_parts hW.nil hW.cons hparts (fun c => r.start c.tx.blockTime.toInt) hcovers
  rw [List.map_map] at hsum
  rw [List.map_congr_left hmem, ← hsum]
  rfl

/-- **Volumes and counts are conserved.** Take transactions with increasing ids, each with any
number of operations and events of a pool, fewer than `2 ^ 32` altogether, at any block times. A
record is built of each, and rolling them up succeeds. The totals are then the raw amounts of the
swaps, scaled to the tokens' decimals without rounding, the number of swaps, and the number of
transactions with a record. The buckets of each resolution add up to the totals. -/
theorem volumes_and_counts_conserved (prices : PriceSource) (h : IsRun pools pool run)
    (refused : Bool) :
    (∀ c ∈ run, (c.records pools).length = c.sources.length) ∧
    ∃ s : MemoryState,
      (run.flatMap (·.records pools)).forM (Rollup.apply prices pool)
        (⟨.empty, refused⟩ : MemoryBatch) = .ok () ⟨s, refused⟩ ∧
      let totals := s.totals[pool.address]?.getD (.empty pool.address)
      let swaps := run.flatMap Contribution.swaps
      (totals.volumes.a.value = ((swaps.map (·.a.toNat)).sum : ℕ) /
          tenPow (min pool.tokens.a.decimals.toNat 28) ∧
        totals.volumes.b.value = ((swaps.map (·.b.toNat)).sum : ℕ) /
          tenPow (min pool.tokens.b.decimals.toNat 28) ∧
        totals.tradeCount.toNat = swaps.length ∧
        totals.txCount.toNat = run.countP (·.sources ≠ [])) ∧
      ∀ r : Resolution,
        let buckets := s.bucketsWhere pool.address r fun _ => true
        (buckets.map (·.volumes.a.value)).sum = totals.volumes.a.value ∧
        (buckets.map (·.volumes.b.value)).sum = totals.volumes.b.value ∧
        (buckets.map (·.tradeCount.toNat)).sum = totals.tradeCount.toNat ∧
        (buckets.map (·.txCount.toNat)).sum = totals.txCount.toNat := by
  have hpool : ∀ record ∈ run.flatMap (·.records pools), record.pool = pool.address := by
    intro record hrecord
    obtain ⟨c, hc, hrecord⟩ := List.mem_flatMap.1 hrecord
    obtain ⟨x, hx, hbuilt⟩ := List.mem_filterMap.1 hrecord
    obtain ⟨record', hbuilt', haddress, -⟩ :=
      x.exists_record (h.find?_eq c hc x hx) c.tx prices
    rwa [Option.some.inj (hbuilt.symm.trans hbuilt')]
  have hrun := Rollup.forM_apply_memory .empty refused prices hpool
  rw [List.map_flatMap] at hrun
  refine ⟨fun c hc => Contribution.length_records (h.find?_eq c hc),
    stateAfter pools pool prices run, hrun, ?_⟩
  intro totals swaps
  obtain ⟨last, htotals⟩ := agrees_totals h prices
  have hvolumeA := htotals.volume_a.value_eq
  have hvolumeB := htotals.volume_b.value_eq
  refine ⟨⟨hvolumeA, hvolumeB, htotals.tradeCount_eq, htotals.txCount_eq⟩, fun r =>
    ⟨?_, ?_, ?_, ?_⟩⟩
  · exact ((measures_volume Tally.Agrees.volume_a).sum_buckets h prices r).trans hvolumeA.symm
  · exact ((measures_volume Tally.Agrees.volume_b).sum_buckets h prices r).trans hvolumeB.symm
  · exact (measures_trades.sum_buckets h prices r).trans htotals.tradeCount_eq.symm
  · exact (measures_transactions.sum_buckets h prices r).trans htotals.txCount_eq.symm

/-- A swap of a V2 pool and one of a V1 pool, with a change of liquidity between them. -/
theorem volumes_and_counts_conserved_two_swaps :
    let pools := PoolSnapshot.ofPools [plainPool]
    let run : List Contribution := [
      ⟨⟨1, "first", 1, 1000⟩, [
        .event ⟨"SwapEvent", 0, .swap {
          pool := "pool", user := "user", direction := 0, amountIn := 5, amountOut := 7,
          feeAmount := 0, protocolFee := 0, referralFee := 0, sqrtPrice := 0, liquidity := 0,
          vaultBalances := ⟨0, 0⟩, tick := 0 }⟩,
        .event ⟨"IncreaseLiquidityEvent", 1, .increase {
          pool := "vault-a", owner := "owner", position := "position", liquidity := 3,
          amounts := ⟨2, 2⟩, vaultBalances := ⟨0, 0⟩ }⟩]⟩,
      ⟨⟨2, "second", 2, 5⟩, [
        .operation {
          kind := .swap, location := ⟨0, none⟩, pool := "pool", user := "user", position := none,
          vaults := ⟨"", ""⟩, userTokens := ⟨"", ""⟩, rawDirection := 1, amountSpecified := 0,
          liquidity := 0, amounts := ⟨10, 20⟩, balances := .both none }]⟩]
    IsRun pools plainPool run ∧
    ∃ s : MemoryState,
      (run.flatMap (·.records pools)).forM (Rollup.apply (fun _ => none) plainPool)
        (⟨.empty, false⟩ : MemoryBatch) = .ok () ⟨s, false⟩ ∧
      ∀ r : Resolution,
        let buckets := s.bucketsWhere "pool" r fun _ => true
        (buckets.map (·.volumes.a.value)).sum = 15 / 1000000 ∧
        (buckets.map (·.tradeCount.toNat)).sum = 2 ∧ (buckets.map (·.txCount.toNat)).sum = 2 := by
  intro pools run
  have h : IsRun pools plainPool run :=
    ⟨by decide +kernel, by decide, by decide, by decide⟩
  refine ⟨h, ?_⟩
  obtain ⟨-, s, hs, ⟨hvolume, -, htrades, htxs⟩, hbuckets⟩ :=
    volumes_and_counts_conserved (fun _ => none) h false
  refine ⟨s, hs, fun r => ?_⟩
  obtain ⟨hsumVolume, -, hsumTrades, hsumTxs⟩ := hbuckets r
  refine ⟨hsumVolume.trans (hvolume.trans ?_), hsumTrades.trans htrades, hsumTxs.trans htxs⟩
  have hscale : tenPow (min plainPool.tokens.a.decimals.toNat 28) = 1000000 := by decide
  have hraw : ((run.flatMap Contribution.swaps).map (·.a.toNat)).sum = 15 := by decide
  rw [hscale, hraw]
  norm_num

end PoolKlines
