import PoolKlines.Proofs.Decimal.Mean
import PoolKlines.Proofs.Kline.Consistency

/-!
# Averages carried forward

What the average of a coarser bucket is when no record in its span has a price. The slots before its
first parent bucket have the latest average before the span. A later slot has the average of a
parent bucket in the span, which was carried forward from finer resolutions in turn, and where these
had other averages before the span, so has the bucket.

* `MemoryState.averageBefore?` is the latest average before a time, and
  `MemoryState.averageWithin?` the latest one of those that start from a time on;
* `slotValues_eq_map`: the values of the slots when there is an average before the span;
* `MemoryState.Unpriced` says that no bucket of the finest resolution in a span has a price, and
  `Unpriced.sameOption_average` that one average before it carries through all resolutions;
* `unpriced_average_carried` is the statement about records.
-/

namespace PoolKlines

open Decimal (SameOption)

theorem lastAverage?_append (before after : List Bucket) :
    lastAverage? (before ++ after) = (lastAverage? after).or (lastAverage? before) := by
  rw [lastAverage?, List.filterMap_append, List.getLast?_append]
  rfl

theorem exists_of_lastAverage? {buckets : List Bucket} {average : Decimal}
    (h : lastAverage? buckets = some average) : ∃ b ∈ buckets, b.average = some average :=
  List.mem_filterMap.1 (List.mem_of_getLast? h)

namespace MemoryState

/-- The latest average among the buckets of a pool at a resolution that start before a time. -/
def averageBefore? (s : MemoryState) (pool : String) (r : Resolution) (time : Int) :
    Option Decimal :=
  lastAverage? (s.bucketsWhere pool r (· < time))

/-- The latest average among the buckets of a pool at a resolution that start from one time on up to
another. -/
def averageWithin? (s : MemoryState) (pool : String) (r : Resolution) (first time : Int) :
    Option Decimal :=
  lastAverage? (s.bucketsWhere pool r fun start => first ≤ start && start ≤ time)

variable {s : MemoryState} {pool : String} {r parent : Resolution} {first last time : Int}

/-- The buckets up to a time are those before an earlier time and those from it on. -/
theorem bucketsWhere_eq_append (hs : s.Keyed) (hle : first ≤ time) :
    s.bucketsWhere pool r (· ≤ time) = s.bucketsWhere pool r (· < first) ++
      s.bucketsWhere pool r (fun start => first ≤ start && start ≤ time) := by
  refine eq_of_sorted (sorted_bucketsWhere hs ..) ?_ fun b => ?_
  · refine List.pairwise_append.2 ⟨sorted_bucketsWhere hs .., sorted_bucketsWhere hs .., ?_⟩
    intro b hb c hc
    have hb := of_decide_eq_true (hs.start_of_mem hb).2
    have hc := (Bool.and_eq_true_iff.1 (hs.start_of_mem hc).2).1
    exact lt_of_lt_of_le hb (of_decide_eq_true hc)
  · simp only [List.mem_append, mem_bucketsWhere, Bool.and_eq_true, decide_eq_true_eq,
      ← exists_or, ← and_or_left]
    exact exists_congr fun start => and_congr_right fun _ => by omega

theorem averageAt?_eq_within_or (hs : s.Keyed) (hle : first ≤ time) :
    s.averageAt? pool r time =
      (s.averageWithin? pool r first time).or (s.averageBefore? pool r first) := by
  rw [averageAt?, bucketsWhere_eq_append hs hle, lastAverage?_append]
  rfl

/-- An average up to a time belongs to a bucket. -/
theorem exists_of_averageWithin? (hs : s.Keyed) {average : Decimal}
    (h : s.averageWithin? pool r first time = some average) :
    ∃ start b, s.buckets[BucketKey.mk pool r start]? = some b ∧ first ≤ start ∧ start ≤ time ∧
      b.average = some average := by
  obtain ⟨b, hb, haverage⟩ := exists_of_lastAverage? h
  obtain ⟨hstored, hrange⟩ := hs.start_of_mem hb
  rw [Bool.and_eq_true, decide_eq_true_eq, decide_eq_true_eq] at hrange
  exact ⟨_, b, hstored, hrange.1, hrange.2, haverage⟩

/-- If all buckets from a time on have the average that there is before it, then this is the latest
average at each later time. -/
theorem sameOption_averageAt? (hs : s.Keyed) {carried : Option Decimal} (hle : first ≤ time)
    (hbefore : SameOption (s.averageBefore? pool r first) carried)
    (hwithin : ∀ start b, s.buckets[BucketKey.mk pool r start]? = some b → first ≤ start →
      start ≤ time → SameOption b.average carried) :
    SameOption (s.averageAt? pool r time) carried := by
  rw [averageAt?_eq_within_or hs hle]
  cases h : s.averageWithin? pool r first time with
  | none => rwa [Option.none_or]
  | some average =>
    obtain ⟨start, b, hb, hfirst, htime, haverage⟩ := exists_of_averageWithin? hs h
    rw [Option.some_or, ← haverage]
    exact hwithin start b hb hfirst htime

/-! ### The slots of a bucket -/

/-- The slots of a bucket lie in its span, and there are at most seven. -/
theorem slotStarts_spec (hs : s.Keyed) (ha : s.Aligned) {key : BucketKey}
    (hp : key.resolution.parent? = some parent) (hd : key.resolution.seconds ∣ key.start) :
    (∀ t ∈ s.slotStarts key parent, key.start ≤ t ∧ t < key.finish) ∧
      (s.slotStarts key parent).length ≤ 7 ∧
      (s.children key parent ≠ [] → s.slotStarts key parent ≠ []) := by
  by_cases hne : s.children key parent = []
  · rw [slotStarts_eq_nil hne]
    exact ⟨fun t ht => absurd ht List.not_mem_nil, Nat.zero_le _, fun h => absurd hne h⟩
  · have hlatest := List.getLast?_eq_some_getLast hne
    obtain ⟨n, hn, hstart, -, hslots⟩ := exists_slotStarts hs ha hp hd hlatest
    have hspan := (hs.start_of_mem (List.mem_of_getLast? hlatest)).2
    rw [Bool.and_eq_true, decide_eq_true_eq, decide_eq_true_eq] at hspan
    have hwindow := key.resolution.window_le
    rw [hslots]
    refine ⟨fun t ht => ?_, ?_, fun _ => by simp⟩
    · obtain ⟨slot, hslot, rfl⟩ := List.mem_map.1 ht
      have hpos := parent.seconds_pos
      have hle : (slot : Int) * parent.seconds ≤ n * parent.seconds :=
        Int.mul_le_mul_of_nonneg_right (by have := List.mem_range.1 hslot; omega) hpos.le
      have hnonneg : 0 ≤ (slot : Int) * parent.seconds := Int.mul_nonneg (by omega) hpos.le
      omega
    · rw [List.length_map, List.length_range]
      omega

/-- With an average before the span every slot has a value: that of a bucket in the span, or else
the one from before. -/
theorem slotValues_eq_map (hs : s.Keyed) (ha : s.Aligned) {key : BucketKey}
    (hp : key.resolution.parent? = some parent) (hd : key.resolution.seconds ∣ key.start)
    {carried : Decimal} (hbefore : s.averageBefore? key.pool parent key.start = some carried) :
    s.slotValues key parent = (s.slotStarts key parent).map fun time =>
      (s.averageWithin? key.pool parent key.start time).getD carried := by
  rw [slotValues, ← List.filterMap_eq_map]
  refine List.filterMap_congr fun time htime => ?_
  rw [averageAt?_eq_within_or hs ((slotStarts_spec hs ha hp hd).1 time htime).1, hbefore,
    Option.or_some]
  rfl

/-- Every coarser bucket has a parent bucket in its span. -/
def Covered (s : MemoryState) : Prop :=
  ∀ (k : BucketKey) (b : Bucket) (parent : Resolution), s.buckets[k]? = some b →
    k.resolution.parent? = some parent → s.children k parent ≠ []

theorem covered_foldl_rollUp (pool : String) (os : List Observation) :
    (os.foldl (rollUp pool) empty).Covered := by
  intro k b parent hb hp
  obtain ⟨rfl, hne, -⟩ := withoutAverage_of_foldl_rollUp hb
  obtain ⟨o, ho⟩ := List.exists_mem_of_ne_nil _ hne
  obtain ⟨ho, hstart⟩ := List.mem_filter.1 ho
  have hstart : k.resolution.start o.blockTime = k.start := of_decide_eq_true hstart
  -- the observation has left a bucket of the parent resolution too
  obtain ⟨child, hchild⟩ := exists_bucket_of_mem k.pool parent ho
  have hle := Resolution.start_le_start_of_parent hp o.blockTime
  have hlt := Resolution.start_lt_finish_of_parent parent k.resolution o.blockTime
  refine List.ne_nil_of_mem (mem_bucketsWhere.2 ⟨_, hchild, ?_⟩)
  rw [Bool.and_eq_true, decide_eq_true_eq, decide_eq_true_eq]
  unfold BucketKey.finish
  omega

/-! ### Spans without prices -/

/-- A span in which no bucket of the finest resolution has a price. -/
def Unpriced (s : MemoryState) (pool : String) (first last : Int) : Prop :=
  ∀ start b, s.buckets[BucketKey.mk pool .min1 start]? = some b → first ≤ start → start < last →
    b.hasPrice = false

/-- At the resolutions finer than `r`, no average in a span needs more than a seventh of the room
for digits, so that no mean of equal averages is rounded. -/
def RoomForMeans (s : MemoryState) (pool : String) (r : Resolution) (first last : Int) : Prop :=
  ∀ (q : Resolution) (time : Int) (average : Decimal), q.seconds < r.seconds → first ≤ time →
    time < last → s.averageAt? pool q time = some average → 7 * average.magnitude < Decimal.bound

theorem roomForMeans_of_bucketList (h : ∀ b ∈ s.bucketList, ∀ average ∈ b.average,
    7 * average.magnitude < Decimal.bound) : s.RoomForMeans pool r first last := by
  intro q time average _ _ _ haverage
  obtain ⟨b, hb, hsome⟩ := exists_of_lastAverage? haverage
  obtain ⟨start, hstored, -⟩ := mem_bucketsWhere.1 hb
  refine h b ?_ average hsome
  exact List.mem_map.2 ⟨_, Std.ExtTreeMap.mem_toList_iff_getElem?_eq_some.2 hstored, rfl⟩

/-- A mean over slots with one average is this average. -/
theorem sameOption_of_slots (hs : s.Keyed) (ha : s.Aligned) {b : Bucket} (hb : s.Consistent b)
    (hp : b.key.resolution.parent? = some parent) (hd : b.key.resolution.seconds ∣ b.key.start)
    (hne : s.children b.key parent ≠ []) {carried : Decimal}
    (hsame : ∀ time, b.key.start ≤ time → time < b.key.finish →
      SameOption (s.averageAt? b.key.pool parent time) (some carried))
    (hroom : ∀ time average, b.key.start ≤ time → time < b.key.finish →
      s.averageAt? b.key.pool parent time = some average →
        7 * average.magnitude < Decimal.bound) :
    SameOption b.average (some carried) := by
  obtain ⟨hspan, hlength, hslots⟩ := slotStarts_spec hs ha hp hd
  have hvalue : ∀ time ∈ s.slotStarts b.key parent,
      ∃ average, s.averageAt? b.key.pool parent time = some average := by
    intro time htime
    obtain ⟨hle, hlt⟩ := hspan time htime
    have htimeSame := hsame time hle hlt
    refine Option.ne_none_iff_exists'.1 fun hnone => ?_
    rw [hnone] at htimeSame
    exact htimeSame
  have hlengthValues : (s.slotValues b.key parent).length ≤ 7 :=
    (List.length_filterMap_le _ _).trans hlength
  have hmean : SameOption (meanOf? (s.slotValues b.key parent)) (some carried) := by
    refine sameOption_meanOf? ?_ (by rw [UInt64.size]; omega) ?_ ?_
    · obtain ⟨time, htime⟩ := List.exists_mem_of_ne_nil _ (hslots hne)
      obtain ⟨average, haverage⟩ := hvalue time htime
      exact List.ne_nil_of_mem (List.mem_filterMap.2 ⟨time, htime, haverage⟩)
    · intro average hmem
      obtain ⟨time, htime, haverage⟩ := List.mem_filterMap.1 hmem
      obtain ⟨hle, hlt⟩ := hspan time htime
      have htimeSame := hsame time hle hlt
      rwa [haverage] at htimeSame
    · intro average hmem
      obtain ⟨time, htime, haverage⟩ := List.mem_filterMap.1 hmem
      obtain ⟨hle, hlt⟩ := hspan time htime
      exact (Nat.mul_le_mul_right _ hlengthValues).trans_lt (hroom time average hle hlt haverage)
  exact (((consistent_iff_of_some hp).1 hb).1).trans hmean

namespace Unpriced

variable {u : Int} {carried : Decimal}

/-- In a span without prices, the finest buckets carry forward the average from before it. -/
theorem sameOption_finest (h : s.Unpriced pool first last) (hs : s.InOrder pool u)
    (hbefore : SameOption (s.averageBefore? pool .min1 first) (some carried)) {start : Int}
    {b : Bucket} (hb : s.buckets[BucketKey.mk pool .min1 start]? = some b) (hle : first ≤ start)
    (hlt : start < last) : SameOption b.average (some carried) := by
  -- by induction on the start: the latest average before it is that of an earlier bucket
  induction hn : (start - first).toNat using Nat.strong_induction_on generalizing start b with
  | _ n ih =>
    have hkey : b.key = ⟨pool, .min1, start⟩ := hs.keyed _ b hb
    have hconsistent := (consistent_iff_of_none (hkey ▸ rfl)).1 (hs.consistent _ b hb)
    have hlatest := hconsistent.2 (h start b hb hle hlt)
    rw [hkey] at hlatest
    refine hlatest.trans ?_
    rcases hle.eq_or_lt with rfl | hlt'
    · exact hbefore
    · have hprior : s.bucketsWhere pool .min1 (· < start) =
          s.bucketsWhere pool .min1 (· ≤ start - 1) :=
        bucketsWhere_congr fun _ _ _ => decide_eq_decide.2 (by omega)
      rw [hprior]
      refine sameOption_averageAt? hs.keyed (by omega) hbefore fun start' c hc hle' hstart' => ?_
      exact ih (start' - first).toNat (by omega) hc hle' (by omega) rfl

/-- In a span without prices, one average from before it carries through the resolutions. -/
theorem sameOption_average (h : s.Unpriced pool first last) (hs : s.InOrder pool u)
    (hcovered : s.Covered) {r : Resolution} (hr : Resolution.min1.seconds < r.seconds)
    (hfirst : r.seconds ∣ first) (hlast : last = first + r.seconds)
    (hbefore : ∀ q : Resolution, q.seconds < r.seconds →
      SameOption (s.averageBefore? pool q first) (some carried))
    (hroom : s.RoomForMeans pool r first last) (q : Resolution) :
    q.seconds ≤ r.seconds → ∀ {start : Int} {b : Bucket},
      s.buckets[BucketKey.mk pool q start]? = some b → first ≤ start → start < last →
        SameOption b.average (some carried) := by
  induction q using Resolution.parent_induction with
  | finest =>
    intro _ start b hb hle hlt
    exact h.sameOption_finest hs (hbefore .min1 hr) hb hle hlt
  | coarser q parent hp ih =>
    intro hq start b hb hle hlt
    have hfiner := (Resolution.parent_seconds_lt hp).trans_le hq
    have hkey : b.key = ⟨pool, q, start⟩ := hs.keyed _ b hb
    have hd : q.seconds ∣ start := hs.aligned _ b hb
    -- the span of the bucket lies within the span without prices
    have hdvd : q.seconds ∣ r.seconds := by
      rcases hq.eq_or_lt with heq | hlt
      · exact heq ▸ Int.dvd_refl _
      · exact Resolution.seconds_dvd_of_lt hlt
    have hfinish : b.key.finish ≤ last := by
      rw [hkey]
      refine Resolution.add_le_of_dvd hd ?_ hlt
      rw [hlast]
      exact Int.dvd_add (Int.dvd_trans hdvd hfirst) hdvd
    have hbucket := hs.consistent _ b hb
    have hchild := hcovered _ b parent hb hp
    rw [← hkey] at hchild
    refine sameOption_of_slots hs.keyed hs.aligned hbucket (hkey ▸ hp) (hkey ▸ hd) hchild ?_ ?_
    · intro time htime hend
      rw [hkey] at htime ⊢
      have htime : start ≤ time := htime
      refine sameOption_averageAt? hs.keyed (hle.trans htime) (hbefore parent hfiner) ?_
      intro start' c hc hle' hstart'
      exact ih hfiner.le hc hle' (by omega)
    · intro time average htime hend haverage
      rw [hkey] at htime haverage
      have htime : start ≤ time := htime
      exact hroom parent time average hfiner (hle.trans htime) (by omega) haverage

end Unpriced

end MemoryState

/-- **Averages without prices are carried forward.** Roll up records of a pool into an empty store
in the order of their block times, and take a coarser bucket in whose span no record has a price,
while some parent bucket before the span has an average. Then the average of the bucket is the mean
over its slots, where the slots before the first parent bucket in the span take the latest average
before it and each later slot that of the latest parent bucket in the span. If the latest averages
before the span are equal at all finer resolutions, and their digits have room to be summed up, then
the average of the bucket is that one too. -/
theorem unpriced_average_carried (prices : PriceSource) (pool : PoolConfig)
    (records : List Record) (refused : Bool)
    (h : ∀ record ∈ records, record.pool = pool.address)
    (horder : records.Pairwise fun r r' => r.header.tx.blockTime ≤ r'.header.tx.blockTime) :
    ∃ s : MemoryState,
      records.forM (Rollup.apply prices pool) (⟨.empty, refused⟩ : MemoryBatch) =
        .ok () ⟨s, refused⟩ ∧
      ∀ (r parent : Resolution) (start : Int) (b : Bucket) (carried : Decimal),
        r.parent? = some parent →
        s.buckets[BucketKey.mk pool.address r start]? = some b →
        (∀ record ∈ records, r.start record.header.tx.blockTime.toInt = start →
          record.price = none) →
        s.averageBefore? pool.address parent start = some carried →
        let slots := s.slotStarts ⟨pool.address, r, start⟩ parent
        slots ≠ [] ∧
        SameOption b.average (meanOf? (slots.map fun time =>
          (s.averageWithin? pool.address parent start time).getD carried)) ∧
        ((∀ q : Resolution, q.seconds < r.seconds →
            SameOption (s.averageBefore? pool.address q start) (some carried)) →
          s.RoomForMeans pool.address r start (start + r.seconds) →
          SameOption b.average (some carried)) := by
  have hsorted : (records.map (Observation.ofRecord · pool prices)).Pairwise
      fun o o' => o.blockTime ≤ o'.blockTime := by
    rw [List.pairwise_map]
    exact horder.imp Int64.le_iff_toInt_le.1
  have hearliest : ∀ o ∈ records.map (Observation.ofRecord · pool prices),
      earliestTime ≤ o.blockTime := by
    intro o ho
    obtain ⟨record, -, rfl⟩ := List.mem_map.1 ho
    exact Int64.le_toInt _
  obtain ⟨u, hs⟩ :=
    (MemoryState.inOrder_empty pool.address earliestTime).foldl_rollUp hearliest hsorted
  have hcovered := MemoryState.covered_foldl_rollUp pool.address
    (records.map (Observation.ofRecord · pool prices))
  refine ⟨_, Rollup.forM_apply_memory .empty refused prices h, ?_⟩
  intro r parent start b carried hp hb hunpriced hbefore slots
  have hkey : b.key = ⟨pool.address, r, start⟩ := hs.keyed _ b hb
  have hd : r.seconds ∣ start := hs.aligned _ b hb
  have hconsistent := hs.consistent _ b hb
  refine ⟨(MemoryState.slotStarts_spec hs.keyed hs.aligned hp hd).2.2 (hcovered _ b parent hb hp),
    ?_, fun hsame hroom => ?_⟩
  · have hmean := ((MemoryState.consistent_iff_of_some (by rwa [hkey])).1 hconsistent).1
    rwa [hkey, MemoryState.slotValues_eq_map hs.keyed hs.aligned hp hd hbefore] at hmean
  · have hfinest := Resolution.min1_seconds_lt hp
    refine MemoryState.Unpriced.sameOption_average ?_ hs hcovered hfinest hd rfl hsame hroom r
      le_rfl hb le_rfl (by have := r.seconds_pos; omega)
    -- a price in a bucket of the span would come from a record in the span
    intro start' c hc hle hlt
    rw [Bool.eq_false_iff, ne_eq, MemoryState.hasPrice_iff_of_foldl_rollUp hc]
    rintro ⟨o, ho, hstart, hprice⟩
    obtain ⟨record, hrecord, rfl⟩ := List.mem_map.1 ho
    have hstart : Resolution.min1.start record.header.tx.blockTime.toInt = start' := hstart
    rw [← hstart] at hle hlt
    have hnone : record.price = none :=
      hunpriced record hrecord
        (Resolution.start_eq_of_finer (Resolution.seconds_dvd_of_lt hfinest) hd hle hlt)
    have hprice : record.price.isSome := hprice
    rw [hnone] at hprice
    cases hprice

/-- A price in the first quarter of an hour and a record without one in the second. -/
theorem unpriced_average_carried_quarter :
    (∀ record ∈ [plainSwap 1 5 (some (.ofCount 2)), plainSwap 2 1300 none],
      record.pool = plainPool.address) ∧
    [plainSwap 1 5 (some (.ofCount 2)), plainSwap 2 1300 none].Pairwise (fun r r' =>
      r.header.tx.blockTime ≤ r'.header.tx.blockTime) ∧
    ∃ (s : MemoryState) (b : Bucket),
      [plainSwap 1 5 (some (.ofCount 2)), plainSwap 2 1300 none].forM
        (Rollup.apply (fun _ => none) plainPool) (⟨.empty, false⟩ : MemoryBatch) =
          .ok () ⟨s, false⟩ ∧
      s.buckets[BucketKey.mk "pool" .min15 900]? = some b ∧
      s.averageBefore? "pool" .min5 900 = some (.ofCount 2) ∧
      SameOption b.average (some (.ofCount 2)) := by
  have h : ∀ record ∈ [plainSwap 1 5 (some (.ofCount 2)), plainSwap 2 1300 none],
      record.pool = plainPool.address := by decide
  have horder : [plainSwap 1 5 (some (.ofCount 2)), plainSwap 2 1300 none].Pairwise
      (fun r r' => r.header.tx.blockTime ≤ r'.header.tx.blockTime) := by decide
  refine ⟨h, horder, ?_⟩
  obtain ⟨t, ht, hcarried⟩ :=
    unpriced_average_carried (fun _ => none) plainPool _ false h horder
  -- the state is the one that the records are folded into
  let s := ([plainSwap 1 5 (some (.ofCount 2)), plainSwap 2 1300 none].map
    (Observation.ofRecord · plainPool fun _ => none)).foldl
      (MemoryState.rollUp plainPool.address) .empty
  obtain rfl : t = s := Rollup.eq_of_forM_apply_memory .empty false h ht
  have hstored : (s.buckets[BucketKey.mk "pool" .min15 900]?).isSome := by decide +kernel
  have hbefore : s.averageBefore? "pool" .min5 900 = some (.ofCount 2) := by decide +kernel
  obtain ⟨b, hb⟩ := Option.isSome_iff_exists.1 hstored
  refine ⟨s, b, ht, hb, hbefore, ?_⟩
  refine (hcarried .min15 .min5 900 b (.ofCount 2) rfl hb (by decide) hbefore).2.2 ?_ ?_
  · intro q _
    cases q <;> decide +kernel
  · exact MemoryState.roomForMeans_of_bucketList (by decide +kernel)

/-- Without a price in a span, the average may yet differ from the latest one of the parent
resolution before the span. In the first run a parent bucket in the span carries forward an average
of the finest resolution; in the second a mean of five equal averages is rounded. -/
theorem unpriced_average_not_always_carried :
    (let records := [plainSwap 1 0 (some (.ofCount 2)), plainSwap 2 180 (some (.ofCount 6)),
        plainSwap 3 900 none]
    records.Pairwise (fun r r' => r.header.tx.blockTime ≤ r'.header.tx.blockTime) ∧
    (∀ record ∈ records, Resolution.min15.start record.header.tx.blockTime.toInt = 900 →
      record.price = none) ∧
    ∃ (s : MemoryState) (b : Bucket),
      records.forM (Rollup.apply (fun _ => none) plainPool) (⟨.empty, false⟩ : MemoryBatch) =
        .ok () ⟨s, false⟩ ∧
      s.buckets[BucketKey.mk "pool" .min15 900]? = some b ∧
      s.averageBefore? "pool" .min5 900 = some (.ofCount 3) ∧
      SameOption b.average (some (.ofCount 6))) ∧
    let records := [plainSwap 1 240 ((Decimal.ofCount 5).div? (.ofCount 3)), plainSwap 2 540 none]
    records.Pairwise (fun r r' => r.header.tx.blockTime ≤ r'.header.tx.blockTime) ∧
    (∀ record ∈ records, Resolution.min5.start record.header.tx.blockTime.toInt = 300 →
      record.price = none) ∧
    ∃ (s : MemoryState) (b : Bucket),
      records.forM (Rollup.apply (fun _ => none) plainPool) (⟨.empty, false⟩ : MemoryBatch) =
        .ok () ⟨s, false⟩ ∧
      s.buckets[BucketKey.mk "pool" .min5 300]? = some b ∧
      (s.averageBefore? "pool" .min1 300).isSome ∧
      ¬ SameOption b.average (s.averageBefore? "pool" .min1 300) := by
  refine ⟨⟨by decide, by decide, ?_⟩, by decide +kernel, by decide +kernel, ?_⟩
  · let s := ([plainSwap 1 0 (some (.ofCount 2)), plainSwap 2 180 (some (.ofCount 6)),
      plainSwap 3 900 none].map (Observation.ofRecord · plainPool fun _ => none)).foldl
        (MemoryState.rollUp "pool") .empty
    have haverage : (s.buckets[BucketKey.mk "pool" .min15 900]?).any fun b =>
        SameOption b.average (some (.ofCount 6)) := by decide +kernel
    obtain ⟨b, hb, haverage⟩ := (Option.any_eq_true _ _).1 haverage
    exact ⟨s, b, Rollup.forM_apply_memory .empty false _ (by decide), hb, by decide +kernel,
      of_decide_eq_true haverage⟩
  · let s := ([plainSwap 1 240 ((Decimal.ofCount 5).div? (.ofCount 3)), plainSwap 2 540 none].map
      (Observation.ofRecord · plainPool fun _ => none)).foldl (MemoryState.rollUp "pool") .empty
    have haverage : (s.buckets[BucketKey.mk "pool" .min5 300]?).any fun b =>
        ¬ SameOption b.average (s.averageBefore? "pool" .min1 300) := by decide +kernel
    obtain ⟨b, hb, haverage⟩ := (Option.any_eq_true _ _).1 haverage
    exact ⟨s, b, Rollup.forM_apply_memory .empty false _ (by decide), hb, by decide +kernel,
      of_decide_eq_true haverage⟩

end PoolKlines
