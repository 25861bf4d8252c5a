import PoolKlines.Proofs.Decimal.Positive
import PoolKlines.Proofs.Kline.CarryForward
import PoolKlines.Proofs.Store.Fresh

/-!
# When averages exist

In whatever order observations come, a bucket that one of them has just touched has an average just
if some observation so far has a price and comes before the end of the bucket. Averages are never
lost, and those of positive prices are positive.

* `MemoryState.exists_of_average` says which averages an average is computed from;
* `MemoryState.HandedOn` says that a property goes from these averages to the one computed from
  them, and `Stocked.everyAverage_rollUp` that an observation then keeps it;
* `MemoryState.Told` is the invariant: every average has a priced observation behind it, and every
  priced observation has left averages;
* `MemoryState.Positive` is the invariant for positive prices;
* `averages_tell_prices` is the statement about records in either store.
-/

namespace PoolKlines

namespace Bucket

theorem average_refresh (b : Bucket) (average : Option Decimal) :
    (b.refresh average).average = average ∨ (b.refresh average).average = b.average := by
  unfold refresh
  split
  · exact .inr rfl
  · exact .inl rfl

theorem priceSum_merge (b : Bucket) {o : Observation} {price : Decimal}
    (h : o.price = some price) : (b.merge o).priceSum = b.priceSum.saturatingAdd price := by
  simp only [merge, h, mergeLatest]
  split <;> rfl

end Bucket

namespace BucketKey

variable {k l : BucketKey}

/-- A bucket that the average of another depends on ends no later than this one. -/
theorem DependsOn.finish_le (h : k.DependsOn l) (hk : k.resolution.seconds ∣ k.start)
    (hl : l.resolution.seconds ∣ l.start) : l.finish ≤ k.finish := by
  cases hp : k.resolution.parent? with
  | none =>
    obtain ⟨-, hr, hlt⟩ := (dependsOn_iff_of_none hp).1 h
    unfold finish
    rw [hr]
    omega
  | some parent =>
    obtain ⟨-, hr, hlt⟩ := (dependsOn_iff_of_some hp).1 h
    have hdvd : parent.seconds ∣ k.finish :=
      Int.dvd_add (Int.dvd_trans (Resolution.parent_seconds_dvd hp) hk)
        (Resolution.parent_seconds_dvd hp)
    rw [hr] at hl
    unfold finish
    rw [hr]
    exact Resolution.add_le_of_dvd hl hdvd hlt

end BucketKey

namespace MemoryState

variable {s : MemoryState} {pool : String} {o : Observation} {os : List Observation}

/-- The average of a bucket is the one that it had, or one that it depends on, or the mean of
such. -/
theorem exists_of_average (hs : s.Keyed) (ha : s.Aligned) {b : Bucket}
    (hd : b.key.resolution.seconds ∣ b.key.start) {average : Decimal}
    (h : s.average b = some average) :
    b.average = some average ∨
      ∃ values : List Decimal, (values = [average] ∨ meanOf? values = some average) ∧
        ∀ value ∈ values, ∃ l c, b.key.DependsOn l ∧ s.buckets[l]? = some c ∧
          c.average = some value := by
  cases hp : b.key.resolution.parent? with
  | none =>
    simp only [MemoryState.average, hp] at h
    split at h
    · exact .inl h
    · rcases Option.or_eq_some_iff.1 h with hlatest | ⟨-, h⟩
      · refine .inr ⟨[average], .inl rfl, fun value hvalue => ?_⟩
        rw [List.mem_singleton.1 hvalue]
        obtain ⟨c, hc, haverage⟩ := exists_of_lastAverage? hlatest
        obtain ⟨start, hstored, hlt⟩ := mem_bucketsWhere.1 hc
        have hdepends : b.key.DependsOn ⟨b.key.pool, b.key.resolution, start⟩ :=
          (BucketKey.dependsOn_iff_of_none hp).2 ⟨rfl, rfl, of_decide_eq_true hlt⟩
        exact ⟨_, c, hdepends, hstored, haverage⟩
      · exact .inl h
  | some parent =>
    simp only [MemoryState.average, hp, carriedAverages_eq_slotValues hs ha hp hd] at h
    rcases Option.or_eq_some_iff.1 h with hmean | ⟨-, h⟩
    · refine .inr ⟨_, .inr hmean, fun value hvalue => ?_⟩
      -- each value of a slot is the average of a bucket up to the slot
      obtain ⟨time, htime, hvalue⟩ := List.mem_filterMap.1 hvalue
      obtain ⟨c, hc, haverage⟩ := exists_of_lastAverage? hvalue
      obtain ⟨start, hstored, hle⟩ := mem_bucketsWhere.1 hc
      have hle : start ≤ time := of_decide_eq_true hle
      have hspan := (slotStarts_spec hs ha hp hd).1 time htime
      have hdepends : b.key.DependsOn ⟨b.key.pool, parent, start⟩ :=
        (BucketKey.dependsOn_iff_of_some hp).2 ⟨rfl, rfl, hle.trans_lt hspan.2⟩
      exact ⟨_, c, hdepends, hstored, haverage⟩
    · exact .inl h

/-- A property of the averages of buckets that goes from averages to those computed from them: from
one average to that of a bucket that depends on it, and from averages to their mean. -/
structure HandedOn (Q : BucketKey → Decimal → Prop) : Prop where
  of_dependsOn {k l : BucketKey} {average : Decimal} (hk : k.resolution.seconds ∣ k.start)
    (hl : l.resolution.seconds ∣ l.start) (hdepends : k.DependsOn l) (h : Q l average) : Q k average
  of_meanOf? {k : BucketKey} {values : List Decimal} {mean : Decimal}
    (h : ∀ value ∈ values, Q k value) (hmean : meanOf? values = some mean) : Q k mean

/-- Every average that is stored has a property. -/
def EveryAverage (s : MemoryState) (Q : BucketKey → Decimal → Prop) : Prop :=
  ∀ (k : BucketKey) (b : Bucket) (average : Decimal), s.buckets[k]? = some b →
    b.average = some average → Q k average

variable {Q : BucketKey → Decimal → Prop}

/-- The average of a bucket has a property that is handed on, if those that it depends on have it,
and so has the one that the bucket had. -/
theorem HandedOn.of_average (hQ : HandedOn Q) (hs : s.Keyed) (ha : s.Aligned) {b : Bucket}
    (hd : b.key.resolution.seconds ∣ b.key.start)
    (hown : ∀ average, b.average = some average → Q b.key average)
    (hdepends : ∀ l c value, b.key.DependsOn l → s.buckets[l]? = some c →
      c.average = some value → Q l value)
    {average : Decimal} (h : s.average b = some average) : Q b.key average := by
  rcases exists_of_average hs ha hd h with h | ⟨values, hvalues, hsource⟩
  · exact hown average h
  · have hall : ∀ value ∈ values, Q b.key value := by
      intro value hvalue
      obtain ⟨l, c, hl, hc, hvalue⟩ := hsource value hvalue
      exact hQ.of_dependsOn hd (ha l c hc) hl (hdepends l c value hl hc hvalue)
    rcases hvalues with rfl | hmean
    · exact hall average (List.mem_singleton_self average)
    · exact hQ.of_meanOf? hall hmean

/-- The bucket that an observation is merged into is stored, or else it has no average. -/
theorem EveryAverage.getD_empty (h : s.EveryAverage Q) {k : BucketKey} {average : Decimal}
    (haverage : (s.buckets[k]?.getD (.empty k)).average = some average) : Q k average := by
  cases hb : s.buckets[k]? with
  | none =>
    rw [hb] at haverage
    cases haverage
  | some b =>
    rw [hb, Option.getD_some] at haverage
    exact h k b average hb haverage

namespace Stocked

/-- A new average has a property that is handed on, if those that it depends on have it, and so had
the old averages and the one of the merged bucket. -/
theorem of_dependsOn (hs : s.Stocked pool) (hQ : HandedOn Q) (hstored : s.EveryAverage Q)
    {k : BucketKey} (hmerged : k = .containing pool k.resolution o.blockTime →
      ∀ average, ((s.buckets[k]?.getD (.empty k)).merge o).average = some average → Q k average)
    (hdepends : ∀ l c value, k.DependsOn l → (s.rollUp pool o).buckets[l]? = some c →
      c.average = some value → Q l value)
    {b : Bucket} (hb : (s.rollUp pool o).buckets[k]? = some b) {average : Decimal}
    (haverage : b.average = some average) : Q k average := by
  rcases hs.touched_or_stored hb with ⟨hk, heq⟩ | ⟨-, hb⟩
  · have hnew := hs.rollUp o
    have hkey := hs.key_merge_getD_empty k o
    have hd := hnew.aligned k b hb
    have hown := hmerged hk
    generalize (s.buckets[k]?.getD (.empty k)).merge o = merged at heq hkey hown
    subst heq hkey
    rcases merged.average_refresh ((s.rollUp pool o).average merged) with hsame | hsame
    · exact hQ.of_average hnew.keyed hnew.aligned hd hown hdepends (hsame ▸ haverage)
    · exact hown average (hsame ▸ haverage)
  · exact hstored k b average hb haverage

/-- An observation keeps a property of all averages that is handed on, if the buckets that it is
merged into have it before their averages are brought up to date. -/
theorem everyAverage_rollUp (hs : s.Stocked pool) (hQ : HandedOn Q) (hstored : s.EveryAverage Q)
    (hmerged : ∀ k : BucketKey, k = .containing pool k.resolution o.blockTime →
      ∀ average, ((s.buckets[k]?.getD (.empty k)).merge o).average = some average →
        Q k average) :
    (s.rollUp pool o).EveryAverage Q := by
  intro k b average hb haverage
  -- by induction on the resolution, as the averages of coarser buckets come from parent buckets
  obtain ⟨r, hr⟩ : ∃ r, k.resolution = r := ⟨_, rfl⟩
  induction r using Resolution.parent_induction generalizing k b average with
  | finest =>
    rcases hs.touched_or_stored hb with ⟨hk, -⟩ | ⟨-, hb⟩
    · refine hs.of_dependsOn hQ hstored (hmerged k) (fun l c value hl hc hvalue => ?_) hb haverage
      -- the buckets before the touched one are as they were
      obtain ⟨-, hsame, hlt⟩ := (BucketKey.dependsOn_iff_of_none (hr ▸ rfl)).1 hl
      have hne : l ≠ .containing pool l.resolution o.blockTime := by
        intro heq
        rw [hsame, ← hk] at heq
        exact hlt.ne (congrArg BucketKey.start heq)
      obtain ⟨-, hc⟩ := (hs.touched_or_stored hc).resolve_left fun h => hne h.1
      exact hstored l c value hc hvalue
    · exact hstored k b average hb haverage
  | coarser r parent hp ih =>
    refine hs.of_dependsOn hQ hstored (hmerged k) (fun l c value hl hc hvalue => ?_) hb haverage
    obtain ⟨-, hsame, -⟩ := (BucketKey.dependsOn_iff_of_some (hr ▸ hp)).1 hl
    exact ih l c value hc hvalue hsame

end Stocked

/-! ### Averages and prices -/

/-- Some observation has a price and comes before the end of the bucket. -/
def PricedBefore (os : List Observation) (k : BucketKey) : Prop :=
  ∃ o ∈ os, o.price.isSome ∧ o.blockTime < k.finish

theorem handedOn_pricedBefore (os : List Observation) :
    HandedOn fun k _ => PricedBefore os k where
  of_dependsOn hk hl hdepends h := by
    obtain ⟨o, ho, hprice, hlt⟩ := h
    exact ⟨o, ho, hprice, hlt.trans_le (hdepends.finish_le hk hl)⟩
  of_meanOf? {k values mean} h hmean := by
    cases values with
    | nil => cases hmean
    | cons value values => exact h value List.mem_cons_self

/-- Every average has an observation with a price behind it, and every observation with a price has
left averages in its buckets. -/
structure Told (s : MemoryState) (pool : String) (os : List Observation) : Prop where
  stocked : s.Stocked pool
  pricedBefore : s.EveryAverage fun k _ => PricedBefore os k
  exists_average : ∀ o ∈ os, o.price.isSome → ∀ r, ∃ b,
    s.buckets[BucketKey.containing pool r o.blockTime]? = some b ∧ b.average.isSome

theorem told_empty (pool : String) : empty.Told pool [] :=
  ⟨stocked_empty pool, fun k b _ hb => absurd hb (getElem?_empty_ne k b),
    fun _ ho => absurd ho List.not_mem_nil⟩

theorem Told.rollUp (h : s.Told pool os) (o : Observation) :
    (s.rollUp pool o).Told pool (os ++ [o]) where
  stocked := h.stocked.rollUp o
  pricedBefore := by
    have hmore {k : BucketKey} (hpriced : PricedBefore os k) : PricedBefore (os ++ [o]) k := by
      obtain ⟨o', ho', hprice, hlt⟩ := hpriced
      exact ⟨o', List.mem_append_left _ ho', hprice, hlt⟩
    refine h.stocked.everyAverage_rollUp (handedOn_pricedBefore _)
      (fun k b average hb haverage => hmore (h.pricedBefore k b average hb haverage))
      fun k hk average haverage => ?_
    cases hprice : o.price with
    | some price =>
      -- the observation itself lies in the bucket
      refine ⟨o, List.mem_append_right _ (List.mem_singleton_self o), ?_, ?_⟩
      · rw [hprice]
        rfl
      · rw [hk]
        exact k.resolution.lt_start_add o.blockTime
    | none =>
      rw [(Bucket.merge_of_price_eq_none _ hprice).2.1] at haverage
      exact hmore (h.pricedBefore.getD_empty haverage)
  exists_average := by
    intro o' ho' hprice r
    rcases List.mem_append.1 ho' with ho' | ho'
    · obtain ⟨b, hb, haverage⟩ := h.exists_average o' ho' hprice r
      exact h.stocked.exists_isSome_average_rollUp o hb haverage
    · rw [List.mem_singleton.1 ho'] at hprice ⊢
      obtain ⟨b, hb, haverage⟩ := h.stocked.exists_touched o r
      exact ⟨b, hb, haverage hprice⟩

theorem told_foldl_rollUp (pool : String) (os : List Observation) :
    (os.foldl (MemoryState.rollUp pool) .empty).Told pool os := by
  induction os using List.reverseRecOn with
  | nil => exact told_empty pool
  | append_singleton os o ih =>
    rw [List.foldl_append]
    exact ih.rollUp o

/-- If there was a price before its end, a touched bucket of the finest resolution has an average:
its own, or that of a bucket before it. -/
theorem Told.isSome_average_of_none (h : s.Told pool os) {k : BucketKey}
    (hp : k.resolution.parent? = none) (hk : k = .containing pool k.resolution o.blockTime)
    (hpriced : PricedBefore (os ++ [o]) k) {b : Bucket}
    (hb : (s.rollUp pool o).buckets[k]? = some b) : b.average.isSome := by
  obtain rfl : pool = k.pool := (congrArg BucketKey.pool hk).symm
  obtain ⟨o', ho', hprice, hlt⟩ := hpriced
  have hnew := h.rollUp o
  obtain ⟨c, hc, haverage⟩ := hnew.exists_average o' ho' hprice k.resolution
  have hd := hnew.stocked.aligned k b hb
  have hle : k.resolution.start o'.blockTime ≤ k.start := by
    by_contra hlater
    have hfinish := Resolution.add_le_of_dvd hd (k.resolution.seconds_dvd_start o'.blockTime)
      (not_le.1 hlater)
    have := k.resolution.start_le o'.blockTime
    unfold BucketKey.finish at hlt
    omega
  rcases hle.eq_or_lt with heq | hbefore
  · -- the price lies in the bucket
    have hsame : BucketKey.containing k.pool k.resolution o'.blockTime = k := by
      rw [BucketKey.containing, heq]
    rw [hsame, hb] at hc
    rwa [Option.some.inj hc]
  · have hmem : c ∈ (s.rollUp k.pool o).bucketsWhere k.pool k.resolution (· < k.start) :=
      mem_bucketsWhere.2 ⟨_, hc, decide_eq_true hbefore⟩
    obtain ⟨-, rfl⟩ := (h.stocked.touched_or_stored hb).resolve_right fun h => h.1 hk
    obtain ⟨hkey, hsound⟩ := h.stocked.getD_empty k
    have hmerged := hsound.merge o
    refine Bucket.isSome_average_refresh _ ?_
    simp only [MemoryState.average, Bucket.key_merge, hkey, hp]
    split
    · rename_i hcount
      exact hmerged.isSome_average (hmerged.hasPrice_of_count (UInt64.pos_iff_ne_zero.1 hcount))
    · rw [Option.isSome_or, Bool.or_eq_true]
      exact .inl (isSome_lastAverage?.2 ⟨c, hmem, haverage⟩)

/-- If there was a price before its end, a touched bucket of a coarser resolution has an average:
the price has left one in a parent bucket. -/
theorem Told.isSome_average_of_some (h : s.Told pool os) {k : BucketKey} {parent : Resolution}
    (hp : k.resolution.parent? = some parent)
    (hk : k = .containing pool k.resolution o.blockTime)
    (hpriced : PricedBefore (os ++ [o]) k) {b : Bucket}
    (hb : (s.rollUp pool o).buckets[k]? = some b) : b.average.isSome := by
  obtain rfl : pool = k.pool := (congrArg BucketKey.pool hk).symm
  obtain ⟨o', ho', hprice, hlt⟩ := hpriced
  have hnew := h.rollUp o
  obtain ⟨c, hc, haverage⟩ := hnew.exists_average o' ho' hprice parent
  have hd := hnew.stocked.aligned k b hb
  have hvalues : (s.rollUp k.pool o).slotValues k parent ≠ [] := by
    rw [slotValues_ne_nil_iff hnew.stocked.keyed hnew.stocked.aligned hp hd]
    have hbefore := (parent.start_le o'.blockTime).trans_lt hlt
    exact ⟨h.stocked.children_ne_nil hp hk, _, c, hc, hbefore, haverage⟩
  obtain ⟨-, rfl⟩ := (h.stocked.touched_or_stored hb).resolve_right fun h => h.1 hk
  have hkey := h.stocked.key_merge_getD_empty k o
  generalize (s.buckets[k]?.getD (.empty k)).merge o = merged at hkey
  subst hkey
  refine Bucket.isSome_average_refresh _ ?_
  simp only [MemoryState.average, hp,
    carriedAverages_eq_slotValues hnew.stocked.keyed hnew.stocked.aligned hp hd]
  rw [Option.isSome_or, Bool.or_eq_true]
  exact .inl ((isSome_meanOf?_slotValues hnew.stocked.keyed hnew.stocked.aligned hp hd).2 hvalues)

/-- A touched bucket has an average just if there was a price before its end. -/
theorem Told.isSome_average_iff (h : s.Told pool os) {k : BucketKey}
    (hk : k = .containing pool k.resolution o.blockTime) {b : Bucket}
    (hb : (s.rollUp pool o).buckets[k]? = some b) :
    b.average.isSome ↔ PricedBefore (os ++ [o]) k := by
  constructor
  · intro haverage
    obtain ⟨average, haverage⟩ := Option.isSome_iff_exists.1 haverage
    exact (h.rollUp o).pricedBefore k b average hb haverage
  · intro hpriced
    cases hp : k.resolution.parent? with
    | none => exact h.isSome_average_of_none hp hk hpriced hb
    | some parent => exact h.isSome_average_of_some hp hk hpriced hb

/-! ### Positive prices -/

theorem handedOn_value_pos : HandedOn fun _ average => 0 < average.value where
  of_dependsOn _ _ _ h := h
  of_meanOf? h hmean := value_pos_of_meanOf? h hmean

end MemoryState

namespace Bucket

/-- The sum of the prices is at least as many of the smallest decimal as prices were counted. -/
def CountsPositive (b : Bucket) : Prop :=
  ∃ n, b.priceCount = UInt64.ofNat n ∧ b.priceSum.AtLeast n

variable {b : Bucket} {o : Observation}

theorem countsPositive_empty (key : BucketKey) : (empty key).CountsPositive :=
  ⟨0, rfl, Decimal.atLeast_zero⟩

theorem CountsPositive.merge (hb : b.CountsPositive) (ho : ∀ price ∈ o.price, 0 < price.value) :
    (b.merge o).CountsPositive := by
  obtain ⟨n, hcount, hsum⟩ := hb
  cases hprice : o.price with
  | none =>
    obtain ⟨-, -, hsame, hsameCount⟩ := b.merge_of_price_eq_none hprice
    exact ⟨n, hsameCount.trans hcount, hsame ▸ hsum⟩
  | some price =>
    refine ⟨n + 1, ?_, ?_⟩
    · rw [(b.merge_of_price_eq_some hprice).2.2, hcount, UInt64.ofNat_add]
      rfl
    · rw [b.priceSum_merge hprice]
      exact hsum.saturatingAdd (ho price hprice)

/-- The average that merging leaves is the old one, or the mean of positive prices. -/
theorem CountsPositive.average_merge (hb : b.CountsPositive)
    (ho : ∀ price ∈ o.price, 0 < price.value) {average : Decimal}
    (h : (b.merge o).average = some average) : b.average = some average ∨ 0 < average.value := by
  cases hprice : o.price with
  | none =>
    rw [(b.merge_of_price_eq_none hprice).2.1] at h
    exact .inl h
  | some price =>
    obtain ⟨n, hcount, hsum⟩ := hb.merge ho
    rw [(b.merge_of_price_eq_some hprice).2.1, hcount] at h
    rcases Option.or_eq_some_iff.1 h with hmean | ⟨-, hold⟩
    · exact .inr (hsum.value_pos_of_div? hmean)
    · exact .inl hold

theorem CountsPositive.refresh (hb : b.CountsPositive) (average : Option Decimal) :
    (b.refresh average).CountsPositive := by
  obtain ⟨n, hcount, hsum⟩ := hb
  exact ⟨n, (b.priceCount_refresh average).trans hcount, (b.priceSum_refresh average).symm ▸ hsum⟩

end Bucket

namespace MemoryState

variable {s : MemoryState} {pool : String} {o : Observation}

/-- What observations with positive prices leave. -/
structure Positive (s : MemoryState) (pool : String) : Prop where
  stocked : s.Stocked pool
  counts : ∀ (k : BucketKey) (b : Bucket), s.buckets[k]? = some b → b.CountsPositive
  value_pos : s.EveryAverage fun _ average => 0 < average.value

theorem positive_empty (pool : String) : empty.Positive pool :=
  ⟨stocked_empty pool, fun k b hb => absurd hb (getElem?_empty_ne k b),
    fun k b _ hb => absurd hb (getElem?_empty_ne k b)⟩

theorem Positive.rollUp (h : s.Positive pool) (ho : ∀ price ∈ o.price, 0 < price.value) :
    (s.rollUp pool o).Positive pool := by
  have hold (k : BucketKey) : (s.buckets[k]?.getD (.empty k)).CountsPositive := by
    cases hb : s.buckets[k]? with
    | none => exact Bucket.countsPositive_empty k
    | some b => exact h.counts k b hb
  refine ⟨h.stocked.rollUp o, fun k b hb => ?_, ?_⟩
  · rcases h.stocked.touched_or_stored hb with ⟨-, rfl⟩ | ⟨-, hb⟩
    · exact ((hold k).merge ho).refresh _
    · exact h.counts k b hb
  · refine h.stocked.everyAverage_rollUp handedOn_value_pos h.value_pos ?_
    intro k _ average hmerged
    rcases (hold k).average_merge ho hmerged with hsame | hpos
    · exact h.value_pos.getD_empty hsame
    · exact hpos

theorem positive_foldl_rollUp {os : List Observation}
    (hos : ∀ o ∈ os, ∀ price ∈ o.price, 0 < price.value) :
    (os.foldl (MemoryState.rollUp pool) .empty).Positive pool :=
  List.foldlRecOn (motive := (Positive · pool)) os _ (positive_empty pool) fun _ hs o ho =>
    hs.rollUp (hos o ho)

/-- Observations take no average away. -/
theorem Stocked.exists_isSome_average_foldl_rollUp (hs : s.Stocked pool) (os : List Observation)
    {k : BucketKey} {b : Bucket} (hb : s.buckets[k]? = some b) (h : b.average.isSome) :
    ∃ c, (os.foldl (MemoryState.rollUp pool) s).buckets[k]? = some c ∧ c.average.isSome := by
  refine (List.foldlRecOn (motive := fun t : MemoryState => t.Stocked pool ∧
    ∃ c, t.buckets[k]? = some c ∧ c.average.isSome) os _ ⟨hs, b, hb, h⟩ ?_).2
  rintro t ⟨ht, c, hc, haverage⟩ o -
  exact ⟨ht.rollUp o, ht.exists_isSome_average_rollUp o hc haverage⟩

end MemoryState

/-! ### The averages of a store -/

/-- What averages tell while records of a pool are rolled up in turn, where the buckets are those
after so many of them. -/
structure AveragesTell (records : List Record) (pool : String)
    (buckets : Nat → BucketKey → Option Bucket) : Prop where
  /-- A bucket that a record touched has an average just if a record so far has a price and comes
  before the end of the bucket. -/
  touched (n : Nat) (record : Record) (hrecord : records[n]? = some record) (r : Resolution) :
    let key := BucketKey.containing pool r record.header.tx.blockTime.toInt
    ∃ b, buckets (n + 1) key = some b ∧
      (b.average.isSome ↔ ∃ earlier ∈ records.take (n + 1), earlier.price.isSome ∧
        earlier.header.tx.blockTime.toInt < key.finish)
  /-- A bucket keeps an average. -/
  kept (m n : Nat) (hle : m ≤ n) (k : BucketKey) (b : Bucket) (hb : buckets m k = some b)
    (h : b.average.isSome) : ∃ c, buckets n k = some c ∧ c.average.isSome
  /-- All averages are positive if all prices are. -/
  value_pos (n : Nat) (h : ∀ record ∈ records.take n, ∀ price ∈ record.price, 0 < price.value)
    (k : BucketKey) (b : Bucket) (hb : buckets n k = some b) :
    ∀ average ∈ b.average, 0 < average.value

/-- What becomes of decimals that are written and read back does not matter. -/
theorem AveragesTell.map {records : List Record} {pool : String}
    {buckets : Nat → BucketKey → Option Bucket} (h : AveragesTell records pool buckets)
    {f : Bucket → Bucket} {form : Decimal → Decimal}
    (haverage : ∀ b, (f b).average = b.average.map form) (hvalue : ∀ d, (form d).value = d.value) :
    AveragesTell records pool fun n k => (buckets n k).map f where
  touched n record hrecord r := by
    obtain ⟨b, hb, hiff⟩ := h.touched n record hrecord r
    refine ⟨f b, Option.map_eq_some_iff.2 ⟨b, hb, rfl⟩, ?_⟩
    rw [haverage, Option.isSome_map, hiff]
  kept m n hle k b hb hsome := by
    obtain ⟨stored, hstored, rfl⟩ := Option.map_eq_some_iff.1 hb
    rw [haverage, Option.isSome_map] at hsome
    obtain ⟨c, hc, hsome⟩ := h.kept m n hle k stored hstored hsome
    refine ⟨f c, Option.map_eq_some_iff.2 ⟨c, hc, rfl⟩, ?_⟩
    rwa [haverage, Option.isSome_map]
  value_pos n hprices k b hb average hmem := by
    obtain ⟨stored, hstored, rfl⟩ := Option.map_eq_some_iff.1 hb
    rw [haverage] at hmem
    obtain ⟨own, hown, rfl⟩ := Option.map_eq_some_iff.1 hmem
    rw [hvalue]
    exact h.value_pos n hprices k stored hstored own hown

/-- What the averages in memory tell. -/
theorem averagesTell_memory (prices : PriceSource) (pool : PoolConfig) (records : List Record) :
    AveragesTell records pool.address fun n k =>
      (((records.take n).map (Observation.ofRecord · pool prices)).foldl
        (MemoryState.rollUp pool.address) .empty).buckets[k]? where
  touched n record hrecord r := by
    have hnext : (records.take (n + 1)).map (Observation.ofRecord · pool prices) =
        (records.take n).map (Observation.ofRecord · pool prices) ++
          [.ofRecord record pool prices] := by
      rw [List.take_add_one, hrecord, Option.toList_some, List.map_append, List.map_singleton]
    have htold := MemoryState.told_foldl_rollUp pool.address
      ((records.take n).map (Observation.ofRecord · pool prices))
    obtain ⟨b, hb, -⟩ := htold.stocked.exists_touched (.ofRecord record pool prices) r
    have hiff := htold.isSome_average_iff rfl hb
    simp only [← hnext, MemoryState.PricedBefore, List.mem_map, exists_exists_and_eq_and] at hiff
    refine ⟨b, ?_, hiff⟩
    rw [hnext, List.foldl_append]
    exact hb
  kept m n hle k b hb h := by
    obtain ⟨rest, hrest⟩ := (List.take_prefix_take_left (l := records) hle).map
      (Observation.ofRecord · pool prices)
    rw [← hrest, List.foldl_append]
    exact (MemoryState.told_foldl_rollUp pool.address _).stocked.exists_isSome_average_foldl_rollUp
      rest hb h
  value_pos n h k b hb average haverage := by
    refine (MemoryState.positive_foldl_rollUp ?_).value_pos k b average hb haverage
    intro o ho
    obtain ⟨record, hrecord, rfl⟩ := List.mem_map.1 ho
    exact h record hrecord

/-- **Averages tell whether there were prices.** Rolling up records of a pool in an empty store of
either kind, in any order of their block times, succeeds. After each record, each of the buckets
that it touched has an average just if some record so far has a price and comes before the end of
the bucket. No bucket loses its average, and as long as all prices are positive, so are all
averages. -/
theorem averages_tell_prices (prices : PriceSource) (pool : PoolConfig) (records : List Record)
    (h : ∀ record ∈ records, record.pool = pool.address) {β : Type} [Batch β] {start : β}
    {form : Decimal → Decimal} (hstart : Batch.Fresh (· = pool.address) start form) :
    ∃ buckets : Nat → BucketKey → Option Bucket,
      (∀ n, ∃ totals, ((records.take n).forM (Rollup.apply prices pool)).Leaves start
        (· = pool.address) (buckets n) totals) ∧
      AveragesTell records pool.address buckets := by
  obtain ⟨f, g, hform, hleaves⟩ := hstart.exists_leaves_apply prices
  refine ⟨_, fun n => ⟨_, hleaves (records.take n) fun record hrecord =>
    h record (List.mem_of_mem_take hrecord)⟩, ?_⟩
  have htell := averagesTell_memory prices pool records
  obtain ⟨rfl, rfl, -⟩ | ⟨rfl, rfl, -⟩ := hform
  · have hid (b : Bucket) : (id b).average = b.average.map id := by
      rw [Option.map_id]
      rfl
    exact htell.map hid fun _ => rfl
  · exact htell.map Bucket.average_plain Decimal.value_unsignedZero

/-- Three swaps in a durable store: the last one comes before the others, and the one in the middle
has no price. -/
theorem averages_tell_three_prices :
    let store := ((DurableStore.empty 2).assignPools ["pool"]).2
    let records := [plainSwap 1 605 (some (.ofCount 2)), plainSwap 2 700 none,
      plainSwap 3 5 (some (.ofCount 3))]
    (∀ record ∈ records, record.pool = plainPool.address) ∧
      Batch.Fresh (· = plainPool.address) store.view Decimal.unsignedZero ∧
      ∃ buckets : Nat → BucketKey → Option Bucket,
        (∃ totals, (records.forM (Rollup.apply (fun _ => none) plainPool)).Leaves store.view
          (· = plainPool.address) (buckets 3) totals) ∧
        (∃ b, buckets 2 ⟨"pool", .min1, 660⟩ = some b ∧ b.average.isSome) ∧
        ∃ b, buckets 3 ⟨"pool", .min5, 0⟩ = some b ∧ b.average.isSome ∧
          ∀ average ∈ b.average, 0 < average.value := by
  intro store records
  have hrecords : ∀ record ∈ records, record.pool = plainPool.address := by
    simp [records, plainSwap, Record.pool, Record.header, plainPool]
  have hstart : Batch.Fresh (· = plainPool.address) store.view Decimal.unsignedZero :=
    Batch.fresh_assignPools 2 "pool"
  refine ⟨hrecords, hstart, ?_⟩
  obtain ⟨buckets, hleaves, htell⟩ :=
    averages_tell_prices (fun _ => none) plainPool records hrecords hstart
  have hpositive : ∀ record ∈ records, ∀ price ∈ record.price, 0 < price.value := by
    simp [records, plainSwap, Record.price]
  refine ⟨buckets, hleaves 3, ?_, ?_⟩
  · obtain ⟨b, hb, hiff⟩ := htell.touched 1 _ rfl .min1
    exact ⟨b, hb, hiff.2 ⟨_, List.mem_cons_self, rfl, by decide⟩⟩
  · obtain ⟨b, hb, hiff⟩ := htell.touched 2 _ rfl .min5
    refine ⟨b, hb, hiff.2 ⟨plainSwap 3 5 (some (.ofCount 3)), ?_, rfl, by decide⟩,
      htell.value_pos 3 hpositive _ b hb⟩
    simp [records]

end PoolKlines
