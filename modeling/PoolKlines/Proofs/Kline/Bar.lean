import PoolKlines.Proofs.Decimal.Value
import PoolKlines.Proofs.Store.Fresh

/-!
# Bars

The opening, high, low and closing price of a bucket are the first, the greatest, the least and the
last of the prices that were folded in, in whatever order they came.

* `Bucket.Charts` says so, and `Bucket.IsBar` says what follows for the four prices alone;
* `Charts.merge` folds one observation in, and `charts_foldl_merge` a history into an empty bucket;
* `Rollup.Application` is a record to be rolled up, of any pool and with any source of prices. What
  is refused leaves the store as it was;
* `bars_chart_prices`: buckets and stores of both kinds.
-/

namespace PoolKlines

open Decimal (IsExtreme SameOption)

/-! ### The bar of a bucket -/

namespace Bucket

/-- The four prices of a bucket, and the number of its prices. -/
def quotes (b : Bucket) :
    Option Decimal × Option Decimal × Option Decimal × Option Decimal × UInt64 :=
  (b.opening, b.high, b.low, b.closing, b.priceCount)

/-- The bucket is the bar of some prices. -/
structure Charts (b : Bucket) (prices : List Decimal) : Prop where
  opening : b.opening = prices.head?
  high : IsExtreme (· ≤ ·) prices b.high
  low : IsExtreme (· ≥ ·) prices b.low
  closing : b.closing = prices.getLast?
  count : b.priceCount = UInt64.ofNat prices.length

/-- All four prices of a bucket are there or none, and the low and the high enclose the other
two. -/
def IsBar (b : Bucket) : Prop :=
  (b.opening = none ∧ b.high = none ∧ b.low = none ∧ b.closing = none) ∨
  ∃ opening high low closing : Decimal,
    b.opening = some opening ∧ b.high = some high ∧ b.low = some low ∧ b.closing = some closing ∧
      (low.value ≤ opening.value ∧ opening.value ≤ high.value) ∧
      low.value ≤ closing.value ∧ closing.value ≤ high.value

/-- The buckets have the same high and the same low. -/
def SameRange (b c : Bucket) : Prop := SameOption b.high c.high ∧ SameOption b.low c.low

variable {b c : Bucket} {prices prices' : List Decimal}

theorem Charts.congr (h : b.Charts prices) (hquotes : c.quotes = b.quotes) : c.Charts prices := by
  simp only [quotes, Prod.mk.injEq] at hquotes
  obtain ⟨hopening, hhigh, hlow, hclosing, hcount⟩ := hquotes
  exact ⟨hopening.trans h.opening, hhigh ▸ h.high, hlow ▸ h.low, hclosing.trans h.closing,
    hcount.trans h.count⟩

theorem charts_empty (key : BucketKey) : (empty key).Charts [] := ⟨rfl, rfl, rfl, rfl, rfl⟩

theorem Charts.mergePrice (h : b.Charts prices) (price : Decimal) :
    (b.mergePrice price).Charts (prices ++ [price]) := by
  have hcount : (b.mergePrice price).priceCount = UInt64.ofNat (prices ++ [price]).length := by
    rw [List.length_append, List.length_singleton, UInt64.ofNat_add, ← h.count]
    rfl
  obtain ⟨hopening, hhigh, hlow, -, -⟩ := h
  cases prices with
  | nil =>
    -- the first price opens the bar
    have hopening : (b.mergePrice price).opening = some price ∧
        (b.mergePrice price).high = some price ∧ (b.mergePrice price).low = some price := by
      rw [List.head?_nil] at hopening
      simp only [Bucket.mergePrice, hopening, and_self]
    refine ⟨hopening.1, ?_, ?_, rfl, hcount⟩
    · rw [hopening.2.1]
      exact Decimal.isExtreme_singleton price
    · rw [hopening.2.2]
      exact Decimal.isExtreme_singleton price
  | cons first rest =>
    obtain ⟨high, hh, hhigh⟩ := hhigh.exists_eq_some (List.cons_ne_nil first rest)
    obtain ⟨low, hl, hlow⟩ := hlow.exists_eq_some (List.cons_ne_nil first rest)
    rw [List.head?_cons] at hopening
    have hmerged : (b.mergePrice price).opening = some first ∧
        (b.mergePrice price).high = some (max high price) ∧
        (b.mergePrice price).low = some (min low price) := by
      simp only [Bucket.mergePrice, hopening, hh, hl, and_self]
    refine ⟨hmerged.1, ?_, ?_, List.getLast?_concat.symm, hcount⟩
    · rw [hmerged.2.1]
      exact IsExtreme.concat_max hhigh price
    · rw [hmerged.2.2]
      exact IsExtreme.concat_min hlow price

/-- Folding an observation in adds its price, if it has one. -/
theorem Charts.merge (h : b.Charts prices) (o : Observation) :
    (b.merge o).Charts (prices ++ o.price.toList) := by
  have hrest (c : Bucket) : ((c.mergeVolumes o).mergeLatest o).quotes = c.quotes := by
    unfold mergeLatest
    split <;> rfl
  unfold Bucket.merge
  cases o.price with
  | none =>
    rw [Option.toList_none, List.append_nil]
    exact h.congr (hrest b)
  | some price => exact (h.mergePrice price).congr (hrest _)

/-- The average is no part of the bar. -/
theorem Charts.refresh (h : b.Charts prices) (average : Option Decimal) :
    (b.refresh average).Charts prices := by
  have hquotes : (b.refresh average).withoutAverage.quotes = b.withoutAverage.quotes :=
    congrArg quotes (b.withoutAverage_refresh average)
  exact h.congr hquotes

theorem Charts.plain (h : b.Charts prices) :
    b.plain.Charts (prices.map Decimal.unsignedZero) where
  opening := by rw [List.head?_map, ← h.opening]; rfl
  high := h.high.map Decimal.value_unsignedZero
  low := h.low.map Decimal.value_unsignedZero
  closing := by rw [List.getLast?_map, ← h.closing]; rfl
  count := by rw [List.length_map, ← h.count]; rfl

/-- A history leaves the bar of its prices. -/
theorem charts_foldl_merge (key : BucketKey) (os : List Observation) :
    (os.foldl merge (empty key)).Charts (os.filterMap (·.price)) := by
  induction os using List.reverseRecOn with
  | nil => exact charts_empty key
  | append_singleton os o ih =>
    rw [List.foldl_append, List.filterMap_append]
    have hlast : [o].filterMap (·.price) = o.price.toList := by
      cases h : o.price <;> simp [h]
    rw [hlast]
    exact ih.merge o

/-- The order of the prices does not matter for the high and the low. -/
theorem Charts.sameRange (hb : b.Charts prices) (hc : c.Charts prices')
    (h : prices.Perm prices') : b.SameRange c :=
  ⟨hb.high.sameOption_of_perm hc.high h, hb.low.sameOption_of_perm hc.low h⟩

/-- The bar of some prices has all four prices or none. -/
theorem Charts.isBar (h : b.Charts prices) : b.IsBar := by
  obtain ⟨hopening, hhigh, hlow, hclosing, -⟩ := h
  by_cases hne : prices = []
  · subst hne
    exact .inl ⟨hopening, hhigh.eq_none, hlow.eq_none, hclosing⟩
  · obtain ⟨high, hh, -, hhigh⟩ := hhigh.exists_eq_some hne
    obtain ⟨low, hl, -, hlow⟩ := hlow.exists_eq_some hne
    rw [List.head?_eq_some_head hne] at hopening
    rw [List.getLast?_eq_some_getLast hne] at hclosing
    refine .inr ⟨_, high, low, _, hopening, hh, hl, hclosing, ⟨?_, ?_⟩, ?_, ?_⟩
    · exact hlow _ (List.head_mem hne)
    · exact hhigh _ (List.head_mem hne)
    · exact hlow _ (List.getLast_mem hne)
    · exact hhigh _ (List.getLast_mem hne)

/-- As long as the counter does not overflow, it tells whether there are prices. -/
theorem Charts.priceCount_pos_iff (h : b.Charts prices) (hlength : prices.length < UInt64.size) :
    0 < b.priceCount ↔ b.opening.isSome := by
  rw [UInt64.lt_iff_toNat_lt, h.count, UInt64.toNat_ofNat_of_lt' hlength, h.opening,
    List.isSome_head?]
  exact List.length_pos_iff

end Bucket

/-! ### The bars of a store -/

namespace Rollup

/-- A record to be rolled up, with the pool and the prices to do it with. -/
structure Application where
  prices : PriceSource
  pool : PoolConfig
  record : Record

namespace Application

/-- Roll the record up. If it is refused, nothing is written. -/
def attempt {β : Type} [Batch β] (a : Application) : Staged StoreError β Unit := do
  let _ ← Rollup.attempt a.prices a.pool a.record

/-- The record is of the pool, and so it is rolled up. -/
def Accepted (a : Application) : Prop := a.record.pool = a.pool.address

instance (a : Application) : Decidable a.Accepted :=
  inferInstanceAs (Decidable (a.record.pool = a.pool.address))

/-- The record is folded into the bucket with a key. -/
def FallsInto (a : Application) (k : BucketKey) : Prop :=
  a.Accepted ∧ k = .containing a.pool.address k.resolution a.record.header.tx.blockTime.toInt

instance (a : Application) (k : BucketKey) : Decidable (a.FallsInto k) :=
  inferInstanceAs (Decidable (_ ∧ _))

/-- The prices that fall into the bucket with a key. -/
def pricesIn (applications : List Application) (k : BucketKey) : List Decimal :=
  (applications.filter fun a => a.FallsInto k).filterMap (·.record.price)

/-- What an application does to the state in memory. -/
def step (s : MemoryState) (a : Application) : MemoryState :=
  if a.Accepted then s.rollUp a.pool.address (.ofRecord a.record a.pool a.prices) else s

theorem attempt_memory (a : Application) (s : MemoryState) (refused : Bool) :
    a.attempt (⟨s, refused⟩ : MemoryBatch) = .ok () ⟨step s a, refused⟩ := by
  by_cases h : a.Accepted
  · have happly := apply_memory s refused a.prices h
    have hattempt : Rollup.attempt a.prices a.pool a.record (⟨s, refused⟩ : MemoryBatch) =
        .ok none ⟨s.rollUp a.pool.address (.ofRecord a.record a.pool a.prices), refused⟩ := by
      rw [Rollup.attempt, happly]
    rw [step, if_pos h]
    exact bind_of_ok hattempt _
  · have hpool : a.record.pool ≠ a.pool.address := h
    have hattempt : Rollup.attempt a.prices a.pool a.record (⟨s, refused⟩ : MemoryBatch) =
        .ok (some (.poolMismatch a.record.pool a.pool.address)) ⟨s, refused⟩ := by
      rw [Rollup.attempt, Rollup.apply, if_pos hpool]
      rfl
    rw [step, if_neg h]
    exact bind_of_ok hattempt _

theorem forM_attempt_memory (applications : List Application) (s : MemoryState) (refused : Bool) :
    applications.forM attempt (⟨s, refused⟩ : MemoryBatch) =
      .ok () ⟨applications.foldl step s, refused⟩ :=
  forM_eq_foldl (g := fun s => (⟨s, refused⟩ : MemoryBatch))
    (fun a _ s => a.attempt_memory s refused) s

/-- One application touches the buckets that it falls into. -/
theorem getElem?_step {s : MemoryState} (hs : s.Keyed) (a : Application) (k : BucketKey) :
    ∃ average, (step s a).buckets[k]? =
      if a.FallsInto k then
        some (((s.buckets[k]?.getD (.empty k)).merge (.ofRecord a.record a.pool a.prices)).refresh
          average)
      else s.buckets[k]? := by
  have htouched := hs.getElem?_rollUp a.pool.address (.ofRecord a.record a.pool a.prices) k
  by_cases hfalls : a.FallsInto k
  · simp only [step, if_pos hfalls.1, if_pos hfalls]
    exact ⟨_, htouched.trans (if_pos hfalls.2)⟩
  · refine ⟨none, ?_⟩
    rw [if_neg hfalls, step]
    by_cases haccepted : a.Accepted
    · rw [if_pos haccepted]
      exact htouched.trans (if_neg fun hk => hfalls ⟨haccepted, hk⟩)
    · rw [if_neg haccepted]

theorem keyed_step {s : MemoryState} (hs : s.Keyed) (a : Application) : (step s a).Keyed := by
  unfold step
  split
  · exact hs.rollUp _ _
  · exact hs

/-- A bucket is stored just if something fell into it. It is the bar of the prices that did, and a
bucket that is missing would have none. -/
structure Charted (applications : List Application) (s : MemoryState) : Prop where
  keyed : s.Keyed
  stored : ∀ k : BucketKey, (s.buckets[k]?).isSome ↔ ∃ a ∈ applications, a.FallsInto k
  charts : ∀ k : BucketKey, (s.buckets[k]?.getD (.empty k)).Charts (pricesIn applications k)

theorem charted_empty : Charted [] .empty where
  keyed := MemoryState.keyed_empty
  stored k := by simp [MemoryState.empty]
  charts k := by
    have hnone : MemoryState.empty.buckets[k]? = none := by simp [MemoryState.empty]
    rw [hnone]
    exact Bucket.charts_empty k

theorem pricesIn_concat (applications : List Application) (a : Application) (k : BucketKey) :
    pricesIn (applications ++ [a]) k =
      pricesIn applications k ++ if a.FallsInto k then a.record.price.toList else [] := by
  rw [pricesIn, List.filter_append, List.filterMap_append, pricesIn]
  by_cases h : a.FallsInto k
  · cases hprice : a.record.price <;> simp [h, hprice]
  · simp [h]

/-- One more application adds its price to the bucket that it falls into. -/
theorem Charted.concat {applications : List Application} {s : MemoryState}
    (h : Charted applications s) (a : Application) :
    Charted (applications ++ [a]) (step s a) := by
  refine ⟨keyed_step h.keyed a, fun k => ?_, fun k => ?_⟩
  · obtain ⟨average, hk⟩ := getElem?_step h.keyed a k
    simp only [hk, List.mem_append, List.mem_singleton, or_and_right, exists_or, exists_eq_left,
      ← h.stored k]
    by_cases hfalls : a.FallsInto k <;> simp [hfalls]
  · obtain ⟨average, hk⟩ := getElem?_step h.keyed a k
    rw [hk, pricesIn_concat]
    by_cases hfalls : a.FallsInto k
    · rw [if_pos hfalls, if_pos hfalls]
      exact ((h.charts k).merge _).refresh average
    · rw [if_neg hfalls, if_neg hfalls, List.append_nil]
      exact h.charts k

theorem charted_foldl_step (applications : List Application) :
    Charted applications (applications.foldl step .empty) := by
  induction applications using List.reverseRecOn with
  | nil => exact charted_empty
  | append_singleton applications a ih =>
    rw [List.foldl_append]
    exact ih.concat a

theorem pricesIn_perm {applications applications' : List Application}
    (h : applications.Perm applications') (k : BucketKey) :
    (pricesIn applications k).Perm (pricesIn applications' k) :=
  (h.filter _).filterMap _

/-- Rolling up in a fresh store leaves what it leaves in memory. -/
theorem exists_leaves {β : Type} [Batch β] {pools : String → Prop} {start : β}
    {form : Decimal → Decimal} (hstart : Batch.Fresh pools start form) :
    ∃ f : Bucket → Bucket,
      (∀ {b : Bucket} {prices : List Decimal}, b.Charts prices → (f b).Charts (prices.map form)) ∧
      ∀ applications : List Application, (∀ a ∈ applications, pools a.pool.address) →
        ∃ totals, (applications.forM attempt).Leaves start pools
          (fun k => (applications.foldl step .empty).buckets[k]?.map f) totals := by
  obtain ⟨f, g, hform, hleaves⟩ := hstart.exists_leaves
  refine ⟨f, fun {b prices} h => ?_, fun applications hpools => ⟨_, hleaves
    (fun γ _ => applications.forM (attempt (β := γ))) _ (forM_attempt_memory applications .empty)
    fun shards hshards => Agree.forM fun a ha => ?_⟩⟩
  · obtain ⟨rfl, rfl, -⟩ | ⟨rfl, rfl, -⟩ := hform
    · rwa [List.map_id]
    · exact h.plain
  · exact (agree_attempt a.prices (hshards _ (hpools a ha)) a.record).bind fun _ _ _ =>
      Agree.pure trivial

end Application

end Rollup

open Rollup in
/-- **Bars chart their prices.** A bucket into which observations are folded, in any order and with
any prices, has the first price as its opening, the last one as its closing, the greatest as its
high, the least as its low, and counts them. So all four are there or none, the low and the high
enclose the others, and the counter tells whether they are there, unless there are so many prices
that it overflows. In another order the high and the low are the same. The same is true of every
bucket of either store, whatever was rolled up in it: its prices are those of the records of its
pool in its span, and it is stored just if there are such records. -/
theorem bars_chart_prices :
    (∀ (key : BucketKey) (os : List Observation),
      let b := os.foldl Bucket.merge (.empty key)
      let prices := os.filterMap (·.price)
      b.Charts prices ∧ b.IsBar ∧
        (prices.length < UInt64.size → (0 < b.priceCount ↔ b.opening.isSome)) ∧
        ∀ os', os.Perm os' → b.SameRange (os'.foldl Bucket.merge (.empty key))) ∧
    ∀ {β : Type} [Batch β] {pools : String → Prop} {start : β} {form : Decimal → Decimal},
      Batch.Fresh pools start form →
      ∃ buckets : List Application → BucketKey → Option Bucket,
        ∀ applications : List Application, (∀ a ∈ applications, pools a.pool.address) →
          (∃ totals, (applications.forM Application.attempt).Leaves start pools
            (buckets applications) totals) ∧
          (∀ k : BucketKey,
            (buckets applications k).isSome ↔ ∃ a ∈ applications, a.FallsInto k) ∧
          ∀ (k : BucketKey) (b : Bucket), buckets applications k = some b →
            let prices := (Application.pricesIn applications k).map form
            b.Charts prices ∧ b.IsBar ∧
              (prices.length < UInt64.size → (0 < b.priceCount ↔ b.opening.isSome)) ∧
              ∀ applications', applications.Perm applications' →
                ∀ b', buckets applications' k = some b' → b.SameRange b' := by
  constructor
  · intro key os b prices
    have hcharts := Bucket.charts_foldl_merge key os
    exact ⟨hcharts, hcharts.isBar, hcharts.priceCount_pos_iff, fun os' hperm =>
      hcharts.sameRange (Bucket.charts_foldl_merge key os') (hperm.filterMap _)⟩
  · intro β _ pools start form hstart
    obtain ⟨f, hf, hleaves⟩ := Application.exists_leaves hstart
    have hcharts {applications : List Application} {k : BucketKey} {b : Bucket}
        (hb : (applications.foldl Application.step .empty).buckets[k]?.map f = some b) :
        b.Charts ((Application.pricesIn applications k).map form) := by
      obtain ⟨stored, hstored, rfl⟩ := Option.map_eq_some_iff.1 hb
      have hcharted := (Application.charted_foldl_step applications).charts k
      rw [hstored] at hcharted
      exact hf hcharted
    refine ⟨_, fun applications hpools =>
      ⟨hleaves applications hpools, fun k => ?_, fun k b hb => ?_⟩⟩
    · rw [Option.isSome_map]
      exact (Application.charted_foldl_step applications).stored k
    refine ⟨hcharts hb, (hcharts hb).isBar, (hcharts hb).priceCount_pos_iff,
      fun applications' hperm b' hb' => ?_⟩
    exact (hcharts hb).sameRange (hcharts hb') ((Application.pricesIn_perm hperm k).map form)

open Rollup in
/-- Three swaps in a durable store, out of order and one of them at a negative price, and the same
swaps in another order. -/
theorem bars_chart_three_prices :
    let store := ((DurableStore.empty 2).assignPools ["pool"]).2
    let price : Decimal := ⟨true, 25, 1, by decide, by decide⟩
    let swap (txId : UInt64) (time : Int64) (price : Option Decimal) : Application :=
      ⟨fun _ => none, plainPool, plainSwap txId time price⟩
    let applications := [swap 2 65 (some (.ofCount 3)), swap 1 5 (some price), swap 3 70 none]
    let reordered := [swap 1 5 (some price), swap 3 70 none, swap 2 65 (some (.ofCount 3))]
    let key : BucketKey := ⟨"pool", .min5, 0⟩
    Batch.Fresh (· = "pool") store.view Decimal.unsignedZero ∧
      (∀ a ∈ applications, a.pool.address = "pool") ∧ applications.Perm reordered ∧
      ∃ buckets : List Application → BucketKey → Option Bucket,
        (∃ totals, (applications.forM Application.attempt).Leaves store.view (· = "pool")
          (buckets applications) totals) ∧
        (∃ totals, (reordered.forM Application.attempt).Leaves store.view (· = "pool")
          (buckets reordered) totals) ∧
        ∃ b b', buckets applications key = some b ∧ buckets reordered key = some b' ∧
          b.opening = some (.ofCount 3) ∧ SameOption b.high (some (.ofCount 3)) ∧
          SameOption b.low (some price) ∧ b.closing = some price ∧ b.priceCount = 2 ∧ b.IsBar ∧
          (0 < b.priceCount ↔ b.opening.isSome) ∧
          b'.opening = some price ∧ b'.closing = some (.ofCount 3) ∧ b.SameRange b' := by
  intro store price swap applications reordered key
  have hstart : Batch.Fresh (· = "pool") store.view Decimal.unsignedZero :=
    Batch.fresh_assignPools 2 "pool"
  have hpools : ∀ a ∈ applications, a.pool.address = "pool" := by
    simp [applications, swap, plainPool]
  have hperm : applications.Perm reordered := (List.perm_append_singleton _ [_, _]).symm
  refine ⟨hstart, hpools, hperm, ?_⟩
  obtain ⟨buckets, hbuckets⟩ := bars_chart_prices.2 hstart
  obtain ⟨hleaves, hstored, hbars⟩ := hbuckets applications hpools
  obtain ⟨hleaves', hstored', hbars'⟩ :=
    hbuckets reordered fun a ha => hpools a (hperm.mem_iff.2 ha)
  obtain ⟨b, hb⟩ := Option.isSome_iff_exists.1
    ((hstored key).2 ⟨_, List.mem_cons_self, by decide⟩)
  obtain ⟨b', hb'⟩ := Option.isSome_iff_exists.1
    ((hstored' key).2 ⟨_, List.mem_cons_self, by decide⟩)
  obtain ⟨hcharts, hbar, hcount, hrange⟩ := hbars key b hb
  obtain ⟨hcharts', -⟩ := hbars' key b' hb'
  have hprices : (Application.pricesIn applications key).map Decimal.unsignedZero =
      [.ofCount 3, price] := by decide
  rw [hprices] at hcharts
  have hhigh : IsExtreme (· ≤ ·) [.ofCount 3, price] (some (.ofCount 3)) :=
    (Decimal.isExtreme_singleton (.ofCount 3)).concat_max price
  have hlow : IsExtreme (· ≥ ·) [.ofCount 3, price] (some price) :=
    (Decimal.isExtreme_singleton (.ofCount 3)).concat_min price
  exact ⟨buckets, hleaves, hleaves', b, b', hb, hb', hcharts.opening,
    hcharts.high.sameOption_of_perm hhigh (.refl _), hcharts.low.sameOption_of_perm hlow (.refl _),
    hcharts.closing, hcharts.count, hbar, hcount (by decide), hcharts'.opening, hcharts'.closing,
    hrange reordered hperm b' hb'⟩

end PoolKlines
