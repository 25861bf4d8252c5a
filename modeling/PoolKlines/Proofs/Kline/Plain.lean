import PoolKlines.Kline.Totals
import PoolKlines.Proofs.Decimal.Sign

/-!
# Buckets and totals without minus zeros

* `Bucket.plain` and `PoolTotals.plain` keep every decimal with its value and its scale, and take
  the sign from zeros;
* `Bucket.merge_congr` and `PoolTotals.merge_congr`: observations are folded in alike;
* `Rollup.carriedValues_congr` and `meanOf?_congr`: averages are backfilled alike.
-/

namespace PoolKlines

open Decimal (unsignedZero)

/-- The decimals of both sides, without the sign of a zero. -/
abbrev Sides.plain (s : Sides Decimal) : Sides Decimal := s.map unsignedZero

/-- What is known of both sides, without the sign of a zero. -/
abbrev Sides.plainOption (s : Sides (Option Decimal)) : Sides (Option Decimal) :=
  s.map (Option.map unsignedZero)

/-! ### Buckets -/

namespace Bucket

/-- The same bucket, with no minus zero. -/
def plain (b : Bucket) : Bucket :=
  { b with
    opening := b.opening.map unsignedZero
    high := b.high.map unsignedZero
    low := b.low.map unsignedZero
    closing := b.closing.map unsignedZero
    average := b.average.map unsignedZero
    priceSum := b.priceSum.unsignedZero
    volumes := b.volumes.plain
    quoteVolume := b.quoteVolume.unsignedZero
    balances := b.balances.plainOption
    usdPrices := b.usdPrices.plainOption }

@[simp] theorem key_plain (b : Bucket) : b.plain.key = b.key := rfl

@[simp] theorem average_plain (b : Bucket) : b.plain.average = b.average.map unsignedZero := rfl

@[simp] theorem plain_plain (b : Bucket) : b.plain.plain = b.plain := by
  simp [plain, Sides.map, Function.comp_def]

@[simp] theorem priceCount_plain (b : Bucket) : b.plain.priceCount = b.priceCount := rfl

theorem key_eq_of_plain_eq {b c : Bucket} (h : b.plain = c.plain) : b.key = c.key := by
  rw [← b.key_plain, h, c.key_plain]

theorem priceCount_eq_of_plain_eq {b c : Bucket} (h : b.plain = c.plain) :
    b.priceCount = c.priceCount := by
  rw [← b.priceCount_plain, h, c.priceCount_plain]

theorem average_eq_of_plain_eq {b c : Bucket} (h : b.plain = c.plain) :
    b.average.map unsignedZero = c.average.map unsignedZero := by
  rw [← b.average_plain, h, c.average_plain]

/-- The bucket with another average. -/
def withAverage (b : Bucket) (average : Option Decimal) : Bucket := { b with average }

theorem withAverage_congr {b c : Bucket} (h : b.plain = c.plain) {x y : Option Decimal}
    (hxy : x.map unsignedZero = y.map unsignedZero) :
    (b.withAverage x).plain = (c.withAverage y).plain := by
  change b.plain.withAverage (x.map unsignedZero) = c.plain.withAverage (y.map unsignedZero)
  rw [h, hxy]

theorem plain_mergePrice (b : Bucket) (price : Decimal) :
    (b.plain.mergePrice price).plain = (b.mergePrice price).plain := by
  have hsum : (b.plain.priceSum.saturatingAdd price).unsignedZero =
      (b.priceSum.saturatingAdd price).unsignedZero :=
    Decimal.unsignedZero_saturatingAdd ..
  have haverage (n : Decimal) : (b.plain.priceSum.saturatingAdd price).div? n =
      (b.priceSum.saturatingAdd price).div? n :=
    Decimal.div?_congr hsum n
  have hopening : b.plain.opening = b.opening.map unsignedZero := rfl
  have hhigh : b.plain.high = b.high.map unsignedZero := rfl
  have hlow : b.plain.low = b.low.map unsignedZero := rfl
  simp only [mergePrice, hopening, hhigh, hlow, haverage, average_plain]
  cases b.opening <;> cases b.high <;> cases b.low <;>
    simp [plain, Option.map_or, Function.comp_def, Decimal.unsignedZero_max,
      Decimal.unsignedZero_min, Sides.map]

theorem plain_mergeVolumes (b : Bucket) (o : Observation) :
    (b.plain.mergeVolumes o).plain = (b.mergeVolumes o).plain := by
  simp [plain, mergeVolumes, Sides.map, Sides.map₂, Function.comp_def]

theorem plain_mergeLatest (b : Bucket) (o : Observation) :
    (b.plain.mergeLatest o).plain = (b.mergeLatest o).plain := by
  have htime : b.plain.maxBlockTime = b.maxBlockTime := rfl
  simp only [mergeLatest, htime]
  split
  · simp [plain, Sides.map, Sides.map₂, Option.map_or, Function.comp_def]
  · exact b.plain_plain

theorem mergePrice_congr {b c : Bucket} (h : b.plain = c.plain) (price : Decimal) :
    (b.mergePrice price).plain = (c.mergePrice price).plain := by
  rw [← plain_mergePrice, h, plain_mergePrice]

theorem mergeVolumes_congr {b c : Bucket} (h : b.plain = c.plain) (o : Observation) :
    (b.mergeVolumes o).plain = (c.mergeVolumes o).plain := by
  rw [← plain_mergeVolumes, h, plain_mergeVolumes]

theorem mergeLatest_congr {b c : Bucket} (h : b.plain = c.plain) (o : Observation) :
    (b.mergeLatest o).plain = (c.mergeLatest o).plain := by
  rw [← plain_mergeLatest, h, plain_mergeLatest]

/-- An observation is folded alike into two buckets that agree up to the sign of zeros. -/
theorem merge_congr {b c : Bucket} (h : b.plain = c.plain) (o : Observation) :
    (b.merge o).plain = (c.merge o).plain := by
  unfold merge
  cases o.price with
  | none => exact mergeLatest_congr (mergeVolumes_congr h o) o
  | some price => exact mergeLatest_congr (mergeVolumes_congr (mergePrice_congr h price) o) o

end Bucket

/-! ### Totals -/

theorem sideValue_or_map_unsignedZero (new old price : Option Decimal) :
    sideValue (new.or (old.map unsignedZero)) price = sideValue (new.or old) price := by
  cases new <;> cases old <;> cases price <;> simp [sideValue]

namespace PoolTotals

/-- The same totals, with no minus zero. -/
def plain (t : PoolTotals) : PoolTotals :=
  { t with
    volumes := t.volumes.plain
    quoteVolume := t.quoteVolume.unsignedZero
    fees := t.fees.plain
    balances := t.balances.plainOption
    valueLocked := t.valueLocked.map unsignedZero }

@[simp] theorem pool_plain (t : PoolTotals) : t.plain.pool = t.pool := rfl

@[simp] theorem plain_plain (t : PoolTotals) : t.plain.plain = t.plain := by
  simp [plain, Sides.map, Function.comp_def]

theorem plain_mergeVolumes (t : PoolTotals) (o : Observation) :
    (t.plain.mergeVolumes o).plain = (t.mergeVolumes o).plain := by
  simp [plain, mergeVolumes, Sides.map, Sides.map₂, Function.comp_def]

theorem plain_mergeLatest (t : PoolTotals) (o : Observation) :
    (t.plain.mergeLatest o).plain = (t.mergeLatest o).plain := by
  have htime : t.plain.lastBlockTime = t.lastBlockTime := rfl
  have hlocked : t.plain.valueLocked = t.valueLocked.map unsignedZero := rfl
  have hworth : PoolKlines.valueLocked (o.balances.map₂ Option.or t.plain.balances) o.usdPrices =
      PoolKlines.valueLocked (o.balances.map₂ Option.or t.balances) o.usdPrices := by
    simp only [PoolKlines.valueLocked, plain, Sides.map₂_a, Sides.map₂_b, Sides.map_a, Sides.map_b,
      sideValue_or_map_unsignedZero]
  simp only [mergeLatest, htime, hworth, hlocked]
  split
  · simp [plain, Sides.map, Sides.map₂, Option.map_or, Function.comp_def]
  · exact t.plain_plain

/-- An observation is folded alike into totals that agree up to the sign of zeros. -/
theorem merge_congr {t u : PoolTotals} (h : t.plain = u.plain) (o : Observation) :
    (t.merge o).plain = (u.merge o).plain := by
  have hvolumes : (t.mergeVolumes o).plain = (u.mergeVolumes o).plain := by
    rw [← plain_mergeVolumes, h, plain_mergeVolumes]
  rw [merge, merge, ← plain_mergeLatest, hvolumes, plain_mergeLatest]

end PoolTotals

/-! ### Averages -/

theorem carryForward_map {α β : Type} (f : α → β) (seed : Option α) (values : List (Option α)) :
    carryForward (seed.map f) (values.map (Option.map f)) =
      (carryForward seed values).map (Option.map f) := by
  induction values generalizing seed with
  | nil => rfl
  | cons value values ih =>
    rw [List.map_cons, carryForward, ← Option.map_or, ih, carryForward, List.map_cons]

theorem filterMap_id_map {α β : Type} (f : α → β) (values : List (Option α)) :
    (values.map (Option.map f)).filterMap id = (values.filterMap id).map f := by
  rw [List.filterMap_map, List.map_filterMap]
  rfl

theorem meanOf?_congr {values values' : List Decimal}
    (h : values.map unsignedZero = values'.map unsignedZero) :
    meanOf? values = meanOf? values' := by
  rw [← meanOf?_map_unsignedZero values, h, meanOf?_map_unsignedZero]

theorem bind_average_plain (b : Option Bucket) :
    (b.map Bucket.plain).bind Bucket.average = (b.bind Bucket.average).map unsignedZero := by
  cases b <;> rfl

namespace Rollup

theorem slotAverages_map_plain (children : List Bucket) (first step window : Int) :
    slotAverages (children.map Bucket.plain) first step window =
      (slotAverages children first step window).map (Option.map unsignedZero) := by
  have hslot (start : Int) :
      ((children.map Bucket.plain).find? (·.key.start = start)).bind Bucket.average =
        ((children.find? (·.key.start = start)).bind Bucket.average).map unsignedZero := by
    rw [List.find?_map, bind_average_plain]
    rfl
  simp only [slotAverages, List.foldl_map, Bucket.key_plain, hslot, List.map_map]
  rfl

/-- The values that a coarser average is the mean of: those of the slots, carried forward. -/
def carriedValues (children : List Bucket) (earlier : Option Bucket) (first step window : Int) :
    List Decimal :=
  (carryForward (earlier.bind Bucket.average)
    (slotAverages children first step window)).filterMap id

theorem carriedValues_congr {children children' : List Bucket} {earlier earlier' : Option Bucket}
    (hchildren : children.map Bucket.plain = children'.map Bucket.plain)
    (hearlier : earlier.map Bucket.plain = earlier'.map Bucket.plain) (first step window : Int) :
    (carriedValues children earlier first step window).map unsignedZero =
      (carriedValues children' earlier' first step window).map unsignedZero := by
  have hplain (children : List Bucket) (earlier : Option Bucket) :
      (carriedValues children earlier first step window).map unsignedZero =
        carriedValues (children.map Bucket.plain) (earlier.map Bucket.plain) first step window := by
    rw [carriedValues, ← filterMap_id_map, ← carryForward_map, ← bind_average_plain,
      ← slotAverages_map_plain, carriedValues]
  rw [hplain, hplain, hchildren, hearlier]

end Rollup

end PoolKlines
