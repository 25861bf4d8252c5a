import Mathlib.Data.Option.NAry
import PoolKlines.Proofs.Store.Fresh

/-!
# The value locked

The value locked in a pool is what the balances in its totals are worth, as far as the balances and
the prices of the tokens are known. With fixed prices it is never stale, whichever observations
brought the balances and in whatever order they came.

* `PoolTotals.worths` lists what the known sides are worth, and `PoolTotals.UpToDate` says that the
  value locked is their sum;
* `UpToDate.merge`: an observation keeps it so;
* `PoolTotals.KnowsMore`: a known balance is never forgotten;
* `value_locked_up_to_date`: totals that records leave in either store.
-/

namespace PoolKlines

open Decimal (saturatingAdd saturatingMul unsignedZero)

namespace PoolTotals

/-- What the sides are worth of which both the balance and the price are known. -/
def worths (t : PoolTotals) (usdPrices : Sides (Option Decimal)) : List Decimal :=
  (Option.map₂ saturatingMul t.balances.a usdPrices.a).toList ++
    (Option.map₂ saturatingMul t.balances.b usdPrices.b).toList

/-- The value locked is the sum of what the known sides are worth, if any side is known. The sum has
the form in which decimals are kept. -/
def UpToDate (t : PoolTotals) (usdPrices : Sides (Option Decimal)) (form : Decimal → Decimal) :
    Prop :=
  t.valueLocked = if t.worths usdPrices = [] then none
    else some (form ((t.worths usdPrices).foldl saturatingAdd .zero))

/-- The one totals know the balance of each side of which the others do. -/
def KnowsMore (t u : PoolTotals) : Prop :=
  (u.balances.a.isSome → t.balances.a.isSome) ∧ (u.balances.b.isSome → t.balances.b.isSome)

variable {t u : PoolTotals} {usdPrices : Sides (Option Decimal)}

theorem KnowsMore.refl (t : PoolTotals) : t.KnowsMore t := ⟨id, id⟩

theorem KnowsMore.trans {v : PoolTotals} (h : t.KnowsMore u) (h' : u.KnowsMore v) :
    t.KnowsMore v :=
  ⟨h.1 ∘ h'.1, h.2 ∘ h'.2⟩

/-- Merging forgets no balance. -/
theorem knowsMore_merge (t : PoolTotals) (o : Observation) : (t.merge o).KnowsMore t := by
  unfold merge mergeLatest
  split
  · constructor
    · intro h
      show (o.balances.a.or t.balances.a).isSome
      rw [Option.isSome_or, h, Bool.or_true]
    · intro h
      show (o.balances.b.or t.balances.b).isSome
      rw [Option.isSome_or, h, Bool.or_true]
  · exact KnowsMore.refl t

theorem knowsMore_foldl_merge (t : PoolTotals) (os : List Observation) :
    (os.foldl merge t).KnowsMore t := by
  induction os generalizing t with
  | nil => exact KnowsMore.refl t
  | cons o os ih => exact (ih (t.merge o)).trans (t.knowsMore_merge o)

/-- What is computed as the value locked is the sum of what the known sides are worth. -/
theorem valueLocked_eq (t : PoolTotals) (usdPrices : Sides (Option Decimal)) :
    PoolKlines.valueLocked t.balances usdPrices = if t.worths usdPrices = [] then none
      else some ((t.worths usdPrices).foldl saturatingAdd .zero) := by
  have hside (balance price : Option Decimal) :
      sideValue balance price = Option.map₂ saturatingMul balance price := by
    cases balance <;> cases price <;> rfl
  rw [PoolKlines.valueLocked, hside, hside, worths]
  cases Option.map₂ saturatingMul t.balances.a usdPrices.a <;>
    cases Option.map₂ saturatingMul t.balances.b usdPrices.b <;> simp

theorem KnowsMore.worths_eq_nil (h : t.KnowsMore u) (hnil : t.worths usdPrices = []) :
    u.worths usdPrices = [] := by
  have hside {x y price : Option Decimal} (h : y.isSome → x.isSome)
      (hnil : (Option.map₂ saturatingMul x price).toList = []) :
      (Option.map₂ saturatingMul y price).toList = [] := by
    cases y with
    | none => rfl
    | some y =>
      obtain ⟨x, rfl⟩ := Option.isSome_iff_exists.1 (h rfl)
      cases price with
      | none => rfl
      | some price => cases hnil
  obtain ⟨ha, hb⟩ := List.append_eq_nil_iff.1 hnil
  exact List.append_eq_nil_iff.2 ⟨hside h.1 ha, hside h.2 hb⟩

theorem upToDate_empty (pool : String) (usdPrices : Sides (Option Decimal)) :
    (empty pool).UpToDate usdPrices id := rfl

/-- An observation at the same prices keeps the value locked up to date. -/
theorem UpToDate.merge (h : t.UpToDate usdPrices id) {o : Observation}
    (ho : o.usdPrices = usdPrices) : (t.merge o).UpToDate usdPrices id := by
  by_cases hgate : t.lastBlockTime ≤ o.blockTime
  · have hlocked : (t.merge o).valueLocked =
        (PoolKlines.valueLocked (t.merge o).balances usdPrices).or t.valueLocked := by
      subst ho
      have hgate : (t.mergeVolumes o).lastBlockTime ≤ o.blockTime := hgate
      simp only [PoolTotals.merge, mergeLatest, if_pos hgate]
      rfl
    have hknows := t.knowsMore_merge o
    generalize t.merge o = u at hlocked hknows
    rw [valueLocked_eq] at hlocked
    rw [UpToDate, hlocked]
    by_cases hnil : u.worths usdPrices = []
    · -- what is unknown now was unknown before
      rw [if_pos hnil, if_pos hnil, Option.none_or, h, if_pos (hknows.worths_eq_nil hnil)]
    · rw [if_neg hnil, if_neg hnil, Option.some_or]
      rfl
  · have hsame : t.merge o = t.mergeVolumes o := if_neg hgate
    rw [hsame]
    exact h

theorem UpToDate.foldl_merge (h : t.UpToDate usdPrices id) {os : List Observation}
    (hos : ∀ o ∈ os, o.usdPrices = usdPrices) :
    (os.foldl PoolTotals.merge t).UpToDate usdPrices id := by
  induction os generalizing t with
  | nil => exact h
  | cons o os ih =>
    obtain ⟨ho, hos⟩ := List.forall_mem_cons.1 hos
    exact ih (h.merge ho) hos

/-! ### Totals that were written and read back -/

theorem KnowsMore.plain (h : t.KnowsMore u) : t.plain.KnowsMore u.plain := by
  have hside (balance : Option Decimal) : (balance.map unsignedZero).isSome = balance.isSome :=
    Option.isSome_map
  constructor
  · show (u.balances.a.map unsignedZero).isSome → (t.balances.a.map unsignedZero).isSome
    rw [hside, hside]
    exact h.1
  · show (u.balances.b.map unsignedZero).isSome → (t.balances.b.map unsignedZero).isSome
    rw [hside, hside]
    exact h.2

theorem worths_plain (t : PoolTotals) (usdPrices : Sides (Option Decimal)) :
    t.plain.worths usdPrices = t.worths usdPrices := by
  have hside (balance price : Option Decimal) :
      Option.map₂ saturatingMul (balance.map unsignedZero) price =
        Option.map₂ saturatingMul balance price := by
    cases balance <;> cases price <;> simp
  rw [worths, worths, ← hside t.balances.a, ← hside t.balances.b]
  rfl

theorem UpToDate.plain (h : t.UpToDate usdPrices id) :
    t.plain.UpToDate usdPrices unsignedZero := by
  rw [UpToDate, worths_plain]
  show t.valueLocked.map unsignedZero = _
  rw [h]
  split <;> rfl

end PoolTotals

/-- **The value locked is never stale.** Rolling up records of a pool in an empty store of either
kind, in any order of their block times and with fixed prices of tokens, succeeds, and from the
first record on there are totals. After each record the value locked in the totals is the sum, over
the sides of which these totals know the balance and of which the price is known, of the balance
times the price, and it is there just if there is such a side. A known balance stays known. -/
theorem value_locked_up_to_date (prices : PriceSource) (pool : PoolConfig) (records : List Record)
    (h : ∀ record ∈ records, record.pool = pool.address) {β : Type} [Batch β] {start : β}
    {form : Decimal → Decimal} (hstart : Batch.Fresh (· = pool.address) start form) :
    ∃ totals : Nat → String → Option PoolTotals,
      (∀ n, ∃ buckets, ((records.take n).forM (Rollup.apply prices pool)).Leaves start
        (· = pool.address) buckets (totals n)) ∧
      (∀ n, totals n pool.address = none ↔ records.take n = []) ∧
      (∀ n t, totals n pool.address = some t →
        t.UpToDate (pool.tokens.map fun token => prices token.mint) form) ∧
      ∀ m n t, m ≤ n → totals m pool.address = some t →
        ∃ u, totals n pool.address = some u ∧ u.KnowsMore t := by
  obtain ⟨f, g, hform, hleaves⟩ := hstart.exists_leaves_apply prices
  let history (n : Nat) := (records.take n).map (Observation.ofRecord · pool prices)
  have hstored {n : Nat} {t : PoolTotals} (ht : ((history n).foldl
      (MemoryState.rollUp pool.address) .empty).totals[pool.address]? = some t) :
      history n ≠ [] ∧ t = (history n).foldl PoolTotals.merge (.empty pool.address) := by
    rw [MemoryState.getElem?_totals_foldl_rollUp_empty] at ht
    split at ht
    · cases ht
    · exact ⟨by assumption, (Option.some.inj ht).symm⟩
  refine ⟨_, fun n => ⟨_, hleaves (records.take n) fun record hrecord =>
    h record (List.mem_of_mem_take hrecord)⟩, fun n => ?_, fun n t ht => ?_, fun m n t hmn ht => ?_⟩
  · rw [Option.map_eq_none_iff, MemoryState.getElem?_totals_foldl_rollUp_empty]
    simp only [List.map_eq_nil_iff, ite_eq_left_iff, reduceCtorEq, imp_false, not_not]
  · obtain ⟨stored, hmemory, rfl⟩ := Option.map_eq_some_iff.1 ht
    obtain ⟨-, rfl⟩ := hstored hmemory
    have hfixed : ∀ o ∈ history n,
        o.usdPrices = pool.tokens.map fun token => prices token.mint := by
      intro o ho
      obtain ⟨record, -, rfl⟩ := List.mem_map.1 ho
      rfl
    have hvalue := (PoolTotals.upToDate_empty pool.address _).foldl_merge hfixed
    obtain ⟨rfl, -, rfl⟩ | ⟨rfl, -, rfl⟩ := hform
    · exact hvalue
    · exact hvalue.plain
  · obtain ⟨stored, hmemory, rfl⟩ := Option.map_eq_some_iff.1 ht
    obtain ⟨hne, rfl⟩ := hstored hmemory
    obtain ⟨rest, hrest⟩ : history m <+: history n :=
      (List.take_prefix_take_left (l := records) hmn).map _
    have hknows := PoolTotals.knowsMore_foldl_merge
      ((history m).foldl PoolTotals.merge (.empty pool.address)) rest
    rw [← List.foldl_append, hrest] at hknows
    have hlater := MemoryState.getElem?_totals_foldl_rollUp_empty pool.address (history n)
    rw [if_neg fun hnil => hne (List.append_eq_nil_iff.1 (hrest.trans hnil)).1] at hlater
    refine ⟨_, Option.map_eq_some_iff.2 ⟨_, hlater, rfl⟩, ?_⟩
    obtain ⟨-, -, rfl⟩ | ⟨-, -, rfl⟩ := hform
    · exact hknows
    · exact hknows.plain

/-- A collection of fees from `plainPool`, of which only the balances count here. -/
def plainCollect (txId : UInt64) (blockTime : Int64) (balances : Sides (Option Decimal)) : Record :=
  .collect {
    header := ⟨.v2, "pool", "user", ⟨txId, "signature", txId, blockTime⟩, 0⟩
    fees := .both .zero
    balances }

/-- Three records of a pool in a durable store. The second one is too late to count, and the third
one knows the other balance. -/
theorem value_locked_of_three_records :
    let store := ((DurableStore.empty 2).assignPools ["pool"]).2
    let prices : PriceSource := fun mint =>
      some (if mint = "mint-a" then .ofCount 3 else .ofCount 5)
    let records := [plainCollect 1 100 ⟨some (.ofCount 4), none⟩,
      plainCollect 2 50 ⟨some (.ofCount 9), some (.ofCount 9)⟩,
      plainCollect 3 100 ⟨none, some (.ofCount 2)⟩]
    (∀ record ∈ records, record.pool = plainPool.address) ∧
      Batch.Fresh (· = plainPool.address) store.view Decimal.unsignedZero ∧
      ∃ totals : Nat → String → Option PoolTotals,
        (∀ n, ∃ buckets, ((records.take n).forM (Rollup.apply prices plainPool)).Leaves store.view
          (· = plainPool.address) buckets (totals n)) ∧
        ∃ t u, totals 2 "pool" = some t ∧ totals 3 "pool" = some u ∧
          t.balances = ⟨some (.ofCount 4), none⟩ ∧ t.valueLocked = some (.ofCount 12) ∧
          u.balances = ⟨some (.ofCount 4), some (.ofCount 2)⟩ ∧
          u.valueLocked = some (.ofCount 22) ∧
          u.UpToDate ⟨some (.ofCount 3), some (.ofCount 5)⟩ Decimal.unsignedZero ∧
          u.KnowsMore t := by
  intro store prices records
  have hrecords : ∀ record ∈ records, record.pool = plainPool.address := by
    simp [records, plainCollect, Record.pool, Record.header, plainPool]
  have hstart : Batch.Fresh (· = plainPool.address) store.view Decimal.unsignedZero :=
    Batch.fresh_assignPools 2 "pool"
  obtain ⟨totals, hleaves, -, hvalue, hknows⟩ :=
    value_locked_up_to_date prices plainPool records hrecords hstart
  -- the totals are those in memory, up to the sign of zeros
  obtain ⟨f, g, hform, hmemory⟩ := hstart.exists_leaves_apply prices
  obtain ⟨-, -, rfl⟩ := hform.resolve_left fun hsame =>
    absurd (congrFun hsame.1 ⟨true, 0, 0, by decide, by decide⟩) (by decide)
  let state (n : Nat) := ((records.take n).map (Observation.ofRecord · plainPool prices)).foldl
    (MemoryState.rollUp plainPool.address) .empty
  have htotals (n : Nat) : totals n "pool" = ((state n).totals["pool"]?).map PoolTotals.plain := by
    obtain ⟨buckets, hbuckets⟩ := hleaves n
    exact hbuckets.totals_eq (hmemory (records.take n) fun record hrecord =>
      hrecords record (List.mem_of_mem_take hrecord)) rfl
  have hsecond : (((state 2).totals["pool"]?).map PoolTotals.plain).map
      (fun t => (t.balances, t.valueLocked)) =
        some (⟨some (.ofCount 4), none⟩, some (.ofCount 12)) := by decide +kernel
  have hthird : (((state 3).totals["pool"]?).map PoolTotals.plain).map
      (fun t => (t.balances, t.valueLocked)) =
        some (⟨some (.ofCount 4), some (.ofCount 2)⟩, some (.ofCount 22)) := by decide +kernel
  obtain ⟨t, ht, hlocked⟩ := Option.map_eq_some_iff.1 hsecond
  obtain ⟨u, hu, hlocked'⟩ := Option.map_eq_some_iff.1 hthird
  rw [← htotals] at ht hu
  obtain ⟨u', hu', hmore⟩ := hknows 2 3 t (by decide) ht
  obtain rfl : u' = u := Option.some.inj (hu'.symm.trans hu)
  exact ⟨hrecords, hstart, totals, hleaves, t, u', ht, hu, congrArg Prod.fst hlocked,
    congrArg Prod.snd hlocked, congrArg Prod.fst hlocked', congrArg Prod.snd hlocked',
    hvalue 3 u' hu, hmore⟩

end PoolKlines
