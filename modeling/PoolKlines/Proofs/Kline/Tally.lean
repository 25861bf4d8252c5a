import Mathlib.Algebra.Order.BigOperators.Group.List
import PoolKlines.Proofs.Decimal.Value
import PoolKlines.Proofs.Kline.Projection
import PoolKlines.Record.Build

/-!
# Tallies

Buckets and totals count volumes, trades and transactions in the same way. A transaction is counted
when its first record comes, which is told by its id, so that ids may not come back.

* `Tally` is what both count, and `Tally.count` what an observation adds to it;
* `RecordSource` is what a record is built from, and `RecordSource.swap?` the raw amounts that it
  trades;
* `Contribution` is a transaction with what its records are built from;
* `Tally.Agrees` relates a tally to the raw amounts: `Agrees.count` is the step for an observation,
  `Agrees.foldl_sources` the run over a transaction and `Agrees.foldl_run` that over all of them.
-/

namespace PoolKlines

/-- Volumes, trades and transactions, and the transaction that was counted last. -/
@[ext] structure Tally where
  volumes : Sides Decimal
  tradeCount : UInt64
  txCount : UInt64
  lastTxId : UInt64

namespace Tally

/-- Nothing counted. -/
def empty : Tally := ⟨.both .zero, 0, 0, 0⟩

/-- Count an observation. -/
def count (t : Tally) (o : Observation) : Tally where
  volumes := t.volumes.map₂ Decimal.saturatingAdd o.volumes
  tradeCount := if o.isTrade then t.tradeCount + 1 else t.tradeCount
  txCount := if o.txId ≠ t.lastTxId then t.txCount + 1 else t.txCount
  lastTxId := o.txId

end Tally

namespace Bucket

/-- What a bucket counts. -/
def tally (b : Bucket) : Tally := ⟨b.volumes, b.tradeCount, b.txCount, b.lastTxId⟩

theorem tally_merge (b : Bucket) (o : Observation) : (b.merge o).tally = b.tally.count o := by
  unfold merge mergeLatest
  cases o.price <;> dsimp only <;> split <;> rfl

theorem tally_foldl_merge (b : Bucket) (os : List Observation) :
    (os.foldl merge b).tally = os.foldl Tally.count b.tally := by
  induction os generalizing b with
  | nil => rfl
  | cons o os ih => rw [List.foldl_cons, ih, tally_merge, List.foldl_cons]

end Bucket

namespace PoolTotals

/-- What totals count. -/
def tally (t : PoolTotals) : Tally := ⟨t.volumes, t.tradeCount, t.txCount, t.lastTxId⟩

theorem tally_merge (t : PoolTotals) (o : Observation) : (t.merge o).tally = t.tally.count o := by
  unfold merge mergeLatest
  split <;> rfl

theorem tally_foldl_merge (t : PoolTotals) (os : List Observation) :
    (os.foldl merge t).tally = os.foldl Tally.count t.tally := by
  induction os generalizing t with
  | nil => rfl
  | cons o os ih => rw [List.foldl_cons, ih, tally_merge, List.foldl_cons]

end PoolTotals

/-! ### What records are built from -/

/-- What a record is built from: an operation of a V1 pool or an event of a V2 pool. -/
inductive RecordSource
  | operation (operation : Operation)
  | event (event : DecodedEvent)
  deriving DecidableEq

namespace RecordSource

/-- The address that the source gives for its pool. -/
def address : RecordSource → String
  | operation o => o.pool
  | event e => e.event.pool

/-- The record that is built. -/
def record? (pools : PoolSnapshot) (tx : TransactionMeta) : RecordSource → Option Record
  | operation o => Record.ofOperation? pools o tx
  | event e => Record.ofEvent? pools e tx

/-- The raw amounts that a swap trades. -/
def swap? : RecordSource → Option (Sides UInt64)
  | operation o => if o.kind = .swap then some o.amounts else none
  | event e =>
    match e.event with
    | .swap e =>
      match Direction.ofV2 e.direction with
      | .aToB => some ⟨e.amountIn, e.amountOut⟩
      | .bToA => some ⟨e.amountOut, e.amountIn⟩
    | _ => none

end RecordSource

/-- The fractional digits of the tokens' amounts, of which at most 28 count. -/
def PoolConfig.scales (pool : PoolConfig) : Sides Nat :=
  pool.tokens.map fun token => min token.decimals.toNat 28

/-- What an observation counts, given what its record was built from. -/
structure Observation.Counts (o : Observation) (pool : PoolConfig) (tx : TransactionMeta)
    (x : RecordSource) : Prop where
  txId_eq : o.txId = tx.id
  blockTime_eq : o.blockTime = tx.blockTime.toInt
  isTrade_eq : o.isTrade = x.swap?.isSome
  volume_a : o.volumes.a.Units ((x.swap?.map (·.a.toNat)).getD 0) pool.scales.a
  volume_b : o.volumes.b.Units ((x.swap?.map (·.b.toNat)).getD 0) pool.scales.b

theorem Observation.counts_of_swap? {x : RecordSource} {pool : PoolConfig} {record : Record}
    (prices : PriceSource) (hswap : record.isSwap = x.swap?.isSome)
    (hvolumes : record.volumes = (x.swap?.map pool.scale).getD (.both .zero)) :
    (ofRecord record pool prices).Counts pool record.header.tx x := by
  refine ⟨rfl, rfl, hswap, ?_, ?_⟩ <;>
  · simp only [ofRecord, hvolumes]
    cases x.swap? with
    | none => exact Decimal.units_zero _
    | some raw => exact Decimal.units_ofRaw _ _

/-- A source whose pool is known gives a record, which trades what the source does. -/
theorem RecordSource.exists_record {pools : PoolSnapshot} {pool : PoolConfig}
    {x : RecordSource} (h : pools.find? x.address = some pool) (tx : TransactionMeta)
    (prices : PriceSource) :
    ∃ record, x.record? pools tx = some record ∧ record.pool = pool.address ∧
      (Observation.ofRecord record pool prices).Counts pool tx x := by
  cases x with
  | operation o =>
    simp only [address] at h
    simp only [record?, Record.ofOperation?, h, Option.map_some]
    refine ⟨_, rfl, ?_, ?_⟩
    · cases o.kind <;> rfl
    · cases hk : o.kind <;>
      · refine Observation.counts_of_swap? prices ?_ ?_ <;> simp only [swap?, hk] <;> rfl
  | event e =>
    obtain ⟨name, index, e⟩ := e
    simp only [address] at h
    simp only [record?, Record.ofEvent?, h, Option.map_some]
    cases e with
    | swap e =>
      refine ⟨_, rfl, rfl, Observation.counts_of_swap? prices ?_ ?_⟩ <;>
        simp only [swap?] <;> cases Direction.ofV2 e.direction <;> rfl
    | increase e => exact ⟨_, rfl, rfl, Observation.counts_of_swap? prices rfl rfl⟩
    | decrease e => exact ⟨_, rfl, rfl, Observation.counts_of_swap? prices rfl rfl⟩
    | collect e => exact ⟨_, rfl, rfl, Observation.counts_of_swap? prices rfl rfl⟩

/-- A transaction and what its records are built from. -/
structure Contribution where
  tx : TransactionMeta
  sources : List RecordSource

namespace Contribution

/-- The records of a transaction. -/
def records (pools : PoolSnapshot) (c : Contribution) : List Record :=
  c.sources.filterMap (·.record? pools c.tx)

/-- The raw amounts of the swaps in a transaction. -/
def swaps (c : Contribution) : List (Sides UInt64) := c.sources.filterMap RecordSource.swap?

theorem length_records {pools : PoolSnapshot} {pool : PoolConfig} {c : Contribution}
    (h : ∀ x ∈ c.sources, pools.find? x.address = some pool) :
    (c.records pools).length = c.sources.length := by
  refine List.filterMap_length_eq_length.2 fun x hx => ?_
  obtain ⟨record, hrecord, -⟩ := x.exists_record (h x hx) c.tx fun _ => none
  rw [hrecord]
  rfl

end Contribution

/-- The number of sources in a run. -/
def sourceCount (run : List Contribution) : Nat := (run.map (·.sources.length)).sum

namespace Tally

/-- A tally agrees with the raw amounts of swaps, with a number of transactions, and with the id of
the last one. -/
structure Agrees (t : Tally) (scales : Sides Nat) (swaps : List (Sides UInt64)) (txs : Nat)
    (last : UInt64) : Prop where
  volume_a : t.volumes.a.Units (swaps.map (·.a.toNat)).sum scales.a
  volume_b : t.volumes.b.Units (swaps.map (·.b.toNat)).sum scales.b
  tradeCount_eq : t.tradeCount.toNat = swaps.length
  txCount_eq : t.txCount.toNat = txs
  lastTxId_eq : t.lastTxId = last

theorem agrees_empty (scales : Sides Nat) : empty.Agrees scales [] 0 0 :=
  ⟨Decimal.units_zero _, Decimal.units_zero _, rfl, rfl, rfl⟩

/-- Fewer than 32 bits of amounts of 64 bits have room in 96 bits. -/
theorem sum_lt_bound (amounts : List UInt64) (h : amounts.length < 2 ^ 32) :
    (amounts.map UInt64.toNat).sum < Decimal.bound := by
  have hle : (amounts.map UInt64.toNat).sum ≤ amounts.length * (2 ^ 64 - 1) := by
    have hsum := List.sum_le_card_nsmul (amounts.map UInt64.toNat) (2 ^ 64 - 1) fun n hn => by
      obtain ⟨a, -, rfl⟩ := List.mem_map.1 hn
      have := a.toNat_lt
      omega
    rwa [List.length_map, Nat.nsmul_eq_mul] at hsum
  have hmul : amounts.length * (2 ^ 64 - 1) ≤ 2 ^ 32 * (2 ^ 64 - 1) :=
    Nat.mul_le_mul_right _ h.le
  have hbound : 2 ^ 32 * (2 ^ 64 - 1) < Decimal.bound := by decide
  omega

theorem toNat_succ {n : UInt64} (h : n.toNat + 1 < 2 ^ 64) : (n + 1).toNat = n.toNat + 1 := by
  rw [UInt64.toNat_add, UInt64.toNat_one, Nat.mod_eq_of_lt h]

variable {pool : PoolConfig} {swaps : List (Sides UInt64)} {txs : Nat} {last : UInt64} {t : Tally}

/-- Counting an observation. -/
theorem Agrees.count (h : t.Agrees pool.scales swaps txs last) {o : Observation}
    {tx : TransactionMeta} {x : RecordSource} (ho : o.Counts pool tx x)
    (hswaps : swaps.length + 1 < 2 ^ 32) (htxs : txs + 1 < 2 ^ 32) :
    (t.count o).Agrees pool.scales (swaps ++ x.swap?.toList)
      (if tx.id = last then txs else txs + 1) tx.id := by
  have hlength : (swaps ++ x.swap?.toList).length < 2 ^ 32 := by
    cases x.swap? <;> simp <;> omega
  have hsum : ∀ side : Sides UInt64 → UInt64,
      ((swaps ++ x.swap?.toList).map fun raw => (side raw).toNat).sum =
        (swaps.map fun raw => (side raw).toNat).sum +
          (x.swap?.map fun raw => (side raw).toNat).getD 0 := fun side => by
    rw [List.map_append, List.sum_append]
    cases x.swap? <;> simp
  have hroom : ∀ side : Sides UInt64 → UInt64,
      ((swaps ++ x.swap?.toList).map fun raw => (side raw).toNat).sum < Decimal.bound :=
    fun side => by
      have hsumLt := sum_lt_bound ((swaps ++ x.swap?.toList).map side) (by rwa [List.length_map])
      rwa [List.map_map] at hsumLt
  refine ⟨?_, ?_, ?_, ?_, ho.txId_eq⟩
  · rw [hsum Sides.a]
    exact h.volume_a.saturatingAdd ho.volume_a (by rw [← hsum Sides.a]; exact hroom Sides.a)
  · rw [hsum Sides.b]
    exact h.volume_b.saturatingAdd ho.volume_b (by rw [← hsum Sides.b]; exact hroom Sides.b)
  · have hcount := h.tradeCount_eq
    simp only [Tally.count, ho.isTrade_eq]
    cases x.swap? with
    | none => simpa using hcount
    | some raw => simpa [hcount] using toNat_succ (n := t.tradeCount) (by omega)
  · have hcount := h.txCount_eq
    simp only [Tally.count, ho.txId_eq, h.lastTxId_eq, ne_eq]
    by_cases hlast : tx.id = last
    · simpa [hlast] using hcount
    · simpa [hlast, hcount] using toNat_succ (n := t.txCount) (by omega)

/-- Counting the records of one transaction. -/
theorem Agrees.foldl_sources (h : t.Agrees pool.scales swaps txs last) {pools : PoolSnapshot}
    (prices : PriceSource) (tx : TransactionMeta) {xs : List RecordSource}
    (hpool : ∀ x ∈ xs, pools.find? x.address = some pool)
    (hswaps : swaps.length + xs.length < 2 ^ 32) (htxs : txs + xs.length < 2 ^ 32) :
    (((xs.filterMap (·.record? pools tx)).map (.ofRecord · pool prices)).foldl Tally.count t).Agrees
      pool.scales (swaps ++ xs.filterMap RecordSource.swap?)
      (if xs = [] ∨ tx.id = last then txs else txs + 1) (if xs = [] then last else tx.id) := by
  induction xs generalizing t swaps txs last with
  | nil => simpa using h
  | cons x xs ih =>
    obtain ⟨hx, hxs⟩ := List.forall_mem_cons.1 hpool
    obtain ⟨record, hrecord, -, hcounts⟩ := x.exists_record hx tx prices
    rw [List.length_cons] at hswaps htxs
    have hlength : (swaps ++ x.swap?.toList).length + xs.length < 2 ^ 32 := by
      cases x.swap? <;> simp <;> omega
    -- after the first record the transaction has been counted
    have hrest := ih (h.count hcounts (by omega) (by omega)) hxs hlength (by split <;> omega)
    have hsplit : swaps ++ (x :: xs).filterMap RecordSource.swap? =
        swaps ++ x.swap?.toList ++ xs.filterMap RecordSource.swap? := by
      rw [List.append_assoc, List.filterMap_cons]
      cases x.swap? <;> rfl
    rw [List.filterMap_cons_some hrecord, List.map_cons, List.foldl_cons, hsplit]
    simpa using hrest

/-- Counting the records of transactions with increasing ids. -/
theorem Agrees.foldl_run (h : t.Agrees pool.scales swaps txs last) {pools : PoolSnapshot}
    (prices : PriceSource) {run : List Contribution}
    (hpool : ∀ c ∈ run, ∀ x ∈ c.sources, pools.find? x.address = some pool)
    (hlast : ∀ c ∈ run, last < c.tx.id) (hids : run.Pairwise fun c d => c.tx.id < d.tx.id)
    (hswaps : swaps.length + sourceCount run < 2 ^ 32) (htxs : txs + sourceCount run < 2 ^ 32) :
    ∃ last', ((run.flatMap fun c => (c.records pools).map (.ofRecord · pool prices)).foldl
      Tally.count t).Agrees pool.scales (swaps ++ run.flatMap Contribution.swaps)
        (txs + run.countP (·.sources ≠ [])) last' := by
  induction run generalizing t swaps txs last with
  | nil => exact ⟨last, by simpa using h⟩
  | cons c run ih =>
    obtain ⟨hc, hpool⟩ := List.forall_mem_cons.1 hpool
    obtain ⟨hlt, hlast⟩ := List.forall_mem_cons.1 hlast
    obtain ⟨hafter, hids⟩ := List.pairwise_cons.1 hids
    have hcount : sourceCount (c :: run) = c.sources.length + sourceCount run := by
      simp [sourceCount]
    rw [hcount] at hswaps htxs
    have hlength : c.swaps.length ≤ c.sources.length := List.length_filterMap_le _ _
    have hcontribution := h.foldl_sources prices c.tx hc (by omega) (by omega)
    have hnew : (c.sources = [] ∨ c.tx.id = last) ↔ c.sources = [] :=
      or_iff_left (ne_of_gt hlt)
    simp only [hnew] at hcontribution
    have hrest := ih hcontribution hpool (fun d hd => ?_) hids ?_ ?_
    · obtain ⟨last', hrest⟩ := hrest
      refine ⟨last', ?_⟩
      have htxs : (if c.sources = [] then txs else txs + 1) + run.countP (·.sources ≠ []) =
          txs + (c :: run).countP (·.sources ≠ []) := by
        rw [List.countP_cons]
        by_cases hnil : c.sources = [] <;> simp [hnil]
        omega
      rw [htxs, List.append_assoc] at hrest
      rw [List.flatMap_cons, List.flatMap_cons, List.foldl_append]
      exact hrest
    · split
      · exact hlast d hd
      · exact hafter d hd
    · rw [List.length_append]
      have : (c.sources.filterMap RecordSource.swap?).length ≤ c.sources.length := hlength
      omega
    · by_cases hnil : c.sources = []
      · rw [if_pos hnil]
        omega
      · have := List.length_pos_iff.2 hnil
        rw [if_neg hnil]
        omega

end Tally

end PoolKlines
