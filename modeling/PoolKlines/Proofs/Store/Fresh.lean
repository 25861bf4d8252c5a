import PoolKlines.Proofs.Store.Refinement

/-!
# Empty stores of both kinds

What is rolled up in a store to which nothing was written is found there again: in memory as it is,
and in a durable store up to the sign of zeros.

* `Batch.Fresh` says that a batch is the first one of a store, and how its decimals are read back;
* `Staged.Leaves` says that a computation succeeds, and which buckets and totals it leaves;
* `Batch.Fresh.exists_leaves`: what is left in memory is left in each store;
* `Batch.Fresh.exists_leaves_apply` for records of one pool that are rolled up in turn.
-/

namespace PoolKlines

/-- The first batch of a store in memory, or of a durable store in which the pools have shards. The
function is what becomes of a decimal when it is written and read back. -/
inductive Batch.Fresh (pools : String → Prop) :
    {β : Type} → [Batch β] → β → (Decimal → Decimal) → Prop
  | memory (refused : Bool) : Fresh pools (⟨.empty, refused⟩ : MemoryBatch) id
  | durable {store : DurableStore} (blank : store.Blank)
      (assigned : ∀ pool, pools pool → store.shards.Assigned pool) :
      Fresh pools store.view Decimal.unsignedZero

/-- An empty durable store that has given a pool a shard is fresh. -/
theorem Batch.fresh_assignPools (shardCount : UInt16) (pool : String) :
    Fresh (· = pool) ((DurableStore.empty shardCount).assignPools [pool]).2.view
      Decimal.unsignedZero :=
  .durable ((DurableStore.blank_empty shardCount).assignPools _) fun _ hpool =>
    hpool ▸ DurableStore.assigned_assignPools _ List.mem_cons_self

/-- From a staged state the computation succeeds and leaves these buckets and totals of the
pools. -/
def Staged.Leaves {ε β : Type} [Batch β] (run : Staged ε β Unit) (start : β)
    (pools : String → Prop) (buckets : BucketKey → Option Bucket)
    (totals : String → Option PoolTotals) : Prop :=
  ∃ left, run start = .ok () left ∧
    (∀ key : BucketKey, pools key.pool → Batch.bucket? left key = .ok (buckets key)) ∧
    ∀ pool, pools pool → Batch.totals? left pool = .ok (totals pool)

/-- A computation leaves no other totals. -/
theorem Staged.Leaves.totals_eq {ε β : Type} [Batch β] {run : Staged ε β Unit} {start : β}
    {pools : String → Prop} {buckets buckets' : BucketKey → Option Bucket}
    {totals totals' : String → Option PoolTotals} (h : run.Leaves start pools buckets totals)
    (h' : run.Leaves start pools buckets' totals') {pool : String} (hpool : pools pool) :
    totals pool = totals' pool := by
  obtain ⟨left, hrun, -, htotals⟩ := h
  obtain ⟨left', hrun', -, htotals'⟩ := h'
  obtain rfl : left = left' := by
    rw [hrun] at hrun'
    cases hrun'
    rfl
  exact Except.ok.inj ((htotals pool hpool).symm.trans (htotals' pool hpool))

theorem Staged.leaves_memory {ε : Type} {run : Staged ε MemoryBatch Unit} {s : MemoryState}
    {refused : Bool} (h : run ⟨.empty, refused⟩ = .ok () ⟨s, refused⟩) (pools : String → Prop) :
    run.Leaves ⟨.empty, refused⟩ pools (s.buckets[·]?) (s.totals[·]?) :=
  ⟨_, h, fun _ _ => rfl, fun _ _ => rfl⟩

/-- What a computation leaves in memory, it leaves in a durable store up to the sign of zeros. -/
theorem DurableStore.Blank.leaves {store : DurableStore} (hblank : store.Blank)
    {pools : String → Prop} (hassigned : ∀ pool, pools pool → store.shards.Assigned pool)
    {ε ε' : Type} {run : Staged ε MemoryBatch Unit} {run' : Staged ε' DurableBatch Unit}
    (hagree : Agree (Paired store.shards) (fun _ _ => True) run run') {s : MemoryState}
    (h : run ⟨.empty, false⟩ = .ok () ⟨s, false⟩) :
    run'.Leaves store.view pools (fun key => s.buckets[key]?.map Bucket.plain)
      (fun pool => s.totals[pool]?.map PoolTotals.plain) := by
  have hpaired := (hblank.replicated (P := fun _ => True) trivial).paired.toPaired
  obtain ⟨_, m, _, d, hm, hd, -, hleft⟩ := hagree _ _ hpaired
  obtain rfl : (⟨s, false⟩ : MemoryBatch) = m := by
    have hsame := h.symm.trans hm
    rw [EStateM.Result.ok.injEq] at hsame
    exact hsame.2
  refine ⟨d, hd, fun key hkey => ?_, fun pool _ => hleft.mirrors.totals pool⟩
  obtain ⟨shard, hshard⟩ := hassigned key.pool hkey
  exact (hleft.bind_shard hshard _).trans (hleft.mirrors.bucket? hshard)

/-- What a computation leaves in memory, it leaves in each store, as its decimals are read back. -/
theorem Batch.Fresh.exists_leaves {β : Type} [Batch β] {pools : String → Prop} {start : β}
    {form : Decimal → Decimal} (hstart : Fresh pools start form) :
    ∃ (f : Bucket → Bucket) (g : PoolTotals → PoolTotals),
      (form = id ∧ f = id ∧ g = id ∨
        form = Decimal.unsignedZero ∧ f = Bucket.plain ∧ g = PoolTotals.plain) ∧
      ∀ {ε : Type} (run : ∀ (γ : Type) [Batch γ], Staged ε γ Unit) (s : MemoryState),
        (∀ refused, run MemoryBatch ⟨.empty, refused⟩ = .ok () ⟨s, refused⟩) →
        (∀ shards : ShardMap, (∀ pool, pools pool → shards.Assigned pool) →
          Agree (Paired shards) (fun _ _ => True) (run MemoryBatch) (run DurableBatch)) →
        (run β).Leaves start pools (fun key => s.buckets[key]?.map f)
          (fun pool => s.totals[pool]?.map g) := by
  cases hstart with
  | memory refused =>
    refine ⟨id, id, .inl ⟨rfl, rfl, rfl⟩, fun run s hrun _ => ?_⟩
    simpa using Staged.leaves_memory (hrun refused) pools
  | durable blank assigned =>
    refine ⟨Bucket.plain, PoolTotals.plain, .inr ⟨rfl, rfl, rfl⟩, fun run s hrun hagree => ?_⟩
    exact blank.leaves assigned (hagree _ assigned) (hrun false)

/-- Rolling up records of a pool in a fresh store leaves what it leaves in memory. -/
theorem Batch.Fresh.exists_leaves_apply {β : Type} [Batch β] {pool : PoolConfig} {start : β}
    {form : Decimal → Decimal} (hstart : Fresh (· = pool.address) start form)
    (prices : PriceSource) :
    ∃ (f : Bucket → Bucket) (g : PoolTotals → PoolTotals),
      (form = id ∧ f = id ∧ g = id ∨
        form = Decimal.unsignedZero ∧ f = Bucket.plain ∧ g = PoolTotals.plain) ∧
      ∀ records : List Record, (∀ record ∈ records, record.pool = pool.address) →
        let s := (records.map (Observation.ofRecord · pool prices)).foldl
          (MemoryState.rollUp pool.address) .empty
        (records.forM (Rollup.apply prices pool)).Leaves start (· = pool.address)
          (fun key => s.buckets[key]?.map f) (fun pool => s.totals[pool]?.map g) := by
  obtain ⟨f, g, hform, hleaves⟩ := hstart.exists_leaves
  refine ⟨f, g, hform, fun records h => ?_⟩
  refine hleaves (fun γ _ => records.forM (Rollup.apply (β := γ) prices pool)) _
    (fun refused => Rollup.forM_apply_memory .empty refused prices h) fun shards hshards => ?_
  exact Agree.forM fun record hrecord =>
    Rollup.agree_apply prices (hshards _ rfl) (h record hrecord)

end PoolKlines
