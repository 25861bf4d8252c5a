import Mathlib.Data.List.ReduceOption
import PoolKlines.Proofs.Store.Refinement

/-!
# Rows read back

* `Bucket.plain_eq_self_iff` and `PoolTotals.plain_eq_self_iff`: what a row loses is the sign of
  zeros, and nothing else;
* `filter_putRow` and `mem_putRow_same`: what putting a row does to the rows of other keys and of
  its own;
* `RowWritten` says what a write does to the rows of a table and to the reads of it, and
  `DurableBatch.rowWritten_putBucket` and `DurableBatch.rowWritten_putTotals` say it of both tables;
* `rows_survive_round_trip` puts these together.
-/

namespace PoolKlines

open Decimal (unsignedZero)

/-! ### Values that a row keeps -/

theorem Decimal.unsignedZero_eq_self_iff {d : Decimal} : d.unsignedZero = d ↔ ¬ d.IsMinusZero := by
  constructor
  · intro h
    exact h ▸ d.not_isMinusZero_unsignedZero
  · intro h
    by_cases hzero : d.IsZero
    · have hpositive : d.negative = false := by
        simpa using fun hnegative => h ⟨hnegative, hzero⟩
      exact Decimal.ext (by simp [unsignedZero, hpositive]) rfl rfl
    · exact unsignedZero_of_not_isZero hzero

theorem map_unsignedZero_eq_self_iff {x : Option Decimal} :
    x.map unsignedZero = x ↔ ∀ d ∈ x, ¬ d.IsMinusZero := by
  cases x <;> simp [Decimal.unsignedZero_eq_self_iff]

/-- The decimals of a bucket that are present. -/
def Bucket.decimals (b : Bucket) : List Decimal :=
  [b.priceSum, b.volumes.a, b.volumes.b, b.quoteVolume] ++
    [b.opening, b.high, b.low, b.closing, b.average, b.balances.a, b.balances.b, b.usdPrices.a,
      b.usdPrices.b].reduceOption

/-- The decimals of totals that are present. -/
def PoolTotals.decimals (t : PoolTotals) : List Decimal :=
  [t.volumes.a, t.volumes.b, t.quoteVolume, t.fees.a, t.fees.b] ++
    [t.balances.a, t.balances.b, t.valueLocked].reduceOption

theorem Bucket.plain_eq_self_iff {b : Bucket} :
    b.plain = b ↔ ∀ d ∈ b.decimals, ¬ d.IsMinusZero := by
  obtain ⟨_, _, _, _, _, _, _, _, ⟨_, _⟩, _, ⟨_, _⟩, ⟨_, _⟩, _, _, _, _⟩ := b
  simp only [plain, mk.injEq, decimals, Sides.map, Sides.mk.injEq, map_unsignedZero_eq_self_iff,
    Decimal.unsignedZero_eq_self_iff, List.mem_append, List.mem_cons, List.reduceOption_mem_iff,
    List.not_mem_nil, or_false, or_imp, forall_and, forall_eq, Option.mem_def,
    eq_comm (a := some _)]
  tauto

theorem PoolTotals.plain_eq_self_iff {t : PoolTotals} :
    t.plain = t ↔ ∀ d ∈ t.decimals, ¬ d.IsMinusZero := by
  obtain ⟨_, ⟨_, _⟩, _, ⟨_, _⟩, _, _, ⟨_, _⟩, _, _, _⟩ := t
  simp only [plain, mk.injEq, decimals, Sides.map, Sides.mk.injEq, map_unsignedZero_eq_self_iff,
    Decimal.unsignedZero_eq_self_iff, List.mem_append, List.mem_cons, List.reduceOption_mem_iff,
    List.not_mem_nil, or_false, or_imp, forall_and, forall_eq, Option.mem_def,
    eq_comm (a := some _)]
  tauto

/-! ### Cells of numbers -/

/-- A cell that holds a whole number of 64 bits. -/
def NumberCell.IsSigned (c : NumberCell) : Prop := ∃ n : Int64, c = .ofInt64 n

theorem NumberCell.isSigned_ofUInt64 (n : UInt64) : (ofUInt64 n).IsSigned := ⟨n.toInt64, rfl⟩

theorem IsTime.isSigned {time : Int} (h : IsTime time) : (NumberCell.integer time).IsSigned := by
  obtain ⟨n, rfl⟩ := h
  exact ⟨n, rfl⟩

/-- The cells of numbers in a row of a bucket. -/
def BucketRow.numbers (r : BucketRow) : List NumberCell :=
  [r.start, r.priceCount, r.txCount, r.tradeCount, r.maxBlockTime, r.lastTxId]

/-- The cells of numbers in a row of totals. -/
def TotalsRow.numbers (r : TotalsRow) : List NumberCell :=
  [r.txCount, r.tradeCount, r.lastBlockTime, r.lastTxId]

theorem BucketRow.isSigned_numbers {b : Bucket} (hstart : IsTime b.key.start)
    (htime : IsTime b.maxBlockTime) (shard : UInt16) :
    ∀ c ∈ (ofBucket shard b).numbers, c.IsSigned := by
  simp [numbers, ofBucket, NumberCell.isSigned_ofUInt64, hstart.isSigned, htime.isSigned]

theorem TotalsRow.isSigned_numbers {t : PoolTotals} (htime : IsTime t.lastBlockTime) :
    ∀ c ∈ (ofTotals t).numbers, c.IsSigned := by
  simp [numbers, ofTotals, NumberCell.isSigned_ofUInt64, htime.isSigned]

/-! ### Rows of one key and of others -/

section

variable {ρ : Type} {same : ρ → Bool} {row : ρ}

theorem filter_putRow (hrow : same row = true) (rows : List ρ) :
    (putRow same row rows).filter (fun r => !same r) = rows.filter fun r => !same r := by
  unfold putRow
  split
  next hany =>
    clear hany
    induction rows with
    | nil => rfl
    | cons r rows ih =>
      by_cases hr : same r = true
      · simpa [hr, hrow] using ih
      · simpa [hr] using ih
  next => simp [hrow]

/-- The row that was put is the only one of its key. -/
theorem mem_putRow_same (hrow : same row = true) (rows : List ρ) (r : ρ) :
    r ∈ putRow same row rows ∧ same r = true ↔ r = row := by
  unfold putRow
  split
  next hany =>
    obtain ⟨r', hr', hsame⟩ := List.any_eq_true.1 hany
    constructor
    · rintro ⟨hr, hsame⟩
      obtain ⟨r', -, rfl⟩ := List.mem_map.1 hr
      by_cases hr' : same r' = true
      · rw [if_pos hr']
      · rw [if_neg hr'] at hsame
        exact absurd hsame hr'
    · rintro rfl
      exact ⟨List.mem_map.2 ⟨r', hr', if_pos hsame⟩, hrow⟩
  next hany =>
    have hnone : ∀ r ∈ rows, same r ≠ true := fun r hr hsame =>
      hany (List.any_eq_true.2 ⟨r, hr, hsame⟩)
    rw [List.mem_append, List.mem_singleton]
    constructor
    · rintro ⟨hr | rfl, hsame⟩
      · exact absurd hsame (hnone r hr)
      · rfl
    · rintro rfl
      exact ⟨.inr rfl, hrow⟩

end

/-! ### Writes -/

/-- What a write of a row does to a batch, of which a table and the reads of this table are looked
at. -/
structure RowWritten {κ α ρ : Type} (read : DurableBatch → κ → Except StoreError (Option α))
    (rows : Database → List ρ) (same : ρ → Bool) (old new : DurableBatch) (key : κ) (row : ρ)
    (value : α) : Prop where
  /-- The value is read under its key. -/
  read_self : read new key = .ok (some value)
  /-- Under other keys the same is read as before. -/
  read_other : ∀ k, k ≠ key → read new k = read old k
  /-- The row is the only one of its key. -/
  own_row : ∀ r, r ∈ rows new.staged ∧ same r = true ↔ r = row
  /-- The rows of other keys stand as before, in the same order. -/
  other_rows : (rows new.staged).filter (fun r => !same r) =
    (rows old.staged).filter fun r => !same r
  /-- A commit makes this the committed state. -/
  committed : ∀ s : DurableStore, s.shards = old.shards →
    ∃ s', Store.commit s new = .ok s' ∧ s'.view = new

/-- The cells that name a bucket, and the table they stand in. -/
def BucketKey.cells (key : BucketKey) (shard : UInt16) : UInt16 × String × String × NumberCell :=
  (shard, key.pool, key.resolution.name, .integer key.start)

theorem BucketKey.cells_inj {key key' : BucketKey} {shard shard' : UInt16}
    (h : key.cells shard = key'.cells shard') : key = key' := by
  simp only [cells, Prod.mk.injEq, Resolution.name_inj, NumberCell.integer.injEq] at h
  obtain ⟨-, hpool, hresolution, hstart⟩ := h
  cases key
  cases key'
  simp_all

namespace BucketRow

/-- The cells of a row that name its bucket. -/
def keyCells (r : BucketRow) : UInt16 × String × String × NumberCell :=
  (r.shard, r.pool, r.resolution, r.start)

theorem sameKey_eq (row : BucketRow) :
    row.sameKey = fun r => decide (keyCells r = keyCells row) := by
  funext r
  rw [show decide (keyCells r = keyCells row) = decide (keyCells row = keyCells r) from
    decide_eq_decide.2 eq_comm, Bool.eq_iff_iff]
  simp [sameKey, keyCells, and_assoc]

@[simp] theorem sameKey_self (row : BucketRow) : row.sameKey row = true := by
  simp [sameKey]

end BucketRow

namespace DurableBatch

/-- The bucket with a key is read from the row with its cells. -/
theorem bucket?_eq (batch : DurableBatch) (key : BucketKey) :
    Batch.bucket? batch key = batch.shard key.pool >>= fun shard =>
      Database.readBucket?
        (batch.staged.buckets.find? fun r => decide (r.keyCells = key.cells shard)) := by
  refine congrArg _ (funext fun shard => congrArg Database.readBucket? ?_)
  refine congrArg (batch.staged.buckets.find? ·) (funext fun r => ?_)
  rw [Bool.eq_iff_iff]
  simp [BucketRow.isOf, BucketRow.keyCells, BucketKey.cells, and_assoc]

theorem rowWritten_putBucket (old : DurableBatch) {b : Bucket} {shard : UInt16}
    (h : old.shards.find? b.key.pool = some shard) :
    RowWritten Batch.bucket? Database.buckets (BucketRow.ofBucket shard b).sameKey old
      { old with staged := old.staged.putBucket shard b } b.key (.ofBucket shard b) b.plain where
  read_self := by
    have hfind := (find?_putRow BucketRow.keyCells (.ofBucket shard b) old.staged.buckets
      (b.key.cells shard)).trans (if_pos rfl)
    rw [bucket?_eq, DurableBatch.shard, h, Database.putBucket, BucketRow.sameKey_eq]
    change Database.readBucket? (List.find? _ _) = _
    rw [hfind, Database.readBucket?, BucketRow.bucket_ofBucket]
    rfl
  read_other key hkey := by
    rw [bucket?_eq, bucket?_eq, Database.putBucket, BucketRow.sameKey_eq]
    refine congrArg _ (funext fun shard' => congrArg Database.readBucket? ?_)
    refine (find?_putRow BucketRow.keyCells (.ofBucket shard b) old.staged.buckets
      (key.cells shard')).trans (if_neg fun hcells => hkey ?_)
    exact (BucketKey.cells_inj hcells).symm
  own_row := mem_putRow_same (BucketRow.sameKey_self _) old.staged.buckets
  other_rows := filter_putRow (BucketRow.sameKey_self _) old.staged.buckets
  committed s hs := ⟨_, rfl, by rw [DurableStore.view, hs]⟩

theorem rowWritten_putTotals (old : DurableBatch) (t : PoolTotals) :
    RowWritten Batch.totals? Database.totals (·.pool = some t.pool) old
      { old with staged := old.staged.putTotals t } t.pool (.ofTotals t) t.plain where
  read_self := (old.staged.totals?_putTotals t t.pool).trans (if_pos rfl)
  read_other pool hpool := (old.staged.totals?_putTotals t pool).trans (if_neg hpool.symm)
  own_row := mem_putRow_same (by simp [TotalsRow.ofTotals]) old.staged.totals
  other_rows := filter_putRow (by simp [TotalsRow.ofTotals]) old.staged.totals
  committed s hs := ⟨_, rfl, by rw [DurableStore.view, hs]⟩

end DurableBatch

/-- **A bucket and totals are read back as they were written.** In any batch, a bucket of a pool
that has a shard can be written, and so can any totals. What is read under their key is what was
written, every decimal with its scale, just if none of their decimals is a minus zero, and else the
same without the minus signs of zeros. Every row and read of another key, every other table and the
shards stay as they were, and the row holds only numbers of 64 bits if the times are such. -/
theorem rows_survive_round_trip (old : DurableBatch) :
    (∀ b : Bucket, old.shards.Assigned b.key.pool →
      ∃ shard new, old.shards.find? b.key.pool = some shard ∧ Batch.putBucket old b = .ok new ∧
        new.shards = old.shards ∧ { new.staged with buckets := old.staged.buckets } = old.staged ∧
        RowWritten Batch.bucket? Database.buckets (BucketRow.ofBucket shard b).sameKey old new
          b.key (.ofBucket shard b) b.plain ∧
        (Batch.bucket? new b.key = .ok (some b) ↔ ∀ d ∈ b.decimals, ¬ d.IsMinusZero) ∧
        (IsTime b.key.start → IsTime b.maxBlockTime →
          ∀ c ∈ (BucketRow.ofBucket shard b).numbers, c.IsSigned)) ∧
    ∀ t : PoolTotals,
      ∃ new, Batch.putTotals old t = .ok new ∧
        new.shards = old.shards ∧ { new.staged with totals := old.staged.totals } = old.staged ∧
        RowWritten Batch.totals? Database.totals (·.pool = some t.pool) old new
          t.pool (.ofTotals t) t.plain ∧
        (Batch.totals? new t.pool = .ok (some t) ↔ ∀ d ∈ t.decimals, ¬ d.IsMinusZero) ∧
        (IsTime t.lastBlockTime → ∀ c ∈ (TotalsRow.ofTotals t).numbers, c.IsSigned) := by
  constructor
  · rintro b ⟨shard, h⟩
    have hput : Batch.putBucket old b =
        .ok { old with staged := old.staged.putBucket shard b } := by
      change (old.shard b.key.pool >>= fun _ => _) = _
      rw [DurableBatch.shard, h]
      rfl
    have hwritten := old.rowWritten_putBucket h
    refine ⟨shard, _, h, hput, rfl, rfl, hwritten, ?_, fun hstart htime =>
      BucketRow.isSigned_numbers hstart htime shard⟩
    rw [hwritten.read_self, ← Bucket.plain_eq_self_iff]
    simp
  · intro t
    have hwritten := old.rowWritten_putTotals t
    refine ⟨_, rfl, rfl, rfl, hwritten, ?_, TotalsRow.isSigned_numbers⟩
    rw [hwritten.read_self, ← PoolTotals.plain_eq_self_iff]
    simp

/-- A bucket before the epoch with the largest numbers and the longest decimals, and totals of which
little is known. -/
theorem rows_survive_round_trip_extreme :
    let old := ((DurableStore.empty 2).assignPools ["pool"]).2.view
    let d : Decimal := ⟨true, Decimal.bound - 1, 28, by decide, by decide⟩
    let b : Bucket := ⟨⟨"pool", .hour4, -14400⟩, some d, some .largest, some d, some d, none, d,
      18446744073709551615, ⟨d, .zero⟩, .largest, ⟨some .zero, none⟩, ⟨none, some d⟩,
      18446744073709551615, 9223372036854775808, -1, 18446744073709551615⟩
    let t : PoolTotals := { PoolTotals.empty "pool" with lastTxId := 18446744073709551615 }
    (∃ new, Batch.putBucket old b = .ok new ∧ Batch.bucket? new b.key = .ok (some b)) ∧
      ∃ new, Batch.putTotals old t = .ok new ∧ Batch.totals? new "pool" = .ok (some t) := by
  intro old d b t
  have hassigned : old.shards.Assigned b.key.pool := DurableStore.assigned_assignPools _ (by decide)
  obtain ⟨hbuckets, htotals⟩ := rows_survive_round_trip old
  constructor
  · obtain ⟨shard, new, -, hput, -, -, -, hread, -⟩ := hbuckets b hassigned
    exact ⟨new, hput, hread.2 (by decide)⟩
  · obtain ⟨new, hput, -, -, -, hread, -⟩ := htotals t
    exact ⟨new, hput, hread.2 (by decide)⟩

end PoolKlines
