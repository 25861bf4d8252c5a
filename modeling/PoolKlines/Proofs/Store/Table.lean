import Mathlib.Algebra.Ring.Nat
import PoolKlines.Proofs.Computation
import PoolKlines.Proofs.Decimal.Text
import PoolKlines.Proofs.Kline.Plain
import PoolKlines.Proofs.Sorted
import PoolKlines.Store.Durable.Basic

/-!
# Tables of the durable store

* `BucketRow.bucket_ofBucket` and `TotalsRow.totals_ofTotals`: a row is read back as what was
  written, without minus zeros;
* `find?_putRow`, `map_putRow` and `nodup_putRow`: putting a row replaces that of its key, and no
  other;
* `Database.Holds` says that the bucket tables hold the rows of some buckets with distinct keys;
* `Database.Holds.putBucket`, `Database.Holds.bucket?`, `Database.Holds.bucketsBetween` and
  `Database.Holds.latestBefore?` say what the statements do in terms of these buckets;
* `Database.totals?_putTotals` and `Database.cursorRow?_advanceCursor` say what is found of totals
  and cursors after a write;
* `DurableStore.view_of_begin` is what a batch begins on.
-/

namespace PoolKlines

open Decimal (unsignedZero)

/-! ### Rows read back -/

@[simp] theorem readDecimal_toText (column : Nat) (d : Decimal) :
    readDecimal column d.toText = .ok d.unsignedZero := by
  rw [readDecimal, Decimal.parse_toText]
  rfl

@[simp] theorem readOptionalDecimal_decimalCell (column : Nat) (d : Option Decimal) :
    readOptionalDecimal column (decimalCell d) = .ok (d.map unsignedZero) := by
  cases d with
  | none => rfl
  | some d =>
    change (readDecimal column d.toText).map some = _
    rw [readDecimal_toText]
    rfl

@[simp] theorem readDecimals_toText (column : Nat) (s : Sides Decimal) :
    readDecimals column (s.map Decimal.toText) = .ok s.plain := by
  simp only [readDecimals, Sides.map_a, Sides.map_b, readDecimal_toText]
  rfl

@[simp] theorem readOptionalDecimals_decimalCell (column : Nat) (s : Sides (Option Decimal)) :
    readOptionalDecimals column (s.map decimalCell) = .ok s.plainOption := by
  simp only [readOptionalDecimals, Sides.map_a, Sides.map_b, readOptionalDecimal_decimalCell]
  rfl

/-- A bucket is read back from its row. -/
theorem BucketRow.bucket_ofBucket (shard : UInt16) (b : Bucket) :
    (BucketRow.ofBucket shard b).bucket = .ok b.plain := by
  simp only [BucketRow.bucket, BucketRow.ofBucket, Resolution.ofName?_name, NumberCell.int,
    readOptionalDecimal_decimalCell, readDecimal_toText, readDecimals_toText,
    readOptionalDecimals_decimalCell, NumberCell.count_ofUInt64]
  rfl

/-- Totals are read back from their row. -/
theorem TotalsRow.totals_ofTotals (t : PoolTotals) :
    (TotalsRow.ofTotals t).totals = .ok t.plain := by
  simp only [TotalsRow.totals, TotalsRow.ofTotals, readKey, NumberCell.int,
    readOptionalDecimal_decimalCell, readDecimal_toText, readDecimals_toText,
    readOptionalDecimals_decimalCell, NumberCell.count_ofUInt64]
  rfl

/-! ### Cells of cursors -/

theorem toInt_toInt64 {n : UInt64} (h : n.toNat < 2 ^ 63) : n.toInt64.toInt = n.toNat := by
  have hint : n.toInt64.toInt = n.toBitVec.toInt := rfl
  rw [hint, BitVec.toInt_eq_toNat_of_lt (by rw [UInt64.toNat_toBitVec]; omega),
    UInt64.toNat_toBitVec]

theorem NumberCell.ofUInt64_eq_integer {n : UInt64} (h : n.toNat < 2 ^ 63) :
    ofUInt64 n = integer n.toNat := by
  rw [ofUInt64, ofInt64, toInt_toInt64 h]

/-- The larger of two numbers below half of the range is the larger one as a signed number. -/
theorem NumberCell.max_ofUInt64 {m n : UInt64} (hm : m.toNat < 2 ^ 63) (hn : n.toNat < 2 ^ 63) :
    max (ofUInt64 m) (ofUInt64 n) = ofUInt64 (max m n) := by
  rw [max_def, ofUInt64_eq_integer hm, ofUInt64_eq_integer hn, before_integer]
  by_cases h : m < n
  · have hlt : (m.toNat : Int) < n.toNat := by exact_mod_cast UInt64.lt_iff_toNat_lt.1 h
    rw [if_pos (decide_eq_true hlt), max_eq_right h.le, ofUInt64_eq_integer hn]
  · have hle : ¬ (m.toNat : Int) < n.toNat := by
      exact_mod_cast fun hlt => h (UInt64.lt_iff_toNat_lt.2 hlt)
    rw [if_neg (by simpa using hle), max_eq_left (not_lt.1 h), ofUInt64_eq_integer hm]

/-! ### Rows with a key -/

section Keyed

variable {α β κ : Type} [DecidableEq κ] {key : α → κ}

theorem map_putRow {f : α → β} {same : β → Bool} {same' : α → Bool}
    (h : ∀ a, same (f a) = same' a) (row : α) (rows : List α) :
    putRow same (f row) (rows.map f) = (putRow same' row rows).map f := by
  have hany : (rows.map f).any same = rows.any same' := by
    rw [List.any_map]
    exact congrArg rows.any (funext h)
  unfold putRow
  rw [hany]
  split
  · rw [List.map_map, List.map_map]
    refine List.map_congr_left fun a _ => ?_
    simp only [Function.comp_apply, h, apply_ite f]
  · rw [List.map_append, List.map_singleton]

theorem find?_replace_self {row : α} {rows : List α} (h : ∃ a ∈ rows, key a = key row) :
    (rows.map fun a => if key a = key row then row else a).find? (key · = key row) = some row := by
  induction rows with
  | nil => simp at h
  | cons a rows ih =>
    by_cases ha : key a = key row
    · simp [ha]
    · have hrest : ∃ a ∈ rows, key a = key row := by simpa [ha] using h
      simpa [ha] using ih hrest

theorem find?_replace_of_ne {row : α} {k : κ} (h : key row ≠ k) (rows : List α) :
    (rows.map fun a => if key a = key row then row else a).find? (key · = k) =
      rows.find? (key · = k) := by
  induction rows with
  | nil => rfl
  | cons a rows ih =>
    by_cases ha : key a = key row
    · have hak : key a ≠ k := ha ▸ h
      simpa [ha, h, hak, List.find?_cons] using ih
    · rw [List.map_cons, if_neg ha, List.find?_cons, List.find?_cons, ih]

/-- The row of a key after a row was put. -/
theorem find?_putRow (key : α → κ) (row : α) (rows : List α) (k : κ) :
    (putRow (fun a => key a = key row) row rows).find? (key · = k) =
      if key row = k then some row else rows.find? (key · = k) := by
  unfold putRow
  by_cases hany : ∃ a ∈ rows, key a = key row
  · have hany' : (rows.any fun a => decide (key a = key row)) = true := by simpa using hany
    rw [if_pos hany']
    split
    next hk => exact hk ▸ by simpa using find?_replace_self hany
    next hk => simpa using find?_replace_of_ne hk rows
  · have hany' : ¬ (rows.any fun a => decide (key a = key row)) = true := by simpa using hany
    have hnone : rows.find? (key · = key row) = none := by simpa using hany
    rw [if_neg hany', List.find?_append]
    split
    next hk =>
      subst hk
      rw [hnone]
      simp
    next hk => simp [hk]

theorem map_key_putRow (row : α) (rows : List α) :
    (putRow (fun a => key a = key row) row rows).map key =
      if key row ∈ rows.map key then rows.map key else rows.map key ++ [key row] := by
  have hany : ((rows.any fun a => decide (key a = key row)) = true) ↔ key row ∈ rows.map key := by
    simp only [List.any_eq_true, List.mem_map, decide_eq_true_eq]
  unfold putRow
  by_cases h : key row ∈ rows.map key
  · rw [if_pos h, if_pos (hany.2 h), List.map_map]
    refine List.map_congr_left fun a _ => ?_
    by_cases ha : key a = key row <;> simp [ha]
  · rw [if_neg h, if_neg (mt hany.1 h), List.map_append, List.map_singleton]

theorem nodup_putRow {rows : List α} (h : (rows.map key).Nodup) (row : α) :
    ((putRow (fun a => key a = key row) row rows).map key).Nodup := by
  rw [map_key_putRow]
  split
  next => exact h
  next hnew => exact List.nodup_append.2 ⟨h, List.nodup_singleton _, by
    rintro a ha b hb rfl
    exact hnew (List.mem_singleton.1 hb ▸ ha)⟩

theorem find?_key_eq_some {rows : List α} (h : (rows.map key).Nodup) {k : κ} {a : α} :
    rows.find? (key · = k) = some a ↔ a ∈ rows ∧ key a = k := by
  constructor
  · intro hfound
    exact ⟨List.mem_of_find?_eq_some hfound, by simpa using List.find?_some hfound⟩
  · rintro ⟨hmem, rfl⟩
    induction rows with
    | nil => cases hmem
    | cons b rows ih =>
      obtain ⟨hnew, hrest⟩ := List.nodup_cons.1 h
      rcases List.mem_cons.1 hmem with rfl | hmem
      · simp
      · have hne : key b ≠ key a := fun he => hnew (he ▸ List.mem_map_of_mem hmem)
        simpa [hne] using ih hrest hmem

end Keyed

/-! ### Buckets of the tables -/

/-- The row of a bucket in the table of its pool's shard. -/
def bucketRow (shards : ShardMap) (b : Bucket) : BucketRow :=
  .ofBucket ((shards.find? b.key.pool).getD 0) b

theorem bucketRow_eq {shards : ShardMap} {b : Bucket} {shard : UInt16}
    (h : shards.find? b.key.pool = some shard) : bucketRow shards b = .ofBucket shard b := by
  rw [bucketRow, h, Option.getD_some]

theorem mapM_bucket_bucketRow (shards : ShardMap) (buckets : List Bucket) :
    (buckets.map (bucketRow shards)).mapM BucketRow.bucket = .ok (buckets.map Bucket.plain) := by
  rw [List.mapM_map]
  exact mapM_of_ok fun b _ => BucketRow.bucket_ofBucket _ b

theorem Resolution.name_inj {r s : Resolution} : r.name = s.name ↔ r = s :=
  ⟨fun h => Option.some.inj (by rw [← ofName?_name r, h, ofName?_name]), congrArg name⟩

theorem ProtocolVersion.name_inj {v w : ProtocolVersion} : v.name = w.name ↔ v = w :=
  ⟨fun h => Option.some.inj (by rw [← ofName?_name v, h, ofName?_name]), congrArg name⟩

theorem isOf_bucketRow {shards : ShardMap} {pool : String} {shard : UInt16}
    (h : shards.find? pool = some shard) (r : Resolution) (b : Bucket) :
    (bucketRow shards b).isOf shard pool r =
      (decide (b.key.pool = pool) && decide (b.key.resolution = r)) := by
  have hname : (b.key.resolution.name = r.name) ↔ b.key.resolution = r := Resolution.name_inj
  by_cases hpool : b.key.pool = pool
  · rw [bucketRow_eq (hpool ▸ h)]
    simp [BucketRow.isOf, BucketRow.ofBucket, hpool, hname]
  · simp [BucketRow.isOf, BucketRow.ofBucket, bucketRow, hpool]

theorem isOf_start_bucketRow {shards : ShardMap} {key : BucketKey} {shard : UInt16}
    (h : shards.find? key.pool = some shard) (b : Bucket) :
    ((bucketRow shards b).isOf shard key.pool key.resolution &&
      decide ((bucketRow shards b).start = .integer key.start)) = decide (b.key = key) := by
  obtain ⟨pool, r, start⟩ := key
  rw [isOf_bucketRow h, bucketRow, BucketRow.ofBucket]
  cases hb : b.key
  simp [Bool.and_assoc]

theorem sameKey_bucketRow {shards : ShardMap} {b : Bucket} {shard : UInt16}
    (h : shards.find? b.key.pool = some shard) (c : Bucket) :
    (bucketRow shards b).sameKey (bucketRow shards c) = decide (c.key = b.key) := by
  rw [← isOf_start_bucketRow h, bucketRow_eq h, Bool.eq_iff_iff]
  simp only [BucketRow.sameKey, BucketRow.isOf, Bool.and_eq_true, decide_eq_true_eq]
  exact and_congr (and_congr (and_congr eq_comm eq_comm) eq_comm) eq_comm

/-- The buckets of a pool at a resolution among some buckets, in the order of their starts. -/
def bucketsOf (held : List Bucket) (pool : String) (r : Resolution) : List Bucket :=
  (held.filter fun b => b.key.pool = pool && b.key.resolution = r).mergeSort fun b c =>
    !decide (c.key.start < b.key.start)

theorem mem_bucketsOf {held : List Bucket} {pool : String} {r : Resolution} {b : Bucket} :
    b ∈ bucketsOf held pool r ↔ b ∈ held ∧ b.key.pool = pool ∧ b.key.resolution = r := by
  simp [bucketsOf]

theorem sorted_bucketsOf {held : List Bucket} (h : (held.map Bucket.key).Nodup) (pool : String)
    (r : Resolution) : (bucketsOf held pool r).Pairwise fun b c => b.key.start < c.key.start := by
  have hle : (bucketsOf held pool r).Pairwise fun b c => b.key.start ≤ c.key.start := by
    refine (List.pairwise_mergeSort ?_ ?_ _).imp ?_
    · simp only [Bool.not_eq_eq_eq_not, Bool.not_true, decide_eq_false_iff_not, Int.not_lt]
      exact fun _ _ _ => Int.le_trans
    · simp only [Bool.or_eq_true, Bool.not_eq_eq_eq_not, Bool.not_true, decide_eq_false_iff_not,
        Int.not_lt]
      exact fun _ _ => Int.le_total _ _
    · simp
  have hne : (bucketsOf held pool r).Pairwise fun b c => b.key ≠ c.key := by
    rw [← List.pairwise_map (f := Bucket.key) (R := (· ≠ ·)), ← List.nodup_iff_pairwise_ne]
    have hperm := (List.mergeSort_perm (held.filter fun b =>
      b.key.pool = pool && b.key.resolution = r) fun b c => !decide (c.key.start < b.key.start))
    exact (hperm.map _).nodup_iff.2 (h.sublist (List.filter_sublist.map _))
  refine (hle.and hne).imp_of_mem fun {b c} hb hc hbc => ?_
  obtain ⟨-, hbpool, hbr⟩ := mem_bucketsOf.1 hb
  obtain ⟨-, hcpool, hcr⟩ := mem_bucketsOf.1 hc
  refine lt_of_le_of_ne hbc.1 fun hstart => hbc.2 ?_
  cases hbk : b.key
  cases hck : c.key
  simp_all

namespace Database

variable {shards : ShardMap} {d : Database} {held : List Bucket}

/-- The bucket tables hold the rows of some buckets with distinct keys, each in the table of its
pool's shard. -/
structure Holds (shards : ShardMap) (d : Database) (held : List Bucket) : Prop where
  rows : d.buckets = held.map (bucketRow shards)
  nodup : (held.map Bucket.key).Nodup

theorem Holds.putBucket (h : Holds shards d held) {b : Bucket} {shard : UInt16}
    (hb : shards.find? b.key.pool = some shard) :
    Holds shards (d.putBucket shard b) (putRow (fun c => c.key = b.key) b held) where
  rows := by
    rw [Database.putBucket, h.rows, ← bucketRow_eq hb]
    exact map_putRow (sameKey_bucketRow hb) b held
  nodup := nodup_putRow h.nodup b

/-- The bucket with a key. -/
theorem Holds.bucket? (h : Holds shards d held) {key : BucketKey} {shard : UInt16}
    (hkey : shards.find? key.pool = some shard) :
    d.bucket? shard key = .ok ((held.find? (·.key = key)).map Bucket.plain) := by
  have hfind : (d.buckets.find? fun r =>
      r.isOf shard key.pool key.resolution && r.start = .integer key.start) =
      (held.find? (·.key = key)).map (bucketRow shards) := by
    rw [h.rows, List.find?_map]
    congr 2
    exact funext (isOf_start_bucketRow hkey)
  rw [Database.bucket?, hfind]
  cases held.find? (·.key = key) with
  | none => rfl
  | some b =>
    simp only [Option.map_some, readBucket?, bucketRow, BucketRow.bucket_ofBucket]
    rfl

theorem Holds.bucketRows (h : Holds shards d held) {pool : String} {shard : UInt16}
    (hpool : shards.find? pool = some shard) (r : Resolution) :
    d.bucketRows shard pool r = (bucketsOf held pool r).map (bucketRow shards) := by
  have hfilter : (d.buckets.filter fun row => row.isOf shard pool r) =
      (held.filter fun b => b.key.pool = pool && b.key.resolution = r).map (bucketRow shards) := by
    rw [h.rows, List.filter_map]
    congr 2
    exact funext (isOf_bucketRow hpool r)
  rw [Database.bucketRows, hfilter, bucketsOf]
  refine (List.map_mergeSort fun b _ c _ => ?_).symm
  simp [bucketRow, BucketRow.ofBucket]

/-- The buckets that start within a span, in order. -/
theorem Holds.bucketsBetween (h : Holds shards d held) {pool : String} {shard : UInt16}
    (hpool : shards.find? pool = some shard) (r : Resolution) (first last : Int) :
    d.bucketsBetween shard pool r first last =
      .ok (((bucketsOf held pool r).filter fun b =>
        first ≤ b.key.start && b.key.start < last).map Bucket.plain) := by
  have hfilter : ((bucketsOf held pool r).map (bucketRow shards)).filter (fun row =>
      !row.start.before (.integer first) && row.start.before (.integer last)) =
      ((bucketsOf held pool r).filter fun b =>
        first ≤ b.key.start && b.key.start < last).map (bucketRow shards) := by
    rw [List.filter_map]
    congr 2
    funext b
    rw [Bool.eq_iff_iff]
    simp [bucketRow, BucketRow.ofBucket]
  rw [Database.bucketsBetween, h.bucketRows hpool, hfilter, mapM_bucket_bucketRow]
  rfl

/-- The latest bucket that starts before a time and has an average. -/
theorem Holds.latestBefore? (h : Holds shards d held) {pool : String} {shard : UInt16}
    (hpool : shards.find? pool = some shard) (r : Resolution) (time : Int) :
    d.latestBefore? shard pool r time =
      .ok ((((bucketsOf held pool r).filter (·.key.start < time)).reverse.find?
        (·.average.isSome)).map Bucket.plain) := by
  have hfind : ((bucketsOf held pool r).map (bucketRow shards)).reverse.find? (fun row =>
      row.start.before (.integer time) && row.average.isSome) =
      (((bucketsOf held pool r).filter (·.key.start < time)).reverse.find?
        (·.average.isSome)).map (bucketRow shards) := by
    rw [← List.map_reverse, List.find?_map, ← List.filter_reverse, List.find?_filter]
    congr 2
    funext b
    simp [bucketRow, BucketRow.ofBucket, decimalCell]
  rw [Database.latestBefore?, h.bucketRows hpool, hfind]
  cases ((bucketsOf held pool r).filter (·.key.start < time)).reverse.find?
      (·.average.isSome) with
  | none => rfl
  | some b =>
    simp only [Option.map_some, readBucket?, bucketRow, BucketRow.bucket_ofBucket]
    rfl

/-! ### Totals and cursors -/

theorem totals?_putTotals (d : Database) (t : PoolTotals) (pool : String) :
    (d.putTotals t).totals? pool =
      if t.pool = pool then .ok (some t.plain) else d.totals? pool := by
  have hfind := find?_putRow TotalsRow.pool (TotalsRow.ofTotals t) d.totals (some pool)
  have hpool : (TotalsRow.ofTotals t).pool = some t.pool := rfl
  simp only [hpool, Option.some.injEq] at hfind
  simp only [totals?, putTotals, hfind]
  by_cases h : t.pool = pool
  · simp only [if_pos h, TotalsRow.totals_ofTotals]
    rfl
  · simp only [if_neg h]

/-- The row of a cursor after a cursor was moved. -/
theorem cursorRow?_advanceCursor (d : Database) (pool pool' : String)
    (version version' : ProtocolVersion) (id : UInt64) :
    (d.advanceCursor pool version id).cursorRow? pool' version' =
      if pool = pool' ∧ version = version' then
        some ⟨pool, version.name,
          ((d.cursorRow? pool version).map fun row => max row.txId (.ofUInt64 id)).getD
            (.ofUInt64 id)⟩
      else d.cursorRow? pool' version' := by
  have hkey (pool : String) (version : ProtocolVersion) : (fun r : CursorRow => r.isOf pool version)
      = fun r => decide ((r.pool, r.version) = (pool, version.name)) := by
    funext r
    simp [CursorRow.isOf]
  have hadvance : d.advanceCursor pool version id = { d with
      cursors := putRow (·.isOf pool version) ⟨pool, version.name,
        ((d.cursorRow? pool version).map fun row => max row.txId (.ofUInt64 id)).getD
          (.ofUInt64 id)⟩ d.cursors } := by
    unfold advanceCursor
    cases d.cursorRow? pool version <;> rfl
  have hfind (txId : NumberCell) :=
    find?_putRow (fun r : CursorRow => (r.pool, r.version)) ⟨pool, version.name, txId⟩
      d.cursors (pool', version'.name)
  simp only [Prod.mk.injEq, ProtocolVersion.name_inj] at hfind
  rw [hadvance]
  simp only [cursorRow?, hkey]
  simpa using hfind _

end Database

/-- A batch that is not refused begins on the committed state. -/
theorem DurableStore.view_of_begin {s : DurableStore} {b : DurableBatch}
    (h : Store.begin s = .ok b) : s.view = b := by
  simp only [Store.begin] at h
  split at h
  · cases h
  · exact Except.ok.inj h

end PoolKlines
