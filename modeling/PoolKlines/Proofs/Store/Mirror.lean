import Mathlib.Order.MinMax
import PoolKlines.Proofs.Store.Memory
import PoolKlines.Proofs.Store.Table

/-!
# Two stores with the same contents

* `Mirrors shards m d` says that a database `d` holds what the state in memory `m` holds, up to the
  sign of zeros, with every bucket in the table of its pool's shard and every cursor in the positive
  half of the signed numbers;
* `mirrors_empty`, and `Mirrors.putBucket`, `Mirrors.putTotals`, `Mirrors.advanceCursor`: what is
  written to both is mirrored;
* `Mirrors.bucket?`, `Mirrors.bucketsBetween` and `Mirrors.latestBefore?`: what is read from the
  database is what stands in memory.
-/

namespace PoolKlines

/-- The database holds what the state in memory holds. -/
structure Mirrors (shards : ShardMap) (m : MemoryState) (d : Database) : Prop where
  keyed : m.Keyed
  buckets : ∃ held, d.Holds shards held ∧
    ∀ key, (held.find? (·.key = key)).map Bucket.plain = m.buckets[key]?.map Bucket.plain
  totals : ∀ pool, d.totals? pool = .ok (m.totals[pool]?.map PoolTotals.plain)
  cursors : ∀ pool version, d.cursorRow? pool version =
    m.cursors[CursorKey.mk pool version]?.map fun id => ⟨pool, version.name, .ofUInt64 id⟩
  ids : ∀ (key : CursorKey) (id : UInt64), m.cursors[key]? = some id → id.toNat < 2 ^ 63

/-- Tables without buckets, totals and cursors mirror a state without contents. -/
theorem mirrors_empty (shards : ShardMap) {d : Database} (hb : d.buckets = []) (ht : d.totals = [])
    (hc : d.cursors = []) : Mirrors shards .empty d where
  keyed := MemoryState.keyed_empty
  buckets := ⟨[], ⟨hb, List.nodup_nil⟩, fun key => by simp [MemoryState.empty]⟩
  totals pool := by simp [Database.totals?, ht, MemoryState.empty]
  cursors pool version := by simp [Database.cursorRow?, hc, MemoryState.empty]
  ids key id h := by simp [MemoryState.empty] at h

namespace Mirrors

variable {shards : ShardMap} {m : MemoryState} {d : Database} {pool : String} {shard : UInt16}

/-! ### Queries -/

/-- The answer to a query in memory consists of the same buckets as that to the statement. -/
theorem map_plain_bucketsWhere {held : List Bucket} (hm : m.Keyed) (hd : d.Holds shards held)
    (h : ∀ key, (held.find? (·.key = key)).map Bucket.plain = m.buckets[key]?.map Bucket.plain)
    (pool : String) (r : Resolution) (p : Int → Bool) :
    (m.bucketsWhere pool r p).map Bucket.plain =
      ((bucketsOf held pool r).filter fun b => p b.key.start).map Bucket.plain := by
  have hsorted : ∀ {l : List Bucket}, (l.Pairwise fun b c => b.key.start < c.key.start) →
      (l.map Bucket.plain).Pairwise fun b c => b.key.start < c.key.start :=
    fun hl => List.pairwise_map.2 hl
  refine eq_of_sorted (f := fun b : Bucket => b.key.start)
    (hsorted (MemoryState.sorted_bucketsWhere hm pool r p))
    (hsorted ((sorted_bucketsOf hd.nodup pool r).sublist List.filter_sublist)) fun c => ?_
  have hheld (start : Int) (b : Bucket) : held.find? (·.key = ⟨pool, r, start⟩) = some b ↔
      b ∈ held ∧ b.key = ⟨pool, r, start⟩ := find?_key_eq_some hd.nodup
  constructor
  · intro hc
    obtain ⟨b, hb, rfl⟩ := List.mem_map.1 hc
    obtain ⟨start, hstored, hp⟩ := MemoryState.mem_bucketsWhere.1 hb
    have hkey : b.key = ⟨pool, r, start⟩ := hm _ b hstored
    have hfound := h ⟨pool, r, start⟩
    rw [hstored, Option.map_some, Option.map_eq_some_iff] at hfound
    obtain ⟨b', hb', hplain⟩ := hfound
    obtain ⟨hmem, hkey'⟩ := (hheld start b').1 hb'
    refine List.mem_map.2 ⟨b', List.mem_filter.2 ⟨mem_bucketsOf.2 ⟨hmem, ?_, ?_⟩, ?_⟩, hplain⟩
    · rw [hkey']
    · rw [hkey']
    · rw [hkey']
      exact hp
  · intro hc
    obtain ⟨b', hb', rfl⟩ := List.mem_map.1 hc
    obtain ⟨hmem, hp⟩ := List.mem_filter.1 hb'
    obtain ⟨hmem, hpool, hr⟩ := mem_bucketsOf.1 hmem
    have hkey' : b'.key = ⟨pool, r, b'.key.start⟩ := by rw [← hpool, ← hr]
    have hfound := h ⟨pool, r, b'.key.start⟩
    rw [(hheld _ b').2 ⟨hmem, hkey'⟩, Option.map_some, eq_comm, Option.map_eq_some_iff] at hfound
    obtain ⟨b, hb, hplain⟩ := hfound
    exact List.mem_map.2 ⟨b, MemoryState.mem_bucketsWhere.2 ⟨_, hb, hp⟩, hplain⟩

theorem bucket? (h : Mirrors shards m d) {key : BucketKey}
    (hkey : shards.find? key.pool = some shard) :
    d.bucket? shard key = .ok (m.buckets[key]?.map Bucket.plain) := by
  obtain ⟨held, hd, hheld⟩ := h.buckets
  rw [hd.bucket? hkey, hheld]

theorem bucketsBetween (h : Mirrors shards m d) (hpool : shards.find? pool = some shard)
    (r : Resolution) (first last : Int) :
    d.bucketsBetween shard pool r first last =
      .ok ((m.bucketsWhere pool r fun start => first ≤ start && start < last).map
        Bucket.plain) := by
  obtain ⟨held, hd, hheld⟩ := h.buckets
  rw [hd.bucketsBetween hpool, map_plain_bucketsWhere h.keyed hd hheld]

theorem latestBefore? (h : Mirrors shards m d) (hpool : shards.find? pool = some shard)
    (r : Resolution) (time : Int) :
    d.latestBefore? shard pool r time =
      .ok (((m.bucketsWhere pool r (· < time)).reverse.find? (·.average.isSome)).map
        Bucket.plain) := by
  obtain ⟨held, hd, hheld⟩ := h.buckets
  have hsearch (l : List Bucket) : (l.reverse.find? (·.average.isSome)).map Bucket.plain =
      (l.map Bucket.plain).reverse.find? (·.average.isSome) := by
    have haverage : (fun b : Bucket => b.average.isSome) ∘ Bucket.plain =
        fun b => b.average.isSome := by
      funext b
      simp
    rw [← List.map_reverse, List.find?_map, haverage]
  rw [hd.latestBefore? hpool, hsearch, hsearch, map_plain_bucketsWhere h.keyed hd hheld]

theorem cursor_lt (h : Mirrors shards m d) (pool : String) (version : ProtocolVersion) :
    (m.cursor pool version).toNat < 2 ^ 63 := by
  rw [MemoryState.cursor]
  cases hm : m.cursors[CursorKey.mk pool version]? with
  | none => decide
  | some id => exact h.ids _ id hm

/-! ### Writes -/

/-- Buckets that agree up to the sign of zeros are written to both. -/
theorem putBucket (h : Mirrors shards m d) {b c : Bucket} (hplain : b.plain = c.plain)
    (hc : shards.find? c.key.pool = some shard) :
    Mirrors shards (m.putBucket b) (d.putBucket shard c) where
  keyed := h.keyed.putBucket b
  buckets := by
    obtain ⟨held, hd, hheld⟩ := h.buckets
    refine ⟨_, hd.putBucket hc, fun key => ?_⟩
    rw [find?_putRow, MemoryState.getElem?_putBucket, Bucket.key_eq_of_plain_eq hplain]
    split
    · rw [Option.map_some, Option.map_some, hplain]
    · exact hheld key
  totals := h.totals
  cursors := h.cursors
  ids := h.ids

/-- Totals that agree up to the sign of zeros are written to both. -/
theorem putTotals (h : Mirrors shards m d) {t u : PoolTotals} (hplain : t.plain = u.plain) :
    Mirrors shards { m with totals := m.totals.insert t.pool t } (d.putTotals u) where
  keyed := h.keyed
  buckets := by
    obtain ⟨held, hd, hheld⟩ := h.buckets
    exact ⟨held, ⟨hd.rows, hd.nodup⟩, hheld⟩
  totals pool := by
    have hpool : t.pool = u.pool := by rw [← t.pool_plain, hplain, u.pool_plain]
    simp only [Database.totals?_putTotals, Std.ExtTreeMap.getElem?_insert,
      Std.LawfulEqOrd.compare_eq_iff_eq, hpool]
    split
    · rw [← hplain, Option.map_some]
    · exact h.totals pool
  cursors := h.cursors
  ids := h.ids

/-- A cursor is moved forward in both. -/
theorem advanceCursor (h : Mirrors shards m d) (pool : String) (version : ProtocolVersion)
    {id : UInt64} (hid : id.toNat < 2 ^ 63) :
    Mirrors shards (m.advanceCursor pool version id) (d.advanceCursor pool version id) where
  keyed := h.keyed
  buckets := by
    obtain ⟨held, hd, hheld⟩ := h.buckets
    exact ⟨held, ⟨hd.rows, hd.nodup⟩, hheld⟩
  totals := h.totals
  cursors pool' version' := by
    have hnew : ((d.cursorRow? pool version).map fun row => max row.txId (.ofUInt64 id)).getD
        (.ofUInt64 id) = .ofUInt64 (max (m.cursor pool version) id) := by
      rw [h.cursors, MemoryState.cursor]
      cases hm : m.cursors[CursorKey.mk pool version]? with
      | none => simp
      | some old => simp [NumberCell.max_ofUInt64 (h.ids _ _ hm) hid]
    rw [Database.cursorRow?_advanceCursor, hnew, h.cursors]
    simp only [MemoryState.advanceCursor, Std.ExtTreeMap.getElem?_insert,
      Std.LawfulEqOrd.compare_eq_iff_eq, CursorKey.mk.injEq]
    split
    next heq =>
      obtain ⟨rfl, rfl⟩ := heq
      rfl
    next => rfl
  ids key id' hid' := by
    rw [MemoryState.advanceCursor, Std.ExtTreeMap.getElem?_insert] at hid'
    split at hid'
    · cases hid'
      rcases max_choice (m.cursor pool version) id with hmax | hmax
      · rw [hmax]
        exact h.cursor_lt pool version
      · rw [hmax]
        exact hid
    · exact h.ids key id' hid'

end Mirrors

end PoolKlines
