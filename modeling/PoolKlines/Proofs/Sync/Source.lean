import Mathlib.Data.List.Dedup
import Mathlib.Data.Prod.Lex
import PoolKlines.Proofs.Sorted
import PoolKlines.Store.Memory

/-!
# The rows of a source

* `MemoryStore.rows` are the rows of a pool in the order in which they are served;
* `MemoryStore.KeepsOrder` is the contract of a source: ids do not decrease in this order, and rows
  with one id are copies of each other;
* `MemoryStore.pending` are the distinct rows after an id; they are in the strict order of their
  ids;
* `pending_prefix_push`: a row that is added is a copy, or comes after all others;
* `DistinctIds` is all that is known of a source without a contract, and `rowsAfter_eq_right` says
  what is left of its rows when the cursor has moved past some.
-/

namespace PoolKlines.MemoryStore

theorem servedBefore_iff {s t : StoredTransaction} :
    servedBefore s t = true ↔ s.slot < t.slot ∨ s.slot = t.slot ∧ s.id ≤ t.id := by
  simp only [servedBefore, Bool.or_eq_true, Bool.and_eq_true, decide_eq_true_eq, beq_iff_eq]

theorem servedBefore_trans (s t u : StoredTransaction) (hst : servedBefore s t = true)
    (htu : servedBefore t u = true) : servedBefore s u = true := by
  rw [servedBefore_iff] at *
  rcases hst with hst | ⟨hst, hid⟩ <;> rcases htu with htu | ⟨htu, hid'⟩
  · exact .inl (hst.trans htu)
  · exact .inl (htu ▸ hst)
  · exact .inl (hst ▸ htu)
  · exact .inr ⟨hst.trans htu, hid.trans hid'⟩

theorem servedBefore_total (s t : StoredTransaction) :
    (servedBefore s t || servedBefore t s) = true := by
  rw [Bool.or_eq_true, servedBefore_iff, servedBefore_iff]
  rcases lt_trichotomy s.slot t.slot with h | h | h
  · exact .inl (.inl h)
  · rcases le_total s.id t.id with hid | hid
    · exact .inl (.inr ⟨h, hid⟩)
    · exact .inr (.inr ⟨h.symm, hid⟩)
  · exact .inr (.inl h)

/-- The rows of a pool in the order in which they are served. -/
def rows (s : MemoryStore) (pool : String) : List StoredTransaction :=
  (s.transactions.filter (·.pool = pool)).mergeSort servedBefore

/-- In the order in which rows are served, ids do not decrease, and rows with one id are copies. -/
structure KeepsOrder (s : MemoryStore) (pool : String) : Prop where
  ids_le : (s.rows pool).Pairwise fun t u => t.id ≤ u.id
  copies : ∀ t ∈ s.rows pool, ∀ u ∈ s.rows pool, t.id = u.id → t = u

/-- The distinct rows of a pool after an id. -/
def pending (s : MemoryStore) (pool : String) (after : UInt64) : List StoredTransaction :=
  (s.rowsAfter pool after).dedup

variable {s : MemoryStore} {pool : String} {after : UInt64} {t u : StoredTransaction}

theorem mem_rows : t ∈ s.rows pool ↔ t ∈ s.transactions ∧ t.pool = pool := by
  rw [rows, List.mem_mergeSort, List.mem_filter, decide_eq_true_eq]

theorem mem_rowsAfter :
    t ∈ s.rowsAfter pool after ↔ t ∈ s.transactions ∧ t.pool = pool ∧ after < t.id := by
  rw [rowsAfter, List.mem_mergeSort, List.mem_filter, Bool.and_eq_true, decide_eq_true_eq,
    decide_eq_true_eq]

theorem mem_pending :
    t ∈ s.pending pool after ↔ t ∈ s.transactions ∧ t.pool = pool ∧ after < t.id := by
  rw [pending, List.mem_dedup, mem_rowsAfter]

theorem pairwise_rowsAfter (s : MemoryStore) (pool : String) (after : UInt64) :
    (s.rowsAfter pool after).Pairwise fun t u => servedBefore t u = true :=
  List.pairwise_mergeSort servedBefore_trans servedBefore_total _

/-- Of two rows of a source that keeps its contract, the one at the later slot has no lower id. -/
theorem KeepsOrder.id_le_of_slot_lt (h : s.KeepsOrder pool) (ht : t ∈ s.rows pool)
    (hu : u ∈ s.rows pool) (hslot : t.slot < u.slot) : t.id ≤ u.id := by
  have hserved : (s.rows pool).Pairwise fun t u => servedBefore t u = true :=
    List.pairwise_mergeSort servedBefore_trans servedBefore_total _
  have hboth := h.ids_le.and hserved
  obtain ⟨i, hi, rfl⟩ := List.mem_iff_getElem.1 ht
  obtain ⟨j, hj, rfl⟩ := List.mem_iff_getElem.1 hu
  rcases lt_trichotomy i j with hij | rfl | hji
  · exact (List.pairwise_iff_getElem.1 hboth i j hi hj hij).1
  · exact le_rfl
  · -- the row at the later slot would be served first
    have hbefore := (List.pairwise_iff_getElem.1 hboth j i hj hi hji).2
    rcases servedBefore_iff.1 hbefore with hlt | ⟨heq, -⟩
    · exact absurd hlt (lt_asymm hslot)
    · exact absurd hslot (by rw [heq]; exact lt_irrefl _)

/-- The contract in terms of any two rows. -/
theorem keepsOrder_iff : s.KeepsOrder pool ↔ ∀ t ∈ s.transactions, ∀ u ∈ s.transactions,
    t.pool = pool → u.pool = pool → (t.slot < u.slot → t.id ≤ u.id) ∧ (t.id = u.id → t = u) := by
  constructor
  · intro h t ht u hu htpool hupool
    have ht := mem_rows.2 ⟨ht, htpool⟩
    have hu := mem_rows.2 ⟨hu, hupool⟩
    exact ⟨h.id_le_of_slot_lt ht hu, h.copies t ht u hu⟩
  · intro h
    refine ⟨?_, fun t ht u hu => ?_⟩
    · have hserved : (s.rows pool).Pairwise fun t u => servedBefore t u = true :=
        List.pairwise_mergeSort servedBefore_trans servedBefore_total _
      refine hserved.imp_of_mem fun {t u} ht hu hbefore => ?_
      obtain ⟨ht, htpool⟩ := mem_rows.1 ht
      obtain ⟨hu, hupool⟩ := mem_rows.1 hu
      rcases servedBefore_iff.1 hbefore with hslot | ⟨-, hid⟩
      · exact (h t ht u hu htpool hupool).1 hslot
      · exact hid
    · obtain ⟨ht, htpool⟩ := mem_rows.1 ht
      obtain ⟨hu, hupool⟩ := mem_rows.1 hu
      exact (h t ht u hu htpool hupool).2

instance (s : MemoryStore) (pool : String) : Decidable (s.KeepsOrder pool) :=
  decidable_of_iff _ keepsOrder_iff.symm

/-- The rows after any id come with ids that do not decrease. -/
theorem KeepsOrder.pairwise_rowsAfter (h : s.KeepsOrder pool) (after : UInt64) :
    (s.rowsAfter pool after).Pairwise fun t u => t.id ≤ u.id := by
  refine (s.pairwise_rowsAfter pool after).imp_of_mem fun {t u} ht hu hserved => ?_
  obtain ⟨ht, htpool, -⟩ := mem_rowsAfter.1 ht
  obtain ⟨hu, hupool, -⟩ := mem_rowsAfter.1 hu
  rcases servedBefore_iff.1 hserved with hlt | ⟨-, hid⟩
  · exact h.id_le_of_slot_lt (mem_rows.2 ⟨ht, htpool⟩) (mem_rows.2 ⟨hu, hupool⟩) hlt
  · exact hid

/-- The pending rows are in the strict order of their ids. -/
theorem KeepsOrder.pairwise_pending (h : s.KeepsOrder pool) (after : UInt64) :
    (s.pending pool after).Pairwise fun t u => t.id < u.id := by
  have hle := (h.pairwise_rowsAfter after).sublist (List.dedup_sublist _)
  refine (hle.and (List.nodup_dedup _)).imp_of_mem fun {t u} ht hu hboth => ?_
  obtain ⟨ht, htpool, -⟩ := mem_pending.1 ht
  obtain ⟨hu, hupool, -⟩ := mem_pending.1 hu
  refine lt_of_le_of_ne hboth.1 fun hid => hboth.2 ?_
  exact h.copies t (mem_rows.2 ⟨ht, htpool⟩) u (mem_rows.2 ⟨hu, hupool⟩) hid

/-- The rows of a source are all that matters. -/
theorem rowsAfter_congr {s' : MemoryStore} (h : s.transactions = s'.transactions) (pool : String)
    (after : UInt64) : s.rowsAfter pool after = s'.rowsAfter pool after := by
  rw [rowsAfter, rowsAfter, h]

theorem pending_congr {s' : MemoryStore} (h : s.transactions = s'.transactions) (pool : String)
    (after : UInt64) : s.pending pool after = s'.pending pool after := by
  rw [pending, pending, rowsAfter_congr h]

theorem KeepsOrder.congr {s' : MemoryStore} (hs : s.KeepsOrder pool)
    (h : s.transactions = s'.transactions) : s'.KeepsOrder pool := by
  have hrows : s'.rows pool = s.rows pool := by rw [rows, rows, h]
  exact ⟨hrows ▸ hs.ids_le, hrows ▸ hs.copies⟩

/-- Pending rows are only added at the end, if a row that is added is a copy or has an id above all
others of its pool. -/
theorem pending_prefix_push (h : s.KeepsOrder pool) (h' : (s.push t).KeepsOrder pool)
    (hnew : t.pool = pool → t ∈ s.transactions ∨
      ∀ u ∈ s.transactions, u.pool = pool → u.id < t.id) (after : UInt64) :
    s.pending pool after <+: (s.push t).pending pool after := by
  have hpush : ∀ u, u ∈ (s.push t).pending pool after ↔
      u ∈ s.pending pool after ∨ u = t ∧ t.pool = pool ∧ after < t.id := by
    intro u
    rw [mem_pending, mem_pending, push, List.mem_append, List.mem_singleton]
    constructor
    · rintro ⟨hu | rfl, hpool, hid⟩
      · exact .inl ⟨hu, hpool, hid⟩
      · exact .inr ⟨rfl, hpool, hid⟩
    · rintro (⟨hu, hpool, hid⟩ | ⟨rfl, hpool, hid⟩)
      · exact ⟨.inl hu, hpool, hid⟩
      · exact ⟨.inr rfl, hpool, hid⟩
  by_cases hadded : t.pool = pool ∧ after < t.id ∧ t ∉ s.transactions
  · -- the row is new, and so comes last
    obtain ⟨hpool, hid, habsent⟩ := hadded
    have hlast := (hnew hpool).resolve_left habsent
    have hconcat : (s.push t).pending pool after = s.pending pool after ++ [t] := by
      refine eq_of_sorted (h'.pairwise_pending after) ?_ fun u => ?_
      · rw [List.pairwise_append]
        refine ⟨h.pairwise_pending after, List.pairwise_singleton _ _, fun u hu v hv => ?_⟩
        obtain ⟨hu, hupool, -⟩ := mem_pending.1 hu
        rw [List.mem_singleton.1 hv]
        exact hlast u hu hupool
      · rw [hpush, List.mem_append, List.mem_singleton]
        exact or_congr_right (and_iff_left ⟨hpool, hid⟩)
    rw [hconcat]
    exact List.prefix_append _ _
  · have hsame : (s.push t).pending pool after = s.pending pool after := by
      refine eq_of_sorted (h'.pairwise_pending after) (h.pairwise_pending after) fun u => ?_
      rw [hpush]
      refine or_iff_left_of_imp ?_
      rintro ⟨rfl, hpool, hid⟩
      rw [mem_pending]
      refine ⟨?_, hpool, hid⟩
      by_contra habsent
      exact hadded ⟨hpool, hid, habsent⟩
    exact hsame ▸ List.prefix_rfl

/-! ### Rows in any order -/

/-- The rows of a pool have ids of their own, and none of these is zero. -/
structure DistinctIds (s : MemoryStore) (pool : String) : Prop where
  pos : ∀ t ∈ s.transactions, t.pool = pool → 0 < t.id
  nodup : ((s.transactions.filter (·.pool = pool)).map (·.id)).Nodup

/-- What rows are ordered by: the slot first, and then the id. -/
def servedKey (t : StoredTransaction) : UInt64 ×ₗ UInt64 := toLex (t.slot, t.id)

namespace DistinctIds

theorem eq_of_id_eq (h : s.DistinctIds pool) (ht : t ∈ s.rows pool) (hu : u ∈ s.rows pool)
    (hid : t.id = u.id) : t = u := by
  have hmem {t} (ht : t ∈ s.rows pool) : t ∈ s.transactions.filter (·.pool = pool) :=
    List.mem_filter.2 ⟨(mem_rows.1 ht).1, decide_eq_true (mem_rows.1 ht).2⟩
  exact List.inj_on_of_nodup_map h.nodup (hmem ht) (hmem hu) hid

theorem nodup_rowsAfter (h : s.DistinctIds pool) (after : UInt64) :
    ((s.rowsAfter pool after).map (·.id)).Nodup := by
  have hfilter : (s.transactions.filter fun t => t.pool = pool && after < t.id) =
      (s.transactions.filter (·.pool = pool)).filter (after < ·.id) := by
    rw [List.filter_filter]
    exact List.filter_congr fun t _ => Bool.and_comm _ _
  rw [rowsAfter, ((List.mergeSort_perm _ _).map _).nodup_iff, hfilter]
  exact h.nodup.sublist (List.filter_sublist.map _)

/-- The rows after an id are strictly ordered by slot and id. -/
theorem pairwise_servedKey (h : s.DistinctIds pool) (after : UInt64) :
    (s.rowsAfter pool after).Pairwise fun t u => servedKey t < servedKey u := by
  have hids := List.pairwise_map.1 (h.nodup_rowsAfter after)
  refine ((s.pairwise_rowsAfter pool after).and hids).imp ?_
  rintro t u ⟨hserved, hne⟩
  rw [servedKey, servedKey, Prod.Lex.toLex_lt_toLex]
  rcases servedBefore_iff.1 hserved with hslot | ⟨hslot, hid⟩
  · exact .inl hslot
  · exact .inr ⟨hslot, lt_of_le_of_ne hid hne⟩

/-- Seen from before the first id, all rows are to come. -/
theorem rowsAfter_zero (h : s.DistinctIds pool) : s.rowsAfter pool 0 = s.rows pool := by
  rw [rowsAfter, rows]
  congr 1
  refine List.filter_congr fun t ht => ?_
  by_cases hpool : t.pool = pool
  · rw [decide_eq_true hpool, decide_eq_true (h.pos t ht hpool), Bool.and_true]
  · rw [decide_eq_false hpool, Bool.false_and]

theorem nodup_rows (h : s.DistinctIds pool) : ((s.rows pool).map (·.id)).Nodup :=
  h.rowsAfter_zero ▸ h.nodup_rowsAfter 0

theorem pos_of_mem_rows (h : s.DistinctIds pool) (ht : t ∈ s.rows pool) : 0 < t.id :=
  h.pos t (mem_rows.1 ht).1 (mem_rows.1 ht).2

/-- A cursor that moves past the first of the rows to come, and not past the others, has the others
to come. -/
theorem rowsAfter_eq_right (h : s.DistinctIds pool) {after' : UInt64}
    {done left : List StoredTransaction} (hrows : s.rowsAfter pool after = done ++ left)
    (hafter : after ≤ after') (hdone : ∀ t ∈ done, t.id ≤ after')
    (hleft : ∀ t ∈ left, after' < t.id) : s.rowsAfter pool after' = left := by
  have hsorted := h.pairwise_servedKey after
  rw [hrows] at hsorted
  refine eq_of_sorted (h.pairwise_servedKey after') (List.pairwise_append.1 hsorted).2.1 fun t => ?_
  have hmem : t ∈ done ++ left ↔ _ := hrows ▸ mem_rowsAfter
  rw [mem_rowsAfter]
  constructor
  · rintro ⟨ht, hpool, hid⟩
    rcases List.mem_append.1 (hmem.2 ⟨ht, hpool, hafter.trans_lt hid⟩) with hmem | hmem
    · exact absurd hid (not_lt.2 (hdone t hmem))
    · exact hmem
  · intro ht
    obtain ⟨hstored, hpool, -⟩ := hmem.1 (List.mem_append_right _ ht)
    exact ⟨hstored, hpool, hleft t ht⟩

end DistinctIds

end PoolKlines.MemoryStore
