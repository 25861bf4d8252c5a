import PoolKlines.Proofs.Kline.Rounds
import PoolKlines.Proofs.Sync.Link
import PoolKlines.Sync.Indexer

/-!
# Applying a transaction in memory

* `Indexer.process_cases`: to apply a transaction either fails and leaves the store alone, or
  commits what was staged;
* `Indexer.applied` is the state that a transaction leaves of a state in memory;
* `Indexer.stage_memory`: on a batch in memory, staging never fails and stages this state;
* `Indexer.Applies` relates a state to the one that some transactions leave of it, each applied
  once, in turn and without a fault, and `Indexer.applies_iff` says that this is a fold.
-/

namespace PoolKlines

namespace MemoryState

theorem cursor_advanceCursor (s : MemoryState) (pool : String) (version : ProtocolVersion)
    (id : UInt64) :
    (s.advanceCursor pool version id).cursor pool version = max (s.cursor pool version) id := by
  rw [cursor, advanceCursor, Std.ExtTreeMap.getElem?_insert_self, Option.getD_some]

/-- The cursor of a pool. -/
def cursorOf (s : MemoryState) (pool : PoolConfig) : UInt64 := s.cursor pool.address pool.version

end MemoryState

namespace Indexer

variable {σ β : Type} [Store σ β]

/-- To apply a transaction is to begin a batch, to stage the transaction and to commit. -/
theorem process_eq (indexer : Indexer) (pools : PoolSnapshot) (pool : PoolConfig)
    (stored : StoredTransaction) (link : Link σ) :
    indexer.process pools pool stored link =
      match Link.begin link with
      | .error fault rest => .error (.ofFault .storage fault) rest
      | .ok batch begun =>
        match indexer.stage pool stored.id (indexer.decode pools pool stored).1 batch with
        | .error e _ => .error (.error e) begun
        | .ok _ staged =>
          match Link.commit staged begun with
          | .error fault rest => .error (.ofFault (.commit stored.id) fault) rest
          | .ok _ rest => .ok ⟨(indexer.decode pools pool stored).1.length,
              (indexer.decode pools pool stored).2.isSome⟩ rest := by
  unfold process
  generalize indexer.decode pools pool stored = decoded
  obtain ⟨records, error⟩ := decoded
  cases hbegin : Link.begin link with
  | error fault rest => exact bind_of_error (adaptExcept_of_error hbegin _) _
  | ok batch begun =>
    refine (bind_of_ok (adaptExcept_of_ok hbegin _) _).trans ?_
    cases hstage : indexer.stage pool stored.id records batch with
    | error e rest =>
      simp only [hstage]
      rfl
    | ok u staged =>
      simp only [hstage]
      cases hcommit : Link.commit staged begun with
      | error fault rest => exact bind_of_error (adaptExcept_of_error hcommit _) _
      | ok u rest => exact bind_of_ok (adaptExcept_of_ok hcommit _) _

/-- To apply a transaction either fails and leaves the store alone, or commits what was staged. -/
theorem process_cases (indexer : Indexer) (pools : PoolSnapshot) (pool : PoolConfig)
    (stored : StoredTransaction) (link : Link σ) :
    ∃ rest, rest.fetches = link.fetches ∧
      ((∃ stop, indexer.process pools pool stored link = .error stop rest ∧
          rest.store = link.store) ∨
        ∃ batch staged outcome, Store.begin link.store = .ok batch ∧
          indexer.stage pool stored.id (indexer.decode pools pool stored).1 batch = .ok () staged ∧
          Store.commit link.store staged = .ok rest.store ∧
          indexer.process pools pool stored link = .ok outcome rest) := by
  rw [process_eq]
  obtain ⟨begun, hundone, hfetches, hbegin⟩ := link.begin_cases
  rcases hbegin with ⟨fault, hbegin⟩ | ⟨batch, hbatch, hbegin⟩
  · rw [hbegin]
    exact ⟨begun, hfetches, .inl ⟨_, rfl, hundone.store_eq⟩⟩
  · rw [hbegin]
    cases hstage : indexer.stage pool stored.id (indexer.decode pools pool stored).1 batch with
    | error e rest =>
      simp only [hstage]
      exact ⟨begun, hfetches, .inl ⟨_, rfl, hundone.store_eq⟩⟩
    | ok u staged =>
      simp only [hstage]
      obtain ⟨rest, hrest, hcommit⟩ := begun.commit_cases staged
      rw [hundone.store_eq] at hcommit
      refine ⟨rest, hrest.trans hfetches, ?_⟩
      rcases hcommit with ⟨fault, hcommit, hstore⟩ | ⟨store, hstore, hcommit, rfl⟩
      · rw [hcommit]
        exact .inl ⟨_, rfl, hstore⟩
      · rw [hcommit]
        exact .inr ⟨batch, staged, _, hbatch, hstage, hstore, rfl⟩

/-- Over a link without faults, a transaction is applied if the store agrees. -/
theorem process_of_quiet (indexer : Indexer) (pools : PoolSnapshot) (pool : PoolConfig)
    (stored : StoredTransaction) {link : Link σ} {batch staged : β} {store : σ}
    (hquiet : link.Quiet) (hbatch : Store.begin link.store = .ok batch)
    (hstage : indexer.stage pool stored.id (indexer.decode pools pool stored).1 batch =
      .ok () staged)
    (hstore : Store.commit link.store staged = .ok store) :
    ∃ outcome, indexer.process pools pool stored link = .ok outcome { link with store } := by
  have hbegin : Link.begin link = .ok batch link := by
    obtain ⟨linkStore, fetches, reads, begins, commits, requests⟩ := link
    obtain rfl := hquiet.begins_eq
    simp only [Link.begin, Link.answer, Link.finish, hbatch]
    rfl
  have hcommit : Link.commit staged link = .ok () { link with store } := by
    obtain ⟨linkStore, fetches, reads, begins, commits, requests⟩ := link
    obtain rfl := hquiet.commits_eq
    simp only [Link.commit, Link.answer, hstore]
    rfl
  rw [process_eq, hbegin]
  simp only [hstage, hcommit]
  exact ⟨_, rfl⟩

/-! ### In memory -/

variable (indexer : Indexer) (pools : PoolSnapshot) (pool : PoolConfig)

/-- The state that a transaction leaves: its records are rolled up, and the cursor moves to it. -/
def applied (s : MemoryState) (t : StoredTransaction) : MemoryState :=
  (((indexer.decode pools pool t).1.map (Observation.ofRecord · pool indexer.prices)).foldl
    (MemoryState.rollUp pool.address) s).advanceCursor pool.address pool.version t.id

theorem cursor_applied (s : MemoryState) (t : StoredTransaction) :
    (indexer.applied pools pool s t).cursorOf pool = max (s.cursorOf pool) t.id := by
  rw [applied, MemoryState.cursorOf, MemoryState.cursor_advanceCursor, MemoryState.cursor,
    MemoryState.cursors_foldl_rollUp]
  rfl

theorem pool_of_mem_decode {t : StoredTransaction} {record : Record}
    (h : record ∈ (indexer.decode pools pool t).1) : record.pool = pool.address := by
  unfold decode at h
  split at h
  · cases h
  · rw [List.mem_mergeSort, List.mem_filter] at h
    exact of_decide_eq_true h.2

/-- On a batch in memory, staging a transaction never fails. -/
theorem stage_memory (s : MemoryState) (refused : Bool) (t : StoredTransaction) :
    indexer.stage pool t.id (indexer.decode pools pool t).1 (⟨s, refused⟩ : MemoryBatch) =
      .ok () ⟨indexer.applied pools pool s t, refused⟩ := by
  have hrecords : (indexer.decode pools pool t).1.forM (fun record =>
      EStateM.adaptExcept (IndexerError.rollup t.id) (Rollup.apply indexer.prices pool record))
        (⟨s, refused⟩ : MemoryBatch) =
          .ok () ⟨((indexer.decode pools pool t).1.map
            (Observation.ofRecord · pool indexer.prices)).foldl
              (MemoryState.rollUp pool.address) s, refused⟩ := by
    rw [List.foldl_map]
    refine forM_eq_foldl (g := fun s => (⟨s, refused⟩ : MemoryBatch)) (fun record hrecord s => ?_) s
    exact adaptExcept_of_ok (Rollup.apply_memory s refused indexer.prices
      (indexer.pool_of_mem_decode pools pool hrecord)) _
  exact bind_of_ok hrecords _

/-- Some transactions, each applied once and in turn over a link without faults, lead from one state
to another. -/
def Applies (s : MemoryState) (rows : List StoredTransaction) (t : MemoryState) : Prop :=
  ∃ link, rows.forM (fun row => discard (indexer.process pools pool row))
      (Link.ofStore (⟨s, [], false⟩ : MemoryStore)) = .ok () link ∧ link.store.state = t

theorem process_ofStore (s : MemoryState) (t : StoredTransaction) :
    ∃ outcome, indexer.process pools pool t (Link.ofStore (⟨s, [], false⟩ : MemoryStore)) =
      .ok outcome (Link.ofStore ⟨indexer.applied pools pool s t, [], false⟩) :=
  indexer.process_of_quiet pools pool t (Link.quiet_ofStore _) rfl
    (indexer.stage_memory pools pool s false t) rfl

/-- Applying transactions without a fault succeeds, and is a fold. -/
theorem applies_iff {s t : MemoryState} {rows : List StoredTransaction} :
    indexer.Applies pools pool s rows t ↔ rows.foldl (indexer.applied pools pool) s = t := by
  have hrun : rows.forM (fun row => discard (indexer.process pools pool row))
      (Link.ofStore (⟨s, [], false⟩ : MemoryStore)) =
        .ok () (Link.ofStore ⟨rows.foldl (indexer.applied pools pool) s, [], false⟩) := by
    refine forM_eq_foldl (g := fun s => Link.ofStore (⟨s, [], false⟩ : MemoryStore))
      (fun row _ s => ?_) s
    obtain ⟨outcome, hprocess⟩ := indexer.process_ofStore pools pool s row
    exact bind_of_ok hprocess _
  constructor
  · rintro ⟨link, hlink, rfl⟩
    rw [hrun] at hlink
    cases hlink
    rfl
  · rintro rfl
    exact ⟨_, hrun, rfl⟩

end Indexer

end PoolKlines
