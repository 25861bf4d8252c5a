import PoolKlines.Proofs.Sync.Report

/-!
# No transaction poisons a pool

Whatever a stored transaction contains, a worker gets past it.

* `Indexer.decode_eq_nil`: nothing is rolled up of a transaction that failed or was undecodable;
* `Indexer.process_ne_poolMismatch`: the records of a transaction all belong to the pool, so rolling
  them up never meets another pool, on any store;
* `Indexer.runCycle_error_cases` says where the error of a report comes from;
* `no_transaction_poisons_pool` is the statement about stores in memory that accept commits.
-/

namespace PoolKlines

/-- The error says that a record belongs to another pool. -/
def IndexerError.isPoolMismatch : IndexerError → Bool
  | rollup _ (.poolMismatch _ _) => true
  | _ => false

/-- Rolling up a record of the pool fails only where the store does. -/
theorem Rollup.apply_error {β : Type} [Batch β] {prices : PriceSource} {pool : PoolConfig}
    {record : Record} (hpool : record.pool = pool.address) {b b' : β} {cause : RollupError}
    (h : apply prices pool record b = .error cause b') : ∃ e, cause = .store e := by
  rw [apply, if_neg (not_not.2 hpool)] at h
  obtain ⟨e, -, rfl⟩ := exists_of_adaptExcept_error h
  exact ⟨e, rfl⟩

namespace Indexer

section

variable (indexer : Indexer) (pools : PoolSnapshot) (pool : PoolConfig)

/-- There are no records of a transaction that failed, or of which nothing could be decoded. -/
theorem decode_eq_nil {t : StoredTransaction}
    (h : t.tx.failed = true ∨ (indexer.decode pools pool t).2.isSome = true) :
    (indexer.decode pools pool t).1 = [] := by
  unfold decode at *
  by_cases hfailed : t.tx.failed = true
  · rw [if_pos hfailed]
  · rw [if_neg hfailed] at h ⊢
    have hsome := h.resolve_left hfailed
    simp only at hsome ⊢
    split at hsome
    next hempty =>
      rw [List.isEmpty_iff.1 hempty]
      simp
    next => cases hsome

/-- A transaction that failed or was undecodable leaves only its id as the cursor. -/
theorem applied_of_decode_eq_nil {t : StoredTransaction}
    (h : (indexer.decode pools pool t).1 = []) (s : MemoryState) :
    indexer.applied pools pool s t = s.advanceCursor pool.address pool.version t.id := by
  rw [applied, h]
  rfl

variable {σ β : Type} [Store σ β]

/-- The records of a transaction are never those of another pool. -/
theorem process_ne_poolMismatch {t : StoredTransaction} {link rest : Link σ} {e : IndexerError}
    (h : indexer.process pools pool t link = .error (.error e) rest) :
    e.isPoolMismatch = false := by
  rcases process_error_cases indexer pools pool h with
    ⟨_, rfl⟩ | ⟨_, rfl⟩ | ⟨record, hmem, _, _, _, happly, rfl⟩
  · rfl
  · rfl
  · obtain ⟨_, rfl⟩ := Rollup.apply_error (indexer.pool_of_mem_decode pools pool hmem) happly
    rfl

end

variable {σ β : Type} [Store σ β] {indexer : Indexer} {pools : PoolSnapshot} {pool : PoolConfig}
  {name : String} {e : IndexerError}

/-- An error that ends the pages of a cycle comes from a request, from an inversion or from a
transaction. -/
theorem Underway.applyPages_error_cases {initial : σ} {start : UInt64} {s : CycleState σ}
    {rows : List StoredTransaction} (h : indexer.Underway pools pool initial start s rows)
    {report : CycleReport} {last : Link σ}
    (hrun : indexer.applyPages pools name pool start s = (.report report, last))
    (herror : report.error = some e) :
    e.isFetch = true ∨ e.isOutOfOrder = true ∨
      ∃ (t : StoredTransaction) (link rest : Link σ),
        indexer.process pools pool t link = .error (.error e) rest := by
  fun_induction Indexer.applyPages indexer pools name pool start s generalizing rows with
  | case1 s link hfetch => cases hrun
  | case2 s cause link hfetch =>
    cases hrun
    cases herror
    exact .inl rfl
  | case3 s link hfetch =>
    cases hrun
    rw [h.error_eq] at herror
    cases herror
  | case4 s first rest link hfetch t hpage => cases hrun
  | case5 s first rest link hfetch e' t hpage =>
    cases hrun
    cases herror
    refine .inr ((indexer.applyPage_error_cases pools pool hpage).imp_left ?_)
    rintro ⟨-, _, _, rfl⟩
    rfl
  | case6 s first rest link hfetch u t hpage hadvances ih =>
    obtain ⟨rows', ht⟩ := h.of_applyPage hfetch hpage
    exact ih ht hrun
  | case7 s first rest link hfetch u t hpage hadvances => cases hrun

/-- The error of a report comes from reading the cursor, from a request, from an inversion or from a
transaction. -/
theorem runCycle_error_cases {link last : Link σ} {report : CycleReport}
    (hrun : indexer.runCycle pools name link = (.report report, last))
    (herror : report.error = some e) :
    (∃ cause, e = .storage cause) ∨ e.isFetch = true ∨ e.isOutOfOrder = true ∨
      ∃ (pool : PoolConfig) (t : StoredTransaction) (link rest : Link σ),
        pools.find? name = some pool ∧
        indexer.process pools pool t link = .error (.error e) rest := by
  unfold runCycle at hrun
  cases hpool : pools.find? name with
  | none =>
    rw [hpool] at hrun
    cases hrun
    cases herror
  | some pool =>
    rw [hpool] at hrun
    simp only at hrun
    cases hread : Link.readCursor pool.address pool.version link with
    | error fault rest =>
      rw [hread] at hrun
      cases fault <;> cases hrun
      cases herror
      exact .inl ⟨_, rfl⟩
    | ok cursor rest =>
      rw [hread] at hrun
      have hbegun : indexer.Underway pools pool rest.store cursor
          ⟨rest, { CycleReport.empty with cursor }⟩ [] := .begin rest cursor
      rcases hbegun.applyPages_error_cases hrun herror with h | h | ⟨t, link, rest, h⟩
      · exact .inr (.inl h)
      · exact .inr (.inr (.inl h))
      · exact .inr (.inr (.inr ⟨pool, t, link, rest, rfl, h⟩))

end Indexer

/-- **No transaction poisons a pool.** Whatever a stored transaction contains, and whatever state a
store in memory is in that accepts commits, applying the transaction for a pool succeeds. Its
records all belong to the pool; the new state is what rolling them up leaves, with the cursor at the
larger of its old value and the id; and if the transaction failed or nothing in it could be decoded,
there are no records, and buckets and totals stay as they are. No store and no fault make a worker
report that a record belongs to another pool, be it for one transaction or for a cycle. -/
theorem no_transaction_poisons_pool (indexer : Indexer) (pools : PoolSnapshot) (pool : PoolConfig)
    (t : StoredTransaction) :
    (∀ link : Link MemoryStore, link.begins = [] → link.commits = [] →
      link.store.refusesCommits = false →
      ∃ outcome s, indexer.process pools pool t link =
          .ok outcome { link with store.state := s } ∧
        s.cursorOf pool = max (link.store.state.cursorOf pool) t.id ∧
        outcome.records = (indexer.decode pools pool t).1.length ∧
        (∀ record ∈ (indexer.decode pools pool t).1, record.pool = pool.address) ∧
        s = (((indexer.decode pools pool t).1.map
            (Observation.ofRecord · pool indexer.prices)).foldl
          (MemoryState.rollUp pool.address) link.store.state).advanceCursor
            pool.address pool.version t.id ∧
        (t.tx.failed = true ∨ outcome.undecodable = true →
          outcome.records = 0 ∧ s.buckets = link.store.state.buckets ∧
            s.totals = link.store.state.totals)) ∧
    ∀ (σ β : Type) [Store σ β] (link rest : Link σ) (e : IndexerError),
      (indexer.process pools pool t link = .error (.error e) rest → e.isPoolMismatch = false) ∧
      ∀ name report, indexer.runCycle pools name link = (.report report, rest) →
        report.error = some e → e.isPoolMismatch = false := by
  refine ⟨fun link hbegins hcommits haccepts => ?_, fun σ β _ link rest e => ⟨fun h => ?_, ?_⟩⟩
  · have hcommit : indexer.Commits pools pool link.store t
        { link.store with state := indexer.applied pools pool link.store.state t } :=
      Indexer.commits_memory.2 ⟨haccepts, rfl⟩
    have hprocess := indexer.process_of_commits pools pool hcommit hbegins hcommits
    refine ⟨_, _, hprocess, indexer.cursor_applied pools pool _ t, rfl,
      fun record hmem => indexer.pool_of_mem_decode pools pool hmem, rfl, fun h => ?_⟩
    have hnil := indexer.decode_eq_nil pools pool h
    rw [indexer.applied_of_decode_eq_nil pools pool hnil]
    exact ⟨congrArg List.length hnil, rfl, rfl⟩
  · exact indexer.process_ne_poolMismatch pools pool h
  · intro name report hrun herror
    rcases Indexer.runCycle_error_cases hrun herror with ⟨_, rfl⟩ | h | h | ⟨_, _, _, _, -, h⟩
    · rfl
    · cases e <;> first | rfl | cases h
    · cases e <;> first | rfl | cases h
    · exact indexer.process_ne_poolMismatch pools _ h

/-- A row whose only line of event data cannot be decoded. -/
def garbledRow : StoredTransaction :=
  { plainRow 1 10 with tx.logMessages := ["Program data: ???"] }

/-- The garbled row moves the cursor and nothing else, and a cycle that fails has another reason. -/
theorem garbled_row_poisons_no_pool :
    let link := Link.ofStore MemoryStore.empty
    link.begins = [] ∧ link.commits = [] ∧ link.store.refusesCommits = false ∧
    (plainIndexer.decode (.ofPools [plainPool]) plainPool garbledRow).2.isSome = true ∧
    (∃ outcome s, plainIndexer.process (.ofPools [plainPool]) plainPool garbledRow link =
        .ok outcome { link with store.state := s } ∧
      s.cursorOf plainPool = max 0 1 ∧ outcome.records = 0 ∧ s.buckets = ∅) ∧
    IndexerError.isPoolMismatch (.fetch (.unavailable "down")) = false := by
  intro link
  have hgarbled :
      (plainIndexer.decode (.ofPools [plainPool]) plainPool garbledRow).2.isSome = true := by
    decide +kernel
  obtain ⟨hmemory, hmismatch⟩ :=
    no_transaction_poisons_pool plainIndexer (.ofPools [plainPool]) plainPool garbledRow
  obtain ⟨outcome, s, hprocess, hcursor, hrecords, -, -, hunchanged⟩ := hmemory link rfl rfl rfl
  have hundecodable : outcome.undecodable = true := by
    rw [Indexer.outcome_eq_of_process _ _ _ hprocess]
    exact hgarbled
  obtain ⟨hzero, hbuckets, -⟩ := hunchanged (.inr hundecodable)
  refine ⟨rfl, rfl, rfl, hgarbled, ⟨outcome, s, hprocess, hcursor, hzero, hbuckets⟩, ?_⟩
  exact (hmismatch (Journal MemoryStore) MemoryBatch _ _ _).2 "pool" brokenReport
    runCycle_singleRow rfl

end PoolKlines
