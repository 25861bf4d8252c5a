import PoolKlines.Proofs.Sync.Durable
import PoolKlines.Proofs.Sync.ExactlyOnce

/-!
# What a report is worth

* `Indexer.commits_memory` and `Indexer.Ledger.cursorOf` say what commits do to a store in memory;
* `reports_account_for_commits`: on both stores, and however a cycle ends, its report counts exactly
  the transactions that were committed and their records, and names the stored cursor, except that
  after a request that failed for good it names the cursor at which the cycle began;
* `report_behind_cursor`: so a report may name a cursor that was left behind.
-/

namespace PoolKlines

namespace Indexer

variable {indexer : Indexer} {pools : PoolSnapshot} {pool : PoolConfig} {s s' : MemoryStore}
  {t : StoredTransaction} {rows : List StoredTransaction}

/-- A commit to a store in memory leaves the state that the transaction leaves, if the store does
not refuse. -/
theorem commits_memory : indexer.Commits pools pool s t s' ↔
    s.refusesCommits = false ∧ s' = { s with state := indexer.applied pools pool s.state t } := by
  have hstage := indexer.stage_memory pools pool s.state s.refusesCommits t
  constructor
  · rintro ⟨batch, staged, hbegin, hstaged, hcommit⟩
    obtain rfl : (⟨s.state, s.refusesCommits⟩ : MemoryBatch) = batch := Except.ok.inj hbegin
    cases hstaged.symm.trans hstage
    cases hrefuses : s.refusesCommits with
    | true =>
      simp only [Store.commit, hrefuses] at hcommit
      cases hcommit
    | false =>
      simp only [Store.commit, hrefuses] at hcommit
      exact ⟨rfl, (Except.ok.inj hcommit).symm⟩
  · rintro ⟨haccepts, rfl⟩
    refine ⟨⟨s.state, s.refusesCommits⟩, _, rfl, hstage, ?_⟩
    simp only [Store.commit, haccepts]
    rfl

/-- The last row is left as the cursor. -/
theorem Ledger.cursorOf (h : indexer.Ledger pools pool s rows s')
    (hascends : Ascends (s.state.cursorOf pool) rows) :
    s'.state.cursorOf pool = lastId (s.state.cursorOf pool) rows := by
  induction h with
  | nil => rfl
  | snoc _ hcommits ih =>
    rw [(commits_memory.1 hcommits).2, lastId_concat]
    show (indexer.applied pools pool _ _).cursorOf pool = _
    rw [cursor_applied, ih hascends.of_append,
      max_eq_right (hascends.lastId_lt (List.mem_singleton_self _)).le]

/-- A report names the last row unless a request failed after some rows were applied. -/
theorem Accounts.cursor_eq_iff {σ β : Type} [Store σ β] {initial final : σ} {start : UInt64}
    {report : CycleReport} (h : indexer.Accounts pools pool initial start report final rows) :
    report.cursor = lastId start rows ↔ (report.fetchFailed = true → report.applied = 0) := by
  rw [h.cursor_eq, h.tallies.applied_eq, List.length_eq_zero_iff]
  cases report.fetchFailed with
  | false => simp
  | true =>
    simp only [if_true, true_imp_iff]
    constructor
    · intro hstart
      by_contra hne
      have hmem := List.getLast_mem hne
      have hlast : lastId start rows = (rows.getLast hne).id := by
        rw [lastId, List.getLast?_eq_some_getLast hne]
        rfl
      exact absurd (hstart.trans hlast) (h.ascends.lt_of_mem hmem).ne
    · rintro rfl
      rfl

end Indexer

/-- **A report accounts for the commits of its cycle.** Let a cycle of a configured pool read the
cursor and end with a report, over any store and any source, whatever fails. Then the transactions
that were committed have ascending ids above the cursor that was read; the report counts them, their
records, and those in which nothing could be decoded; and the last of them is the stored cursor. The
report names this cursor exactly if no request failed for good after a transaction was committed. In
tables the cursor is a signed number, so there the ids must stay below half of the range. -/
theorem reports_account_for_commits (indexer : Indexer) (pools : PoolSnapshot) (name : String)
    (pool : PoolConfig) (hpool : pools.find? name = some pool) (start : UInt64)
    (report : CycleReport) :
    (∀ link rest last : Link (Journal MemoryStore),
      Link.readCursor pool.address pool.version link = .ok start rest →
      indexer.runCycle pools name link = (.report report, last) →
      ∃ rows, indexer.Accounts pools pool link.store start report last.store rows ∧
        last.store.past.length = link.store.past.length + report.applied ∧
        Store.cursor last.store pool.address pool.version = .ok (lastId start rows) ∧
        (report.cursor = lastId start rows ↔ (report.fetchFailed = true → report.applied = 0))) ∧
    (∀ link rest last : Link (Journal DurableStore),
      (∀ row ∈ link.store.store.database.cursors, row.txId.Fits) →
      Link.readCursor pool.address pool.version link = .ok start rest →
      indexer.runCycle pools name link = (.report report, last) →
      ∃ rows, indexer.Accounts pools pool link.store start report last.store rows ∧
        last.store.past.length = link.store.past.length + report.applied ∧
        ((∀ t ∈ rows, t.id.toNat < 2 ^ 63) →
          Store.cursor last.store pool.address pool.version = .ok (lastId start rows)) ∧
        (report.cursor = lastId start rows ↔
          (report.fetchFailed = true → report.applied = 0))) := by
  constructor
  · intro link rest last hread hrun
    obtain ⟨rows, haccounts⟩ := indexer.accounts_runCycle hpool hread hrun
    have hlength := haccounts.ledger.length_past
    rw [← haccounts.tallies.applied_eq] at hlength
    have hcursor := (Link.of_readCursor_ok hread).2
    obtain rfl : link.store.store.state.cursorOf pool = start := Except.ok.inj hcursor
    refine ⟨rows, haccounts, hlength, ?_, haccounts.cursor_eq_iff⟩
    exact congrArg Except.ok (haccounts.ledger.store.cursorOf haccounts.ascends)
  · intro link rest last hfits hread hrun
    obtain ⟨rows, haccounts⟩ := indexer.accounts_runCycle hpool hread hrun
    have hlength := haccounts.ledger.length_past
    rw [← haccounts.tallies.applied_eq] at hlength
    have hstart := Database.hasCursor_of_fits hfits (Link.of_readCursor_ok hread).2
    refine ⟨rows, haccounts, hlength, fun hids => ?_, haccounts.cursor_eq_iff⟩
    exact (haccounts.ledger.store.hasCursor hstart haccounts.ascends hids).cursor_eq

/-! ### A report behind its cursor -/

/-- A store with one row. -/
def singleRow : Journal MemoryStore := .ofStore (MemoryStore.empty.push (plainRow 1 10))

/-- A refusal of a request. -/
def refusedFetch : FetchAction := .fault (.refuse (.unavailable "down"))

/-- What a cycle reports whose second request is refused for good. -/
def brokenReport : CycleReport := ⟨1, 1, 0, 0, 0, false, some (.fetch (.unavailable "down"))⟩

theorem decode_plainRow (id slot : UInt64) (pools : PoolSnapshot) :
    plainIndexer.decode pools plainPool (plainRow id slot) = ([], none) := by
  simp [Indexer.decode, plainRow, Indexer.recordsAndErrors, plainPool, scanLog]

/-- The journal after the row was committed. -/
def singleRowEntered : Journal MemoryStore :=
  plainIndexer.enter (.ofPools [plainPool]) plainPool singleRow (plainRow 1 10)

/-- The row is committed before the second request. -/
theorem runCycle_singleRow :
    plainIndexer.runCycle (.ofPools [plainPool]) "pool"
        ⟨singleRow, [.ask, refusedFetch], [], [], [], []⟩ =
      (.report brokenReport, ⟨singleRowEntered, [], [], [], [], [⟨0, 1⟩, ⟨1, 1⟩]⟩) := by
  have hpool : (PoolSnapshot.ofPools [plainPool]).find? "pool" = some plainPool := by decide
  have hrows : singleRow.store.rowsAfter "pool" 0 = [plainRow 1 10] := by
    simp [singleRow, Journal.ofStore, MemoryStore.rowsAfter, MemoryStore.push, MemoryStore.empty,
      plainRow]
  have hfetch : Link.fetchPage "pool" 0 1 0 ⟨singleRow, [.ask, refusedFetch], [], [], [], []⟩ =
      .ok [plainRow 1 10] ⟨singleRow, [refusedFetch], [], [], [], [⟨0, 1⟩]⟩ := by
    show Link.finish _ (.ok ((singleRow.store.rowsAfter "pool" 0).take 1)) = _
    rw [hrows]
    rfl
  have hcommits : plainIndexer.Commits (.ofPools [plainPool]) plainPool singleRow (plainRow 1 10)
      singleRowEntered :=
    Indexer.commits_journal.2 ⟨_, Indexer.commits_memory.2 ⟨rfl, rfl⟩, rfl⟩
  have hprocess : plainIndexer.process (.ofPools [plainPool]) plainPool (plainRow 1 10)
      ⟨singleRow, [refusedFetch], [], [], [], [⟨0, 1⟩]⟩ = _ :=
    plainIndexer.process_of_commits _ _ hcommits rfl rfl
  have hrow : plainIndexer.applyRow (.ofPools [plainPool]) plainPool none (plainRow 1 10)
      ⟨⟨singleRow, [refusedFetch], [], [], [], [⟨0, 1⟩]⟩, CycleReport.empty.addPage⟩ =
        .ok () ⟨⟨singleRowEntered, [refusedFetch], [], [], [], [⟨0, 1⟩]⟩,
          ⟨1, 1, 0, 0, 1, false, none⟩⟩ := by
    rw [Indexer.applyRow, if_neg (by decide)]
    simp only [hprocess, decode_plainRow]
    rfl
  have hpage : plainIndexer.applyPage (.ofPools [plainPool]) plainPool [plainRow 1 10]
      ⟨⟨singleRow, [refusedFetch], [], [], [], [⟨0, 1⟩]⟩, CycleReport.empty.addPage⟩ =
        .ok () ⟨⟨singleRowEntered, [refusedFetch], [], [], [], [⟨0, 1⟩]⟩,
          ⟨1, 1, 0, 0, 1, false, none⟩⟩ := by
    rw [Indexer.applyPage_of_none _ _ _ (by decide)]
    exact bind_of_ok hrow _
  rw [Indexer.runCycle, hpool]
  exact (Indexer.applyPages_of_ok 0 (List.cons_ne_nil _ _) hfetch hpage (.inl (by decide))).trans
    (Indexer.applyPages_of_refuse 0 rfl)

/-- The stored cursor is ahead of the one in the report. -/
theorem report_behind_cursor :
    ∃ last : Link (Journal MemoryStore),
      plainIndexer.runCycle (.ofPools [plainPool]) "pool"
        ⟨singleRow, [.ask, refusedFetch], [], [], [], []⟩ = (.report brokenReport, last) ∧
      brokenReport.applied = 1 ∧ brokenReport.cursor = 0 ∧
      Store.cursor last.store plainPool.address plainPool.version = .ok 1 := by
  refine ⟨_, runCycle_singleRow, rfl, rfl, ?_⟩
  have hcursor := plainIndexer.cursor_enter (.ofPools [plainPool]) plainPool singleRow
    (plainRow 1 10)
  exact congrArg Except.ok hcursor

/-- The report counts the row that was committed, and the stored cursor is that of the row. -/
theorem reports_account_for_single_row :
    (PoolSnapshot.ofPools [plainPool]).find? "pool" = some plainPool ∧
    ∃ rest last : Link (Journal MemoryStore),
      Link.readCursor plainPool.address plainPool.version
        (⟨singleRow, [.ask, refusedFetch], [], [], [], []⟩ : Link (Journal MemoryStore)) =
          .ok 0 rest ∧
      plainIndexer.runCycle (.ofPools [plainPool]) "pool"
        ⟨singleRow, [.ask, refusedFetch], [], [], [], []⟩ = (.report brokenReport, last) ∧
      ∃ rows, plainIndexer.Accounts (.ofPools [plainPool]) plainPool singleRow 0 brokenReport
          last.store rows ∧
        last.store.past.length = 2 ∧ rows.length = 1 ∧
        Store.cursor last.store plainPool.address plainPool.version = .ok (lastId 0 rows) ∧
        brokenReport.cursor ≠ lastId 0 rows := by
  have hpool : (PoolSnapshot.ofPools [plainPool]).find? "pool" = some plainPool := by decide
  obtain ⟨hmemory, -⟩ := reports_account_for_commits plainIndexer (.ofPools [plainPool]) "pool"
    plainPool hpool 0 brokenReport
  obtain ⟨rows, haccounts, hlength, hcursor, hiff⟩ := hmemory _ _ _ rfl runCycle_singleRow
  refine ⟨hpool, _, _, rfl, runCycle_singleRow, rows, haccounts, hlength,
    haccounts.tallies.applied_eq.symm, hcursor, fun heq => ?_⟩
  exact absurd (hiff.1 heq rfl) (by decide)

end PoolKlines
