import PoolKlines.Proofs.Sync.ExactlyOnce
import PoolKlines.Proofs.Sync.FaultFree

/-!
# Rows that are left behind

A source whose ids do not follow its slots may have a row that the cursor moves past before it was
applied. A worker stops before such a row if it sees the inversion, and an inversion is seen only
within a page.

* `Indexer.runCycles` runs cycles over links without faults, and on a journal as on the store that
  it keeps;
* `Indexer.NoneLeftBehind` says that all rows up to the cursor were applied;
* `none_left_behind_iff_seen`: after any number of cycles this is so exactly if the first inversion
  of the source lies within one page.
-/

namespace PoolKlines

namespace Indexer

/-- Run a number of cycles over links without faults: how they ended, and the store at the end. -/
def runCycles {σ β : Type} [Store σ β] (indexer : Indexer) (pools : PoolSnapshot) (name : String) :
    Nat → σ → List CycleEnd × σ
  | 0, store => ([], store)
  | cycles + 1, store =>
    let (ending, link) := indexer.runCycle pools name (.ofStore store)
    let (ends, last) := indexer.runCycles pools name cycles link.store
    (ending :: ends, last)

/-- Cycles on a journal are the cycles on the store that it keeps. -/
theorem runCycles_journal {σ β : Type} [Store σ β] (indexer : Indexer) (pools : PoolSnapshot)
    (name : String) (cycles : Nat) (j : Journal σ) :
    indexer.runCycles pools name cycles j.store =
      ((indexer.runCycles pools name cycles j).1,
        (indexer.runCycles pools name cycles j).2.store) := by
  induction cycles generalizing j with
  | zero => rfl
  | succ cycles ih =>
    have hcycle : indexer.runCycle pools name (.ofStore j.store) = _ :=
      indexer.runCycle_journal pools name (.ofStore j)
    have hrest : indexer.runCycles pools name cycles
        (indexer.runCycle pools name (.ofStore j)).2.erase.store = _ :=
      ih (indexer.runCycle pools name (.ofStore j)).2.store
    simp only [runCycles, hcycle, hrest]

/-- Every row of a pool up to the cursor was applied. -/
def NoneLeftBehind (indexer : Indexer) (pools : PoolSnapshot) (pool : PoolConfig) (name : String)
    (j : Journal MemoryStore) : Prop :=
  ∀ t ∈ j.store.rows name, t.id ≤ j.store.state.cursorOf pool → indexer.HasApplied pools pool j t

variable {indexer : Indexer} {pools : PoolSnapshot} {pool : PoolConfig} {name : String}
  {initial : MemoryStore} {j : Journal MemoryStore} {rows : List StoredTransaction}

theorem Logs.noneLeftBehind_iff (h : indexer.Logs pools pool name initial j rows)
    (hdistinct : initial.DistinctIds name) :
    indexer.NoneLeftBehind pools pool name j ↔
      ∀ t ∈ initial.rows name, t.id ≤ j.store.state.cursorOf pool → t ∈ rows := by
  have hrows : j.store.rows name = initial.rows name := by
    rw [MemoryStore.rows, MemoryStore.rows, h.transactions_eq]
  unfold NoneLeftBehind
  rw [hrows]
  exact forall₂_congr fun t ht => imp_congr_right fun _ => h.hasApplied_iff hdistinct ht

/-- Some rows are applied in any number of cycles. -/
theorem Logs.runCycles (h : indexer.Logs pools pool name initial j rows)
    (hpool : pools.find? name = some pool) (cycles : Nat) :
    ∃ more, indexer.Logs pools pool name initial (indexer.runCycles pools name cycles j).2
      (rows ++ more) := by
  induction cycles generalizing j rows with
  | zero => exact ⟨[], by rwa [List.append_nil]⟩
  | succ cycles ih =>
    have hbegun : indexer.Logs pools pool name initial (Link.ofStore j).store rows := h
    obtain ⟨more, hcycle⟩ := hbegun.runCycle hpool (Link.quiet_ofStore j).asksStore
    obtain ⟨more', hrest⟩ := ih hcycle
    rw [List.append_assoc] at hrest
    exact ⟨more ++ more', hrest⟩

/-- The cursor is below the rows that are above all that were applied. -/
theorem Logs.cursor_lt_of_below (h : indexer.Logs pools pool name initial j rows)
    (hdistinct : initial.DistinctIds name) (hfresh : initial.state.cursorOf pool = 0)
    {left : List StoredTransaction} (hrows : initial.rows name = rows ++ left)
    (hbelow : Below rows left) {t : StoredTransaction} (ht : t ∈ left) :
    j.store.state.cursorOf pool < t.id := by
  have hpos := hdistinct.pos_of_mem_rows (hrows ▸ List.mem_append_right _ ht)
  rw [← hfresh] at hpos
  refine h.cursor_lt hpos fun u hu => ?_
  exact lt_of_below (hrows ▸ hdistinct.nodup_rows) hbelow u hu t ht

/-- While the first inversion is seen, cycles apply rows in order and tell of the inversion. -/
theorem InOrder.runCycles (h : indexer.InOrder pools pool name initial [] (initial.rows name) j)
    (hpool : pools.find? name = some pool) (hsize : 1 ≤ indexer.pageSize)
    (haccepts : initial.refusesCommits = false) (hdistinct : initial.DistinctIds name)
    (hfresh : initial.state.cursorOf pool = 0) (cycles : Nat) :
    indexer.InOrder pools pool name initial [] (initial.rows name)
        (indexer.runCycles pools name cycles j).2 ∧
      ∀ ending ∈ (indexer.runCycles pools name cycles j).1, Tells ending (initial.rows name) := by
  induction cycles generalizing j with
  | zero => exact ⟨h, fun ending hending => absurd hending List.not_mem_nil⟩
  | succ cycles ih =>
    obtain ⟨done, left, hrows, hbelow, hleft, hlogs⟩ := h
    rw [List.nil_append] at hlogs
    -- the rows to come are those that were not applied
    have hrest : initial.rowsAfter name (j.store.state.cursorOf pool) = left := by
      refine hdistinct.rowsAfter_eq_right (hdistinct.rowsAfter_zero.trans hrows) ?_ ?_ ?_
      · exact hfresh ▸ hlogs.initial_le_cursor
      · exact fun t ht => hlogs.id_le_cursor ht
      · exact fun t ht => hlogs.cursor_lt_of_below hdistinct hfresh hrows hbelow ht
    have hends := hlogs.endsAsSeen hpool hsize haccepts hdistinct hrest
    obtain ⟨hinOrder, htells⟩ := hends.of_seen hleft
    have hsorted := hlogs.pairwise_id_lt.imp le_of_lt
    have hnext : indexer.InOrder pools pool name initial [] (initial.rows name)
        (indexer.runCycle pools name (.ofStore j)).2.store := by
      rw [← List.nil_append done] at hinOrder
      rw [hrows]
      exact hinOrder.append hbelow
    obtain ⟨hlast, hall⟩ := ih hnext
    refine ⟨hlast, fun ending hending => ?_⟩
    rcases List.mem_cons.1 hending with rfl | hending
    · rw [hrows]
      exact (tells_append_iff hsorted hbelow).2 htells
    · exact hall ending hending

/-- No row is left behind, if all that were applied are below all others. -/
theorem Logs.noneLeftBehind (h : indexer.Logs pools pool name initial j rows)
    (hdistinct : initial.DistinctIds name) (hfresh : initial.state.cursorOf pool = 0)
    {left : List StoredTransaction} (hrows : initial.rows name = rows ++ left)
    (hbelow : Below rows left) : indexer.NoneLeftBehind pools pool name j := by
  rw [h.noneLeftBehind_iff hdistinct]
  intro t ht hle
  rw [hrows] at ht
  rcases List.mem_append.1 ht with ht | ht
  · exact ht
  · exact absurd hle (not_le.2 (h.cursor_lt_of_below hdistinct hfresh hrows hbelow ht))

/-- A row that was left behind by the first cycle stays behind. -/
theorem LeavesBehind.not_noneLeftBehind
    (h : indexer.LeavesBehind pools pool name initial [] (initial.rows name) j)
    (hpool : pools.find? name = some pool) (hdistinct : initial.DistinctIds name) (cycles : Nat) :
    ¬ indexer.NoneLeftBehind pools pool name (indexer.runCycles pools name cycles j).2 := by
  obtain ⟨rows, hlogs, t, ht, hlost⟩ := h
  obtain ⟨more, hmore⟩ := hlogs.runCycles hpool cycles
  obtain ⟨hnot, u, hu, hlt⟩ := hmore.lost_append hlost
  rw [hmore.noneLeftBehind_iff hdistinct]
  exact fun hall => hnot (hall t ht (hlt.le.trans (hmore.id_le_cursor hu)))

/-- The first cycle leaves a row behind, if the first inversion is not seen. -/
theorem not_noneLeftBehind_of_not_seen (hpool : pools.find? name = some pool)
    (hsize : 1 ≤ indexer.pageSize) (haccepts : initial.refusesCommits = false)
    (hdistinct : initial.DistinctIds name) (hfresh : initial.state.cursorOf pool = 0)
    (hnot : ¬ SeenInPage indexer.pageSize (initial.rows name)) (cycles : Nat) :
    ¬ indexer.NoneLeftBehind pools pool name
      (indexer.runCycles pools name (cycles + 1) (Journal.ofStore initial)).2 := by
  have hrest : initial.rowsAfter name (initial.state.cursorOf pool) = initial.rows name := by
    rw [hfresh, hdistinct.rowsAfter_zero]
  have hends := Logs.start.endsAsSeen hpool hsize haccepts hdistinct hrest
  exact (hends.of_not_seen hnot).not_noneLeftBehind hpool hdistinct cycles

end Indexer

/-- **The cursor passes only applied rows, if the first inversion lies within one page.** Let a pool
have rows with any distinct ids and any slots, and let cycles without faults start from cursor zero.
After any of them, all rows up to the cursor were applied exactly if, in the order of slot and id,
the first row that has a lower id after it has one on its own page. If so, every cycle reports an
inversion, or no error if there is none. A store that refuses commits leaves nothing behind. The
journal only watches: without it the cycles end alike and leave the same store. -/
theorem none_left_behind_iff_seen (indexer : Indexer) (pools : PoolSnapshot) (name : String)
    (pool : PoolConfig) (hpool : pools.find? name = some pool) (hsize : 1 ≤ indexer.pageSize)
    (store : MemoryStore) (hdistinct : store.DistinctIds name)
    (hfresh : store.state.cursorOf pool = 0) (cycles : Nat) :
    (indexer.NoneLeftBehind pools pool name
        (indexer.runCycles pools name cycles (Journal.ofStore store)).2 ↔
      cycles = 0 ∨ store.refusesCommits = true ∨
        SeenInPage indexer.pageSize (store.rows name)) ∧
    (store.refusesCommits = false → SeenInPage indexer.pageSize (store.rows name) →
      ∀ ending ∈ (indexer.runCycles pools name cycles (Journal.ofStore store)).1,
        Indexer.Tells ending (store.rows name)) ∧
    indexer.runCycles pools name cycles store =
      ((indexer.runCycles pools name cycles (Journal.ofStore store)).1,
        (indexer.runCycles pools name cycles (Journal.ofStore store)).2.store) := by
  have hstart : indexer.Logs pools pool name store (Journal.ofStore store) [] := .start
  have hinOrder (hseen : SeenInPage indexer.pageSize (store.rows name)) :
      indexer.InOrder pools pool name store [] (store.rows name) (Journal.ofStore store) :=
    ⟨[], store.rows name, rfl, below_nil_left, hseen, hstart⟩
  refine ⟨⟨fun hnone => ?_, fun hcases => ?_⟩, fun haccepts hseen => ?_,
    indexer.runCycles_journal pools name cycles (Journal.ofStore store)⟩
  · by_contra hcontra
    push Not at hcontra
    obtain ⟨hcycles, hrefuses, hnot⟩ := hcontra
    obtain ⟨cycles, rfl⟩ := Nat.exists_eq_succ_of_ne_zero hcycles
    exact Indexer.not_noneLeftBehind_of_not_seen hpool hsize (Bool.eq_false_iff.2 hrefuses)
      hdistinct hfresh hnot cycles hnone
  · by_cases hidle : cycles = 0 ∨ store.refusesCommits = true
    · -- nothing was applied
      have hlogs : indexer.Logs pools pool name store
          (indexer.runCycles pools name cycles (Journal.ofStore store)).2 [] := by
        rcases hidle with rfl | hrefuses
        · exact hstart
        · obtain ⟨rows, hlogs⟩ := hstart.runCycles hpool cycles
          obtain rfl : rows = [] := hlogs.eq_nil_of_refusesCommits hrefuses
          exact hlogs
      exact hlogs.noneLeftBehind hdistinct hfresh rfl below_nil_left
    · obtain ⟨hcycles, hrefuses⟩ := not_or.1 hidle
      have hseen := (hcases.resolve_left hcycles).resolve_left hrefuses
      obtain ⟨⟨done, left, hrows, hbelow, -, hlogs⟩, -⟩ := (hinOrder hseen).runCycles hpool hsize
        (Bool.eq_false_iff.2 hrefuses) hdistinct hfresh cycles
      exact hlogs.noneLeftBehind hdistinct hfresh hrows hbelow
  · exact ((hinOrder hseen).runCycles hpool hsize haccepts hdistinct hfresh cycles).2

/-! ### An inversion across a page border -/

/-- Two rows whose ids do not follow their slots. -/
def invertedStore : MemoryStore := (MemoryStore.empty.push (plainRow 3 10)).push (plainRow 2 20)

theorem rows_invertedStore : invertedStore.rows "pool" = [plainRow 3 10, plainRow 2 20] :=
  List.mergeSort_of_pairwise (by decide)

/-- On pages of one row, the row at the later slot is left behind. -/
theorem row_left_behind_at_page_border :
    (PoolSnapshot.ofPools [plainPool]).find? "pool" = some plainPool ∧
    1 ≤ plainIndexer.pageSize ∧ invertedStore.DistinctIds "pool" ∧
    invertedStore.state.cursorOf plainPool = 0 ∧
    ¬ plainIndexer.NoneLeftBehind (.ofPools [plainPool]) plainPool "pool"
      (plainIndexer.runCycles (.ofPools [plainPool]) "pool" 1
        (Journal.ofStore invertedStore)).2 := by
  have hpool : (PoolSnapshot.ofPools [plainPool]).find? "pool" = some plainPool := by decide
  have hdistinct : invertedStore.DistinctIds "pool" := ⟨by decide, by decide⟩
  have hnot : ¬ SeenInPage 1 (invertedStore.rows "pool") := by
    rw [rows_invertedStore]
    exact not_seenInPage_of_lower (List.pairwise_singleton _ _) below_nil_right rfl
      (List.mem_singleton_self _) (List.mem_singleton_self _) (by decide)
  exact ⟨hpool, le_rfl, hdistinct, rfl,
    Indexer.not_noneLeftBehind_of_not_seen hpool le_rfl rfl hdistinct rfl hnot 0⟩

/-- On pages of two rows, five cycles stop before the inversion and report it. -/
theorem none_left_behind_on_one_page :
    let indexer := { plainIndexer with pageSize := 2 }
    let run := indexer.runCycles (.ofPools [plainPool]) "pool" 5 (Journal.ofStore invertedStore)
    (PoolSnapshot.ofPools [plainPool]).find? "pool" = some plainPool ∧ 1 ≤ indexer.pageSize ∧
    invertedStore.DistinctIds "pool" ∧ invertedStore.state.cursorOf plainPool = 0 ∧
    indexer.NoneLeftBehind (.ofPools [plainPool]) plainPool "pool" run.2 ∧
    (∀ ending ∈ run.1, Indexer.Tells ending (invertedStore.rows "pool")) ∧
    indexer.runCycles (.ofPools [plainPool]) "pool" 5 invertedStore = (run.1, run.2.store) := by
  intro indexer run
  have hpool : (PoolSnapshot.ofPools [plainPool]).find? "pool" = some plainPool := by decide
  have hdistinct : invertedStore.DistinctIds "pool" := ⟨by decide, by decide⟩
  have hsize : 1 ≤ indexer.pageSize := by decide
  have hseen : SeenInPage indexer.pageSize (invertedStore.rows "pool") := by
    rw [rows_invertedStore]
    have hseen : SeenInPage 2 ([] ++ (plainRow 3 10 :: [plainRow 2 20] ++ [])) :=
      seenInPage_of_inversion .nil below_nil_left (List.mem_singleton_self _) (by decide) le_rfl
    exact hseen
  obtain ⟨hiff, htells, hstore⟩ := none_left_behind_iff_seen indexer (.ofPools [plainPool]) "pool"
    plainPool hpool hsize invertedStore hdistinct rfl 5
  exact ⟨hpool, hsize, hdistinct, rfl, hiff.2 (.inr (.inr hseen)), htells rfl hseen, hstore⟩

end PoolKlines
