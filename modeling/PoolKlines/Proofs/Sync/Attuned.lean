import PoolKlines.Proofs.Sync.Journal

/-!
# What a cycle can do

Between its calls, a cycle on a store in memory knows the cursor of the store.

* `CycleState.Attuned` says so, and that requests are answered by the store;
* `Attuned.applyRow_cases`: a row is passed over, or fails and changes nothing, or is applied and
  moves the cursor to itself;
* `Attuned.of_fetchPage_ok`: a page consists of the first rows of the store above the cursor;
* `Indexer.runCycle_cases`: a cycle fails at once, or goes on with pages from the cursor of the
  store.
-/

namespace PoolKlines

/-- A cycle under way goes by the cursor of the store, and the store answers its requests. -/
structure CycleState.Attuned (pool : PoolConfig) (s : CycleState (Journal MemoryStore)) : Prop where
  cursor_eq : s.report.cursor = s.link.store.store.state.cursorOf pool
  asks : s.link.AsksStore

variable {pools : PoolSnapshot} {pool : PoolConfig} {name : String}
  {s : CycleState (Journal MemoryStore)} {link : Link (Journal MemoryStore)}

namespace CycleState.Attuned

/-- A call that did not commit leaves the cycle where it is. -/
theorem of_undone (h : s.Attuned pool) (hundone : s.link.Undone link) {report : CycleReport}
    (hcursor : report.cursor = s.report.cursor) : CycleState.Attuned pool ⟨link, report⟩ := by
  refine ⟨?_, h.asks.of_suffix hundone.fetches_suffix⟩
  show report.cursor = link.store.store.state.cursorOf pool
  rw [hundone.store_eq, hcursor]
  exact h.cursor_eq

/-- A page that was fetched consists of the first rows of the store above the cursor. -/
theorem of_fetchPage_ok (h : s.Attuned pool) {limit retries : Nat} {page : List StoredTransaction}
    (hfetch : Link.fetchPage name s.report.cursor limit retries s.link = .ok page link) :
    s.link.Undone link ∧ (s.link.store.store.rowsAfter name s.report.cursor).take limit = page := by
  obtain ⟨hundone, hpage⟩ := Link.of_fetchPage_ok h.asks hfetch
  exact ⟨hundone, Except.ok.inj hpage⟩

/-- A row is passed over, or fails and changes nothing, or is applied and moves the cursor to
itself. -/
theorem applyRow_cases (h : s.Attuned pool) (indexer : Indexer) (pools : PoolSnapshot)
    (lower : Option UInt64) (t : StoredTransaction) :
    ∃ u, u.Attuned pool ∧ u.link.fetches = s.link.fetches ∧
      (t.id ≤ s.report.cursor ∧ u = s ∧ indexer.applyRow pools pool lower t s = .ok () s ∨
        u.link.store = s.link.store ∧
          (∃ stop, indexer.applyRow pools pool lower t s = .error stop u) ∨
        s.report.cursor < t.id ∧ s.link.store.store.refusesCommits = false ∧
          u.link.store = indexer.enter pools pool s.link.store t ∧ u.report.cursor = t.id ∧
          indexer.applyRow pools pool lower t s = .ok () u) := by
  unfold Indexer.applyRow
  by_cases hle : t.id ≤ s.report.cursor
  · rw [if_pos hle]
    exact ⟨s, h, rfl, .inl ⟨hle, rfl, rfl⟩⟩
  · rw [if_neg hle]
    cases lower with
    | some lower => exact ⟨s, h, rfl, .inr (.inl ⟨rfl, _, rfl⟩)⟩
    | none =>
      obtain ⟨rest, hfetches, hprocess⟩ := indexer.process_journal pools pool t s.link
      rcases hprocess with ⟨stop, hprocess, hstore⟩ | ⟨outcome, hprocess, haccepts, hstore⟩
      · simp only [hprocess]
        have hundone : s.link.Undone rest := ⟨hstore, hfetches ▸ List.suffix_rfl⟩
        exact ⟨_, h.of_undone hundone rfl, hfetches, .inr (.inl ⟨hstore, stop, rfl⟩)⟩
      · simp only [hprocess]
        have habove := not_le.1 hle
        refine ⟨⟨rest, s.report.addOutcome t.id outcome⟩, ⟨?_, ?_⟩, hfetches,
          .inr (.inr ⟨habove, haccepts, hstore, rfl, rfl⟩)⟩
        · show t.id = rest.store.store.state.cursorOf pool
          rw [hstore, Indexer.cursor_enter, ← h.cursor_eq, max_eq_right habove.le]
        · exact h.asks.of_suffix (hfetches ▸ List.suffix_rfl)

end CycleState.Attuned

/-- A cycle fails at once and says so, or goes on with pages from the cursor of the store. -/
theorem Indexer.runCycle_cases (indexer : Indexer) (hpool : pools.find? name = some pool)
    (hasks : link.AsksStore) :
    ∃ s : CycleState (Journal MemoryStore), s.Attuned pool ∧ link.Undone s.link ∧
      ((∃ ending, indexer.runCycle pools name link = (ending, s.link) ∧ ending ≠ .endless ∧
          ∀ report, ending = .report report → report.error ≠ none) ∨
        ∃ start, indexer.runCycle pools name link =
          indexer.applyPages pools name pool start s) := by
  unfold Indexer.runCycle
  rw [hpool]
  obtain ⟨rest, hundone, hread⟩ := link.readCursor_cases pool.address pool.version
  have hattuned : CycleState.Attuned pool
      ⟨rest, { CycleReport.empty with cursor := link.store.store.state.cursorOf pool }⟩ := by
    refine ⟨?_, hasks.of_suffix hundone.fetches_suffix⟩
    show _ = rest.store.store.state.cursorOf pool
    rw [hundone.store_eq]
  refine ⟨_, hattuned, hundone, ?_⟩
  rcases hread with ⟨fault, hread⟩ | ⟨cursor, hcursor, hread⟩
  · simp only [hread]
    cases fault with
    | abort => exact .inl ⟨_, rfl, by simp, by simp⟩
    | refuse e =>
      refine .inl ⟨_, rfl, by simp, ?_⟩
      rintro report ⟨⟩
      simp
  · simp only [hread]
    obtain rfl : link.store.store.state.cursorOf pool = cursor := Except.ok.inj hcursor
    exact .inr ⟨_, rfl⟩

end PoolKlines
