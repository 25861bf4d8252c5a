import PoolKlines.Proofs.Sync.Attuned
import PoolKlines.Proofs.Sync.Source

/-!
# Which rows were applied

Whatever the order of the source, a cycle applies only rows above the cursor, and each moves the
cursor to itself. So the rows that a journal tells of are in the strict order of their ids.

* `Indexer.HasApplied` says that some entry of a journal applies a row;
* `Indexer.Logs` says which rows a journal tells of, and `Logs.hasApplied_iff` that these are the
  rows that were applied;
* `Logs.lost_append`: a row that was left behind is never applied;
* `Logs.runCycle`: a cycle only adds rows at the end.
-/

namespace PoolKlines

namespace Indexer

variable (indexer : Indexer) (pools : PoolSnapshot) (pool : PoolConfig)

/-- Some entry of a journal is what a row leaves of the entry before. -/
def HasApplied (j : Journal MemoryStore) (t : StoredTransaction) : Prop :=
  ∃ s s', [s, s'] <:+: j.past ∧ indexer.Applies pools pool s.state [t] s'.state

/-- The rows that a journal tells of: it began with a store, and each row came from this store, was
above the cursor and was applied. -/
inductive Logs (name : String) (initial : MemoryStore) :
    Journal MemoryStore → List StoredTransaction → Prop
  | start : Logs name initial (.ofStore initial) []
  | apply {j : Journal MemoryStore} {rows : List StoredTransaction} {t : StoredTransaction}
      (log : Logs name initial j rows) (mem : t ∈ initial.rows name)
      (above : j.store.state.cursorOf pool < t.id) (accepts : j.store.refusesCommits = false) :
      Logs name initial (indexer.enter pools pool j t) (rows ++ [t])

/-- A row was left behind: it is not among the applied ones, but one with a higher id is. -/
def Lost (applied : List StoredTransaction) (t : StoredTransaction) : Prop :=
  t ∉ applied ∧ ∃ u ∈ applied, t.id < u.id

variable {indexer pools pool} {name : String} {initial : MemoryStore} {j : Journal MemoryStore}
  {rows : List StoredTransaction}

namespace Logs

theorem transactions_eq (h : indexer.Logs pools pool name initial j rows) :
    j.store.transactions = initial.transactions := by
  induction h with
  | start => rfl
  | apply _ _ _ _ ih => exact ih

theorem refusesCommits_eq (h : indexer.Logs pools pool name initial j rows) :
    j.store.refusesCommits = initial.refusesCommits := by
  induction h with
  | start => rfl
  | apply _ _ _ _ ih => exact ih

theorem initial_le_cursor (h : indexer.Logs pools pool name initial j rows) :
    initial.state.cursorOf pool ≤ j.store.state.cursorOf pool := by
  induction h with
  | start => exact le_rfl
  | apply _ _ _ _ ih =>
    rw [cursor_enter]
    exact ih.trans (le_max_left _ _)

/-- The cursor is not below any row. -/
theorem id_le_cursor (h : indexer.Logs pools pool name initial j rows) {t : StoredTransaction}
    (ht : t ∈ rows) : t.id ≤ j.store.state.cursorOf pool := by
  induction h with
  | start => cases ht
  | apply _ _ _ _ ih =>
    rw [cursor_enter]
    rcases List.mem_append.1 ht with ht | ht
    · exact (ih ht).trans (le_max_left _ _)
    · exact List.mem_singleton.1 ht ▸ le_max_right _ _

/-- The cursor is below whatever is above all rows. -/
theorem cursor_lt (h : indexer.Logs pools pool name initial j rows) {id : UInt64}
    (hinitial : initial.state.cursorOf pool < id) (hrows : ∀ t ∈ rows, t.id < id) :
    j.store.state.cursorOf pool < id := by
  induction h with
  | start => exact hinitial
  | apply _ _ _ _ ih =>
    rw [cursor_enter]
    refine max_lt (ih fun t ht => hrows t (List.mem_append_left _ ht)) ?_
    exact hrows _ (List.mem_append_right _ (List.mem_singleton_self _))

/-- The rows are in the strict order of their ids. -/
theorem pairwise_id_lt (h : indexer.Logs pools pool name initial j rows) :
    rows.Pairwise fun t u => t.id < u.id := by
  induction h with
  | start => exact .nil
  | apply log _ habove _ ih =>
    refine List.pairwise_append.2 ⟨ih, List.pairwise_singleton _ _, fun t ht u hu => ?_⟩
    rw [List.mem_singleton.1 hu]
    exact (log.id_le_cursor ht).trans_lt habove

/-- No row is applied to a store that refuses commits. -/
theorem eq_nil_of_refusesCommits (h : indexer.Logs pools pool name initial j rows)
    (hrefuses : initial.refusesCommits = true) : rows = [] := by
  cases h with
  | start => rfl
  | apply log _ _ haccepts =>
    rw [log.refusesCommits_eq, hrefuses] at haccepts
    cases haccepts

/-- The last entry of a journal is its store. -/
theorem suffix_past (h : indexer.Logs pools pool name initial j rows) :
    [j.store] <:+ j.past := by
  cases h with
  | start => exact List.suffix_rfl
  | apply => exact List.suffix_append _ _

/-- The rows that a journal tells of are the rows that were applied. -/
theorem hasApplied_iff (h : indexer.Logs pools pool name initial j rows)
    (hdistinct : initial.DistinctIds name) {t : StoredTransaction} (ht : t ∈ initial.rows name) :
    indexer.HasApplied pools pool j t ↔ t ∈ rows := by
  induction h with
  | start =>
    refine iff_of_false ?_ List.not_mem_nil
    rintro ⟨s, s', hinfix, -⟩
    have hlength := hinfix.length_le
    simp [Journal.ofStore] at hlength
  | @apply j rows u log hmem habove haccepts ih =>
    -- the new entry applies no row but its own, since each row leaves its id as the cursor
    have hnew : indexer.Applies pools pool j.store.state [t]
        (indexer.enter pools pool j u).store.state ↔ t = u := by
      rw [applies_iff]
      constructor
      · intro heq
        have hcursor : (indexer.applied pools pool j.store.state t).cursorOf pool =
            (indexer.enter pools pool j u).store.state.cursorOf pool :=
          congrArg (·.cursorOf pool) heq
        rw [cursor_applied, cursor_enter, max_eq_right habove.le] at hcursor
        rcases max_choice (j.store.state.cursorOf pool) t.id with hmax | hmax
        · exact absurd (hmax.symm.trans hcursor) habove.ne
        · exact hdistinct.eq_of_id_eq ht hmem (hmax.symm.trans hcursor)
      · rintro rfl
        rfl
    rw [List.mem_append, List.mem_singleton, ← ih, ← hnew]
    constructor
    · rintro ⟨s, s', hinfix, happlies⟩
      rcases List.infix_concat_iff.1 hinfix with hsuffix | hinfix
      · obtain ⟨hs, rfl⟩ : s = j.store ∧ s' = _ := by
          obtain ⟨before, hbefore⟩ := log.suffix_past
          rw [← hbefore, List.append_assoc] at hsuffix
          have hsuffix := List.suffix_of_suffix_length_le hsuffix (List.suffix_append _ _) le_rfl
          have hpair := hsuffix.eq_of_length rfl
          exact ⟨(List.cons.inj hpair).1, (List.cons.inj (List.cons.inj hpair).2).1⟩
        rw [hs] at happlies
        exact .inr happlies
      · exact .inl ⟨s, s', hinfix, happlies⟩
    · rintro (⟨s, s', hinfix, happlies⟩ | happlies)
      · exact ⟨s, s', hinfix.trans (List.prefix_append _ _).isInfix, happlies⟩
      · refine ⟨j.store, (indexer.enter pools pool j u).store, ?_, happlies⟩
        obtain ⟨before, hbefore⟩ := log.suffix_past
        rw [enter, Journal.record, ← hbefore, List.append_assoc]
        exact (List.suffix_append _ _).isInfix

/-- A row that was left behind is never applied. -/
theorem lost_append {more : List StoredTransaction}
    (h : indexer.Logs pools pool name initial j (rows ++ more)) {t : StoredTransaction}
    (hlost : Lost rows t) : Lost (rows ++ more) t := by
  obtain ⟨hnot, u, hu, hlt⟩ := hlost
  refine ⟨fun ht => ?_, u, List.mem_append_left _ hu, hlt⟩
  rcases List.mem_append.1 ht with ht | ht
  · exact hnot ht
  · -- what is applied later has a higher id than all before
    exact lt_asymm hlt ((List.pairwise_append.1 h.pairwise_id_lt).2.2 u hu t ht)

end Logs

/-! ### Cycles -/

/-- A cycle under way on a journal that tells of some rows. -/
structure Logging (indexer : Indexer) (pools : PoolSnapshot) (pool : PoolConfig) (name : String)
    (initial : MemoryStore) (s : CycleState (Journal MemoryStore)) (rows : List StoredTransaction) :
    Prop extends CycleState.Attuned pool s where
  logs : indexer.Logs pools pool name initial s.link.store rows

namespace Logging

variable {s : CycleState (Journal MemoryStore)}

/-- A call that did not commit leaves the cycle where it is. -/
theorem of_undone (h : indexer.Logging pools pool name initial s rows)
    {link : Link (Journal MemoryStore)} (hundone : s.link.Undone link) {report : CycleReport}
    (hcursor : report.cursor = s.report.cursor) :
    indexer.Logging pools pool name initial ⟨link, report⟩ rows := by
  refine ⟨h.toAttuned.of_undone hundone hcursor, ?_⟩
  show indexer.Logs pools pool name initial link.store rows
  rw [hundone.store_eq]
  exact h.logs

/-- A page that was fetched consists of rows of the store. -/
theorem of_fetchPage (h : indexer.Logging pools pool name initial s rows) {limit retries : Nat}
    {page : List StoredTransaction} {link : Link (Journal MemoryStore)}
    (hfetch : Link.fetchPage name s.report.cursor limit retries s.link = .ok page link) :
    indexer.Logging pools pool name initial ⟨link, s.report.addPage⟩ rows ∧
      ∀ t ∈ page, t ∈ initial.rows name := by
  obtain ⟨hundone, hpage⟩ := h.of_fetchPage_ok hfetch
  refine ⟨h.of_undone hundone rfl, fun t ht => ?_⟩
  rw [← hpage] at ht
  obtain ⟨hstored, hpool, -⟩ := MemoryStore.mem_rowsAfter.1 (List.mem_of_mem_take ht)
  exact MemoryStore.mem_rows.2 ⟨h.logs.transactions_eq ▸ hstored, hpool⟩

/-- A row is applied or not. -/
theorem applyRow (h : indexer.Logging pools pool name initial s rows) (lower : Option UInt64)
    {t : StoredTransaction} (ht : t ∈ initial.rows name) :
    ∃ more, indexer.Logging pools pool name initial
      (lastState (indexer.applyRow pools pool lower t s)) (rows ++ more) := by
  obtain ⟨u, hu, -, hrow⟩ := h.applyRow_cases indexer pools lower t
  rcases hrow with ⟨-, rfl, hrun⟩ | ⟨hstore, stop, hrun⟩ | ⟨habove, haccepts, hstore, -, hrun⟩
  · rw [hrun]
    refine ⟨[], hu, ?_⟩
    rw [List.append_nil]
    exact h.logs
  · rw [hrun]
    refine ⟨[], hu, ?_⟩
    rw [List.append_nil]
    exact hstore ▸ h.logs
  · rw [hrun]
    rw [h.cursor_eq] at habove
    exact ⟨[t], hu, hstore ▸ h.logs.apply ht habove haccepts⟩

/-- Some rows of a page are applied. -/
theorem applyPage (h : indexer.Logging pools pool name initial s rows)
    {page : List StoredTransaction} (hpage : ∀ t ∈ page, t ∈ initial.rows name) :
    ∃ more, indexer.Logging pools pool name initial
      (lastState (indexer.applyPage pools pool page s)) (rows ++ more) := by
  refine forM_preserves (P := fun u => ∃ more, indexer.Logging pools pool name initial u
    (rows ++ more)) ?_ ⟨[], ?_⟩
  · rintro ⟨t, position⟩ ht u ⟨more, hu⟩
    obtain ⟨more', hrow⟩ := hu.applyRow _ (hpage t (List.fst_mem_of_mem_zipIdx ht))
    rw [List.append_assoc] at hrow
    exact ⟨more ++ more', hrow⟩
  · rw [List.append_nil]
    exact h

/-- Some rows of the pages of a cycle are applied. -/
theorem applyPages (h : indexer.Logging pools pool name initial s rows) (start : UInt64) :
    ∃ more, indexer.Logs pools pool name initial
      (indexer.applyPages pools name pool start s).2.store (rows ++ more) := by
  have hnone {link : Link (Journal MemoryStore)} {rows : List StoredTransaction}
      (hlogs : indexer.Logs pools pool name initial link.store rows) :
      ∃ more, indexer.Logs pools pool name initial link.store (rows ++ more) :=
    ⟨[], by rwa [List.append_nil]⟩
  fun_induction Indexer.applyPages indexer pools name pool start s generalizing rows with
  | case1 s link hfetch | case2 s e link hfetch =>
    exact hnone (h.of_undone (Link.undone_of_fetchPage_error h.asks hfetch) rfl).logs
  | case3 s link hfetch =>
    exact hnone (h.of_undone (Link.of_fetchPage_ok h.asks hfetch).1 rfl).logs
  | case4 s first rest link hfetch t hrun | case5 s first rest link hfetch e t hrun
  | case7 s first rest link hfetch u t hrun hadvances =>
    obtain ⟨hbegun, hmem⟩ := h.of_fetchPage hfetch
    obtain ⟨more, hpage⟩ := hbegun.applyPage hmem
    rw [hrun] at hpage
    exact ⟨more, hpage.logs⟩
  | case6 s first rest link hfetch u t hrun hadvances ih =>
    obtain ⟨hbegun, hmem⟩ := h.of_fetchPage hfetch
    obtain ⟨more, hpage⟩ := hbegun.applyPage hmem
    rw [hrun] at hpage
    obtain ⟨more', hall⟩ := ih hpage
    rw [List.append_assoc] at hall
    exact ⟨more ++ more', hall⟩

end Logging

/-- Some rows are applied in a cycle. -/
theorem Logs.runCycle {link : Link (Journal MemoryStore)}
    (h : indexer.Logs pools pool name initial link.store rows)
    (hpool : pools.find? name = some pool) (hasks : link.AsksStore) :
    ∃ more, indexer.Logs pools pool name initial (indexer.runCycle pools name link).2.store
      (rows ++ more) := by
  obtain ⟨s, hs, hundone, ⟨ending, hrun, -⟩ | ⟨start, hrun⟩⟩ := indexer.runCycle_cases hpool hasks
  · rw [hrun]
    refine ⟨[], ?_⟩
    rw [List.append_nil]
    exact hundone.store_eq ▸ h
  · rw [hrun]
    have hlogging : indexer.Logging pools pool name initial s rows := ⟨hs, hundone.store_eq ▸ h⟩
    exact hlogging.applyPages start

end Indexer

end PoolKlines
