import Mathlib.Algebra.Ring.Nat
import PoolKlines.Proofs.Sync.Cycle
import PoolKlines.Proofs.Sync.Journal

/-!
# The ledger of a cycle

On any store, a report can be held against the transactions that were committed during the cycle.

* `Indexer.Commits` says that one transaction was applied and committed, and `Indexer.Ledger` that
  some were, one after the other;
* `Ascends` says that the ids of rows ascend from a number, and `lastId` is the last of them;
* `Indexer.Underway` is the invariant of a cycle: its report counts the rows of the ledger and
  names the last of them;
* `Indexer.applyRow_cases` says what a row can do, `Underway.applyPage` what a page can do, and
  `Indexer.Accounts` is what remains at the end of a cycle, as `Underway.applyPages` and
  `Indexer.accounts_runCycle` say;
* `Indexer.Ledger.moves`: what every commit moves to the id of its row is moved to the last id;
* `Indexer.CommitsKeep.runCycle`: what no commit takes away, no cycle takes away;
* `Indexer.Ledger.store`, `Indexer.Ledger.length_past` and `Indexer.Ledger.past`: on a journal, the
  commits are those to the store which it keeps, and each is an entry.

A report leaves the cursor of the ledger in one case only, which is a request that failed for good.
-/

namespace PoolKlines

/-! ### Errors -/

/-- A request for a page failed. -/
def IndexerError.isFetch : IndexerError → Bool
  | fetch _ => true
  | _ => false

/-- The cycle ended because a request for a page failed. -/
def CycleReport.fetchFailed (r : CycleReport) : Bool := r.error.any (·.isFetch)

namespace Link

variable {σ β : Type} [Store σ β]

theorem store_fetch (link : Link σ) (pool : String) (after : UInt64) (limit : Nat) :
    (lastState (fetch pool after limit link)).store = link.store := by
  unfold fetch
  cases link.fetches.head?.getD .ask with
  | ask =>
    simp only [answer]
    cases Store.fetchAfter link.store pool after limit <;> rfl
  | page rows => rfl
  | fault fault => rfl

/-- A request for a page leaves the store alone. -/
theorem store_fetchPage (link : Link σ) (pool : String) (after : UInt64) (limit retries : Nat) :
    (lastState (fetchPage pool after limit retries link)).store = link.store := by
  induction retries generalizing link with
  | zero => exact link.store_fetch pool after limit
  | succ retries ih =>
    have hfetch := link.store_fetch pool after limit
    unfold fetchPage
    cases hresult : fetch pool after limit link with
    | ok rows rest =>
      rw [hresult] at hfetch
      exact hfetch
    | error fault rest =>
      rw [hresult] at hfetch
      cases fault with
      | abort => exact hfetch
      | refuse e => exact (ih rest).trans hfetch

/-- What holds of the store before a request holds after it. -/
theorem keeps_fetchPage {P : σ → Prop} {link : Link σ} (h : P link.store) {pool : String}
    {after : UInt64} {limit retries : Nat}
    {result : EStateM.Result Fault (Link σ) (List StoredTransaction)}
    (hfetch : fetchPage pool after limit retries link = result) : P (lastState result).store := by
  rw [← hfetch, store_fetchPage]
  exact h

/-- A cursor that was read is that of the store, and reading leaves the store alone. -/
theorem of_readCursor_ok {link rest : Link σ} {pool : String} {version : ProtocolVersion}
    {cursor : UInt64} (h : readCursor pool version link = .ok cursor rest) :
    rest.store = link.store ∧ Store.cursor link.store pool version = .ok cursor := by
  obtain ⟨rest', hundone, hcases⟩ := link.readCursor_cases pool version
  rcases hcases with ⟨fault, hread⟩ | ⟨cursor', hcursor, hread⟩
  · rw [h] at hread
    cases hread
  · rw [h] at hread
    cases hread
    exact ⟨hundone.store_eq, hcursor⟩

end Link

/-! ### Rows in the order of their ids -/

/-- The ids of rows ascend from a number. -/
def Ascends (start : UInt64) (rows : List StoredTransaction) : Prop :=
  (start :: rows.map (·.id)).Pairwise (· < ·)

instance (start : UInt64) (rows : List StoredTransaction) : Decidable (Ascends start rows) :=
  inferInstanceAs (Decidable (List.Pairwise _ _))

/-- The last id of rows, or the number at which they begin. -/
def lastId (start : UInt64) (rows : List StoredTransaction) : UInt64 :=
  (rows.getLast?.map (·.id)).getD start

@[simp] theorem lastId_nil (start : UInt64) : lastId start [] = start := rfl

@[simp] theorem lastId_concat (start : UInt64) (rows : List StoredTransaction)
    (t : StoredTransaction) : lastId start (rows ++ [t]) = t.id := by
  simp [lastId]

namespace Ascends

variable {start : UInt64} {rows more : List StoredTransaction} {t : StoredTransaction}

theorem nil : Ascends start [] := List.pairwise_singleton _ _

theorem pairwise (h : Ascends start rows) : rows.Pairwise fun t u => t.id < u.id :=
  List.pairwise_map.1 (List.pairwise_cons.1 h).2

theorem lt_of_mem (h : Ascends start rows) (ht : t ∈ rows) : start < t.id :=
  (List.pairwise_cons.1 h).1 _ (List.mem_map_of_mem ht)

theorem start_le_lastId (h : Ascends start rows) : start ≤ lastId start rows := by
  unfold lastId
  cases hlast : rows.getLast? with
  | none => exact le_rfl
  | some t => exact (h.lt_of_mem (List.mem_of_getLast? hlast)).le

theorem le_lastId (h : Ascends start rows) (ht : t ∈ rows) : t.id ≤ lastId start rows := by
  rw [lastId, List.getLast?_eq_some_getLast (List.ne_nil_of_mem ht)]
  exact le_getLast_of_sorted h.pairwise ht

/-- A row above the last id goes on. -/
theorem concat (h : Ascends start rows) (ht : lastId start rows < t.id) :
    Ascends start (rows ++ [t]) := by
  unfold Ascends
  rw [List.map_append, ← List.cons_append, List.pairwise_append]
  refine ⟨h, List.pairwise_singleton _ _, fun id hid id' hid' => ?_⟩
  obtain rfl : id' = t.id := List.mem_singleton.1 hid'
  rcases List.mem_cons.1 hid with rfl | hid
  · exact h.start_le_lastId.trans_lt ht
  · obtain ⟨u, hu, rfl⟩ := List.mem_map.1 hid
    exact (h.le_lastId hu).trans_lt ht

theorem of_append (h : Ascends start (rows ++ more)) : Ascends start rows := by
  unfold Ascends at h
  rw [List.map_append, ← List.cons_append, List.pairwise_append] at h
  exact h.1

/-- The rows that go on are above all before. -/
theorem lastId_lt (h : Ascends start (rows ++ more)) (ht : t ∈ more) :
    lastId start rows < t.id := by
  unfold lastId
  cases hlast : rows.getLast? with
  | none => exact h.lt_of_mem (List.mem_append_right _ ht)
  | some u =>
    exact (List.pairwise_append.1 h.pairwise).2.2 u (List.mem_of_getLast? hlast) t ht

end Ascends

namespace Indexer

variable {σ β : Type} [Store σ β]

section

variable (indexer : Indexer) (pools : PoolSnapshot) (pool : PoolConfig)

/-! ### Commits -/

/-- A transaction was applied to a store and committed. -/
def Commits (s : σ) (t : StoredTransaction) (s' : σ) : Prop :=
  ∃ batch staged, Store.begin s = .ok batch ∧
    indexer.stage pool t.id (indexer.decode pools pool t).1 batch = .ok () staged ∧
    Store.commit s staged = .ok s'

/-- Some transactions were applied to a store and committed, one after the other. -/
inductive Ledger (s : σ) : List StoredTransaction → σ → Prop
  | nil : Ledger s [] s
  | snoc {rows : List StoredTransaction} {mid s' : σ} {t : StoredTransaction}
      (ledger : Ledger s rows mid) (commits : indexer.Commits pools pool mid t s') :
      Ledger s (rows ++ [t]) s'

/-- A report counts the transactions that were applied, their records, and those in which nothing
could be decoded. -/
structure Tallies (report : CycleReport) (rows : List StoredTransaction) : Prop where
  applied_eq : report.applied = rows.length
  records_eq : report.records = (rows.map fun t => (indexer.decode pools pool t).1.length).sum
  undecodable_eq :
    report.undecodable = rows.countP fun t => (indexer.decode pools pool t).2.isSome

/-- An error of staging comes from a record or from the cursor. -/
theorem stage_error_cases {txId : UInt64} {records : List Record} {batch rest : β}
    {e : IndexerError} (h : indexer.stage pool txId records batch = .error e rest) :
    (∃ record ∈ records, ∃ (b b' : β) (cause : RollupError),
        Rollup.apply indexer.prices pool record b = .error cause b' ∧ e = .rollup txId cause) ∨
      ∃ cause, e = .commit txId cause := by
  unfold stage at h
  cases hrecords : records.forM (fun record => EStateM.adaptExcept (IndexerError.rollup txId)
      (Rollup.apply indexer.prices pool record)) batch with
  | error e' mid =>
    rw [bind_of_error hrecords] at h
    cases h
    obtain ⟨record, hmem, b, hrecord⟩ := exists_of_forM_error hrecords
    obtain ⟨cause, happly, rfl⟩ := exists_of_adaptExcept_error hrecord
    exact .inl ⟨record, hmem, b, _, cause, happly, rfl⟩
  | ok u mid =>
    rw [bind_of_ok hrecords] at h
    obtain ⟨cause, -, rfl⟩ := exists_of_adaptExcept_error h
    exact .inr ⟨cause, rfl⟩

/-- An error of a transaction comes from beginning or committing its batch, or from a record. -/
theorem process_error_cases {t : StoredTransaction} {link rest : Link σ} {e : IndexerError}
    (h : indexer.process pools pool t link = .error (.error e) rest) :
    (∃ cause, e = .storage cause) ∨ (∃ cause, e = .commit t.id cause) ∨
      ∃ record ∈ (indexer.decode pools pool t).1, ∃ (b b' : β) (cause : RollupError),
        Rollup.apply indexer.prices pool record b = .error cause b' ∧ e = .rollup t.id cause := by
  rw [process_eq] at h
  cases hbegin : Link.begin link with
  | error fault begun =>
    simp only [hbegin] at h
    cases fault <;> cases h
    exact .inl ⟨_, rfl⟩
  | ok batch begun =>
    simp only [hbegin] at h
    cases hstage : indexer.stage pool t.id (indexer.decode pools pool t).1 batch with
    | error e' mid =>
      simp only [hstage] at h
      cases h
      exact .inr (stage_error_cases indexer pool hstage).symm
    | ok u staged =>
      simp only [hstage] at h
      cases hcommit : Link.commit staged begun with
      | error fault rest =>
        simp only [hcommit] at h
        cases fault <;> cases h
        exact .inr (.inl ⟨_, rfl⟩)
      | ok u rest =>
        simp only [hcommit] at h
        cases h

/-- An error of a row is about an inversion at the row, or it is one of the transaction. -/
theorem applyRow_error_cases {lower : Option UInt64} {t : StoredTransaction} {s u : CycleState σ}
    {e : IndexerError} (h : indexer.applyRow pools pool lower t s = .error (.error e) u) :
    (∃ id, lower = some id ∧ e = .outOfOrder t.id t.slot id) ∨
      lower = none ∧ ∃ rest, indexer.process pools pool t s.link = .error (.error e) rest := by
  unfold applyRow at h
  split at h
  · cases h
  · cases lower with
    | some lower =>
      cases h
      exact .inl ⟨lower, rfl, rfl⟩
    | none =>
      cases hprocess : indexer.process pools pool t s.link with
      | ok outcome link =>
        simp only [hprocess] at h
        cases h
      | error stop link =>
        simp only [hprocess] at h
        cases h
        exact .inr ⟨rfl, link, rfl⟩

/-- An error of a page is about an inversion on the page, or it is one of a transaction. -/
theorem applyPage_error_cases {page : List StoredTransaction} {s u : CycleState σ}
    {e : IndexerError} (h : indexer.applyPage pools pool page s = .error (.error e) u) :
    (findInversion? page ≠ none ∧ ∃ (t : StoredTransaction) (lower : UInt64),
        e = .outOfOrder t.id t.slot lower) ∨
      ∃ (t : StoredTransaction) (link rest : Link σ),
        indexer.process pools pool t link = .error (.error e) rest := by
  obtain ⟨⟨t, position⟩, -, mid, hrow⟩ := exists_of_forM_error h
  rcases applyRow_error_cases indexer pools pool hrow with ⟨lower, hlower, rfl⟩ | ⟨-, rest, h⟩
  · refine .inl ⟨fun hnone => ?_, t, lower, rfl⟩
    rw [hnone] at hlower
    cases hlower
  · exact .inr ⟨t, mid.link, rest, h⟩

/-- An error of a page is no error of a request. -/
theorem applyPage_error {page : List StoredTransaction} {s u : CycleState σ} {e : IndexerError}
    (h : indexer.applyPage pools pool page s = .error (.error e) u) : e.isFetch = false := by
  rcases applyPage_error_cases indexer pools pool h with ⟨-, _, _, rfl⟩ | ⟨_, _, _, hprocess⟩
  · rfl
  · rcases process_error_cases indexer pools pool hprocess with
      ⟨_, rfl⟩ | ⟨_, rfl⟩ | ⟨_, _, _, _, _, _, rfl⟩ <;> rfl

/-- The outcome of a transaction that was applied. -/
theorem outcome_eq_of_process {t : StoredTransaction} {link rest : Link σ} {outcome : Outcome}
    (h : indexer.process pools pool t link = .ok outcome rest) :
    outcome = ⟨(indexer.decode pools pool t).1.length,
      (indexer.decode pools pool t).2.isSome⟩ := by
  rw [process_eq] at h
  split at h
  · cases h
  · split at h
    · cases h
    · split at h
      · cases h
      · cases h
        rfl

/-- To apply a transaction either fails and leaves the store alone, or commits it. -/
theorem process_commits (t : StoredTransaction) (link : Link σ) :
    ∃ rest, rest.fetches = link.fetches ∧
      ((∃ stop, indexer.process pools pool t link = .error stop rest ∧ rest.store = link.store) ∨
        indexer.process pools pool t link =
            .ok ⟨(indexer.decode pools pool t).1.length,
              (indexer.decode pools pool t).2.isSome⟩ rest ∧
          indexer.Commits pools pool link.store t rest.store) := by
  obtain ⟨rest, hfetches, hprocess⟩ := indexer.process_cases pools pool t link
  refine ⟨rest, hfetches, hprocess.imp_right ?_⟩
  rintro ⟨batch, staged, outcome, hbegin, hstage, hcommit, hprocess⟩
  obtain rfl := indexer.outcome_eq_of_process pools pool hprocess
  exact ⟨hprocess, batch, staged, hbegin, hstage, hcommit⟩

/-- A transaction that can be committed is applied over a link on which batches meet no fault. -/
theorem process_of_commits {t : StoredTransaction} {link : Link σ} {s' : σ}
    (h : indexer.Commits pools pool link.store t s') (hbegins : link.begins = [])
    (hcommits : link.commits = []) :
    indexer.process pools pool t link =
      .ok ⟨(indexer.decode pools pool t).1.length, (indexer.decode pools pool t).2.isSome⟩
        { link with store := s' } := by
  obtain ⟨batch, staged, hbatch, hstage, hstore⟩ := h
  obtain ⟨store, fetches, reads, begins, commits, requests⟩ := link
  subst hbegins hcommits
  have hbegin : Link.begin (⟨store, fetches, reads, [], [], requests⟩ : Link σ) =
      .ok batch ⟨store, fetches, reads, [], [], requests⟩ := by
    simp only [Link.begin, Link.answer, Link.finish, hbatch]
    rfl
  have hcommit : Link.commit staged (⟨store, fetches, reads, [], [], requests⟩ : Link σ) =
      .ok () ⟨s', fetches, reads, [], [], requests⟩ := by
    simp only [Link.commit, Link.answer, hstore]
    rfl
  rw [process_eq, hbegin]
  simp only [hstage, hcommit]

/-- A row is passed over, or fails and changes nothing, or is committed. -/
theorem applyRow_cases (lower : Option UInt64) (t : StoredTransaction) (s : CycleState σ) :
    (t.id ≤ s.report.cursor ∧ indexer.applyRow pools pool lower t s = .ok () s) ∨
    s.report.cursor < t.id ∧ ∃ link : Link σ, link.fetches = s.link.fetches ∧
      ((∃ stop, indexer.applyRow pools pool lower t s = .error stop ⟨link, s.report⟩ ∧
          link.store = s.link.store) ∨
        indexer.applyRow pools pool lower t s = .ok () ⟨link, s.report.addOutcome t.id
            ⟨(indexer.decode pools pool t).1.length, (indexer.decode pools pool t).2.isSome⟩⟩ ∧
          indexer.Commits pools pool s.link.store t link.store) := by
  unfold applyRow
  by_cases hle : t.id ≤ s.report.cursor
  · rw [if_pos hle]
    exact .inl ⟨hle, rfl⟩
  · rw [if_neg hle]
    refine .inr ⟨not_le.1 hle, ?_⟩
    cases lower with
    | some lower => exact ⟨s.link, rfl, .inl ⟨_, rfl, rfl⟩⟩
    | none =>
      obtain ⟨link, hfetches, hprocess⟩ := indexer.process_commits pools pool t s.link
      rcases hprocess with ⟨stop, hprocess, hstore⟩ | ⟨hprocess, hcommits⟩
      · simp only [hprocess]
        exact ⟨link, hfetches, .inl ⟨stop, rfl, hstore⟩⟩
      · simp only [hprocess]
        exact ⟨link, hfetches, .inr ⟨rfl, hcommits⟩⟩

/-! ### Cycles -/

/-- A cycle under way has applied some rows since it began with a store and a cursor. Its report
counts them, and names the last of them. -/
structure Underway (initial : σ) (start : UInt64) (s : CycleState σ)
    (rows : List StoredTransaction) : Prop where
  ledger : indexer.Ledger pools pool initial rows s.link.store
  tallies : indexer.Tallies pools pool s.report rows
  ascends : Ascends start rows
  cursor_eq : s.report.cursor = lastId start rows
  error_eq : s.report.error = none

/-- What a report says of the rows that were applied in a cycle. After a request that failed for
good, it names the cursor at which the cycle began, and otherwise the last row. -/
structure Accounts (initial : σ) (start : UInt64) (report : CycleReport) (final : σ)
    (rows : List StoredTransaction) : Prop where
  ledger : indexer.Ledger pools pool initial rows final
  tallies : indexer.Tallies pools pool report rows
  ascends : Ascends start rows
  cursor_eq : report.cursor = if report.fetchFailed then start else lastId start rows

end

variable {indexer : Indexer} {pools : PoolSnapshot} {pool : PoolConfig} {initial : σ}
  {start : UInt64} {s : CycleState σ} {rows : List StoredTransaction}

theorem Tallies.concat {report : CycleReport} (h : indexer.Tallies pools pool report rows)
    (t : StoredTransaction) :
    indexer.Tallies pools pool (report.addOutcome t.id
      ⟨(indexer.decode pools pool t).1.length, (indexer.decode pools pool t).2.isSome⟩)
      (rows ++ [t]) where
  applied_eq := by simp [CycleReport.addOutcome, h.applied_eq]
  records_eq := by simp [CycleReport.addOutcome, h.records_eq]
  undecodable_eq := by
    rw [List.countP_append, ← h.undecodable_eq]
    cases hundecodable : (indexer.decode pools pool t).2.isSome <;>
      simp [CycleReport.addOutcome, hundecodable]

namespace Underway

/-- A cycle begins with the cursor that was read. -/
theorem begin (link : Link σ) (cursor : UInt64) :
    indexer.Underway pools pool link.store cursor ⟨link, { CycleReport.empty with cursor }⟩ [] :=
  ⟨.nil, ⟨rfl, rfl, rfl⟩, .nil, rfl, rfl⟩

/-- A call that did not commit leaves the cycle where it is. -/
theorem of_store_eq (h : indexer.Underway pools pool initial start s rows) {link : Link σ}
    (hstore : link.store = s.link.store) :
    indexer.Underway pools pool initial start ⟨link, s.report⟩ rows :=
  ⟨hstore ▸ h.ledger, h.tallies, h.ascends, h.cursor_eq, h.error_eq⟩

theorem addPage (h : indexer.Underway pools pool initial start s rows) :
    indexer.Underway pools pool initial start ⟨s.link, s.report.addPage⟩ rows :=
  ⟨h.ledger, ⟨h.tallies.applied_eq, h.tallies.records_eq, h.tallies.undecodable_eq⟩, h.ascends,
    h.cursor_eq, h.error_eq⟩

/-- A row above the cursor that is committed goes on the ledger. -/
theorem commit (h : indexer.Underway pools pool initial start s rows) {t : StoredTransaction}
    (habove : s.report.cursor < t.id) {link : Link σ}
    (hcommits : indexer.Commits pools pool s.link.store t link.store) :
    indexer.Underway pools pool initial start ⟨link, s.report.addOutcome t.id
      ⟨(indexer.decode pools pool t).1.length, (indexer.decode pools pool t).2.isSome⟩⟩
      (rows ++ [t]) where
  ledger := h.ledger.snoc hcommits
  tallies := h.tallies.concat t
  ascends := h.ascends.concat (h.cursor_eq ▸ habove)
  cursor_eq := (lastId_concat ..).symm
  error_eq := h.error_eq

/-- Some rows of a page are committed. -/
theorem applyPage (h : indexer.Underway pools pool initial start s rows)
    (page : List StoredTransaction) :
    ∃ rows', indexer.Underway pools pool initial start
      (lastState (indexer.applyPage pools pool page s)) rows' := by
  refine forM_preserves (P := fun u => ∃ rows', indexer.Underway pools pool initial start u rows')
    ?_ ⟨rows, h⟩
  rintro ⟨t, position⟩ - u ⟨rows', hu⟩
  simp only
  rcases indexer.applyRow_cases pools pool _ t u with
    ⟨-, hrow⟩ | ⟨habove, link, -, ⟨stop, hrow, hstore⟩ | ⟨hrow, hcommits⟩⟩
  · rw [hrow]
    exact ⟨rows', hu⟩
  · rw [hrow]
    exact ⟨rows', hu.of_store_eq hstore⟩
  · rw [hrow]
    exact ⟨rows' ++ [t], hu.commit habove hcommits⟩

/-- A request for a page leaves the cycle where it is. -/
theorem of_fetchPage (h : indexer.Underway pools pool initial start s rows) {name : String}
    {result : EStateM.Result Fault (Link σ) (List StoredTransaction)}
    (hfetch : Link.fetchPage name s.report.cursor indexer.pageSize indexer.fetchRetries s.link =
      result) :
    indexer.Underway pools pool initial start ⟨lastState result, s.report⟩ rows := by
  refine h.of_store_eq ?_
  rw [← hfetch]
  exact Link.store_fetchPage ..

/-- Some rows of a page that was fetched are committed. -/
theorem of_applyPage (h : indexer.Underway pools pool initial start s rows) {name : String}
    {page : List StoredTransaction} {link : Link σ}
    {result : EStateM.Result Stop (CycleState σ) Unit}
    (hfetch : Link.fetchPage name s.report.cursor indexer.pageSize indexer.fetchRetries s.link =
      .ok page link)
    (hpage : indexer.applyPage pools pool page ⟨link, s.report.addPage⟩ = result) :
    ∃ rows', indexer.Underway pools pool initial start (lastState result) rows' := by
  rw [← hpage]
  exact (h.of_fetchPage hfetch).addPage.applyPage page

/-- The pages of a cycle leave a ledger, which the report accounts for. -/
theorem applyPages (h : indexer.Underway pools pool initial start s rows) {name : String}
    {report : CycleReport} {last : Link σ}
    (hrun : indexer.applyPages pools name pool start s = (.report report, last)) :
    ∃ rows', indexer.Accounts pools pool initial start report last.store rows' := by
  fun_induction Indexer.applyPages indexer pools name pool start s generalizing rows with
  | case1 s link hfetch => cases hrun
  | case2 s e link hfetch =>
    cases hrun
    have hs := h.of_fetchPage hfetch
    exact ⟨rows, hs.ledger, ⟨h.tallies.applied_eq, h.tallies.records_eq, h.tallies.undecodable_eq⟩,
      h.ascends, rfl⟩
  | case3 s link hfetch =>
    cases hrun
    have hs := h.of_fetchPage hfetch
    refine ⟨rows, hs.ledger, h.tallies, h.ascends, ?_⟩
    rw [CycleReport.fetchFailed, h.error_eq]
    exact h.cursor_eq
  | case4 s first rest link hfetch t hpage => cases hrun
  | case5 s first rest link hfetch e t hpage =>
    cases hrun
    obtain ⟨rows', ht⟩ := h.of_applyPage hfetch hpage
    refine ⟨rows', ht.ledger, ⟨ht.tallies.applied_eq, ht.tallies.records_eq,
      ht.tallies.undecodable_eq⟩, ht.ascends, ?_⟩
    have herror : e.isFetch = false := applyPage_error indexer pools pool hpage
    rw [CycleReport.fetchFailed, Option.any_some, herror]
    exact ht.cursor_eq
  | case6 s first rest link hfetch u t hpage hadvances ih =>
    obtain ⟨rows', ht⟩ := h.of_applyPage hfetch hpage
    exact ih ht hrun
  | case7 s first rest link hfetch u t hpage hadvances => cases hrun

end Underway

/-- A cycle that could read the cursor leaves a ledger, which its report accounts for. -/
theorem accounts_runCycle {name : String} (hpool : pools.find? name = some pool)
    {link rest last : Link σ} {report : CycleReport}
    (hread : Link.readCursor pool.address pool.version link = .ok start rest)
    (hrun : indexer.runCycle pools name link = (.report report, last)) :
    ∃ rows, indexer.Accounts pools pool link.store start report last.store rows := by
  unfold runCycle at hrun
  rw [hpool] at hrun
  simp only [hread] at hrun
  rw [← (Link.of_readCursor_ok hread).1]
  exact (Underway.begin rest start).applyPages hrun

/-- If every commit moves something from a number to the id of its row, all commits move it to the
last id. -/
theorem Ledger.moves {P : σ → UInt64 → Prop} {s s' : σ} (h : indexer.Ledger pools pool s rows s')
    (hstep : ∀ {u v : σ} {t : StoredTransaction} {cursor : UInt64}, t ∈ rows → cursor < t.id →
      P u cursor → indexer.Commits pools pool u t v → P v t.id)
    (hascends : Ascends start rows) (hstart : P s start) : P s' (lastId start rows) := by
  induction h with
  | nil => exact hstart
  | @snoc rows mid s' t _ hcommits ih =>
    have hbefore := ih (fun ht => hstep (List.mem_append_left _ ht)) hascends.of_append
    have hlast : t ∈ rows ++ [t] := List.mem_append_right _ (List.mem_singleton_self t)
    rw [lastId_concat]
    exact hstep hlast (hascends.lastId_lt (List.mem_singleton_self t)) hbefore hcommits

/-! ### What commits keep -/

/-- No commit takes a property away, whatever the pool and the transaction are. -/
def CommitsKeep (indexer : Indexer) (P : σ → Prop) : Prop :=
  ∀ (pools : PoolSnapshot) (pool : PoolConfig) (s : σ) (t : StoredTransaction) (s' : σ),
    P s → indexer.Commits pools pool s t s' → P s'

namespace CommitsKeep

variable {P : σ → Prop}

theorem applyPage (h : indexer.CommitsKeep P) (hs : P s.link.store)
    (page : List StoredTransaction) :
    P (lastState (indexer.applyPage pools pool page s)).link.store := by
  refine forM_preserves (P := fun u : CycleState σ => P u.link.store) ?_ hs
  rintro ⟨t, position⟩ - u hu
  simp only
  rcases indexer.applyRow_cases pools pool _ t u with
    ⟨-, hrow⟩ | ⟨-, link, -, ⟨stop, hrow, hstore⟩ | ⟨hrow, hcommits⟩⟩
  · rw [hrow]
    exact hu
  · rw [hrow]
    show P link.store
    rwa [hstore]
  · rw [hrow]
    exact h pools pool _ t _ hu hcommits

theorem of_applyPage (h : indexer.CommitsKeep P) (hs : P s.link.store)
    {page : List StoredTransaction} {result : EStateM.Result Stop (CycleState σ) Unit}
    (hpage : indexer.applyPage pools pool page s = result) : P (lastState result).link.store :=
  hpage ▸ h.applyPage hs page

/-- The pages of a cycle, however it ends. -/
theorem applyPages (h : indexer.CommitsKeep P) (hs : P s.link.store) (name : String) :
    P (indexer.applyPages pools name pool start s).2.store := by
  have happlied {s : CycleState σ} {page : List StoredTransaction} {link : Link σ}
      {result : EStateM.Result Stop (CycleState σ) Unit} (hlink : P link.store)
      (hpage : indexer.applyPage pools pool page ⟨link, s.report.addPage⟩ = result) :
      P (lastState result).link.store := h.of_applyPage hlink hpage
  fun_induction Indexer.applyPages indexer pools name pool start s with
  | case1 s link hfetch => exact Link.keeps_fetchPage hs hfetch
  | case2 s e link hfetch => exact Link.keeps_fetchPage hs hfetch
  | case3 s link hfetch => exact Link.keeps_fetchPage hs hfetch
  | case4 s first rest link hfetch t hpage => exact happlied (Link.keeps_fetchPage hs hfetch) hpage
  | case5 s first rest link hfetch e t hpage =>
    exact happlied (Link.keeps_fetchPage hs hfetch) hpage
  | case6 s first rest link hfetch u t hpage hadvances ih =>
    exact ih (happlied (Link.keeps_fetchPage hs hfetch) hpage)
  | case7 s first rest link hfetch u t hpage hadvances =>
    exact happlied (Link.keeps_fetchPage hs hfetch) hpage

/-- A cycle, however it ends. -/
theorem runCycle (h : indexer.CommitsKeep P) {link : Link σ} (hs : P link.store) (name : String) :
    P (indexer.runCycle pools name link).2.store := by
  unfold Indexer.runCycle
  cases pools.find? name with
  | none => exact hs
  | some pool =>
    obtain ⟨rest, hundone, hread⟩ := link.readCursor_cases pool.address pool.version
    have hrest : P rest.store := by rwa [hundone.store_eq]
    rcases hread with ⟨fault, hread⟩ | ⟨cursor, -, hread⟩
    · simp only [hread]
      cases fault <;> exact hrest
    · simp only [hread]
      exact h.applyPages hrest name

end CommitsKeep

/-! ### Journals -/

/-- A commit to a journal is a commit to the store that it keeps, and is entered. -/
theorem commits_journal {j j' : Journal σ} {t : StoredTransaction} :
    indexer.Commits pools pool j t j' ↔
      ∃ s', indexer.Commits pools pool j.store t s' ∧ j' = j.record s' := by
  constructor
  · rintro ⟨batch, staged, hbegin, hstage, hcommit⟩
    obtain ⟨s', hstore, rfl⟩ := map_eq_ok.1 hcommit
    exact ⟨s', ⟨batch, staged, hbegin, hstage, hstore⟩, rfl⟩
  · rintro ⟨s', ⟨batch, staged, hbegin, hstage, hstore⟩, rfl⟩
    exact ⟨batch, staged, hbegin, hstage, map_eq_ok.2 ⟨s', hstore, rfl⟩⟩

/-- The ledger of a journal is that of the store which it keeps. -/
theorem Ledger.store {j j' : Journal σ} (h : indexer.Ledger pools pool j rows j') :
    indexer.Ledger pools pool j.store rows j'.store := by
  induction h with
  | nil => exact .nil
  | snoc _ hcommits ih =>
    obtain ⟨s', hstore, rfl⟩ := commits_journal.1 hcommits
    exact ih.snoc hstore

/-- A journal has one entry for every commit. -/
theorem Ledger.length_past {j j' : Journal σ} (h : indexer.Ledger pools pool j rows j') :
    j'.past.length = j.past.length + rows.length := by
  induction h with
  | nil => rfl
  | snoc _ hcommits ih =>
    obtain ⟨s', -, rfl⟩ := commits_journal.1 hcommits
    simp only [Journal.record, List.length_append, List.length_singleton, ih]
    omega

/-- A transaction was committed between two states of the past that follow each other. -/
def CommittedIn (indexer : Indexer) (pools : PoolSnapshot) (pool : PoolConfig) (past : List σ)
    (t : StoredTransaction) : Prop :=
  ∃ s s' : σ, [s, s'] <:+: past ∧ indexer.Commits pools pool s t s'

/-- A journal that ends with the current state goes on with every commit. -/
theorem Ledger.past {j j' : Journal σ} (h : indexer.Ledger pools pool j rows j')
    (hnow : j.past.getLast? = some j.store) :
    j.past <+: j'.past ∧ j'.past.getLast? = some j'.store ∧
      ∀ t ∈ rows, indexer.CommittedIn pools pool j'.past t := by
  induction h with
  | nil => exact ⟨List.prefix_rfl, hnow, by simp⟩
  | @snoc rows mid j' t _ hcommits ih =>
    obtain ⟨hpast, hmid, hrows⟩ := ih
    obtain ⟨s', hstore, rfl⟩ := commits_journal.1 hcommits
    obtain ⟨before, hbefore⟩ := List.getLast?_eq_some_iff.1 hmid
    refine ⟨hpast.trans (List.prefix_append _ _), List.getLast?_concat, fun u hu => ?_⟩
    rcases List.mem_append.1 hu with hu | hu
    · obtain ⟨s, s', hinfix, hcommits⟩ := hrows u hu
      exact ⟨s, s', hinfix.trans (List.prefix_append _ _).isInfix, hcommits⟩
    · obtain rfl := List.mem_singleton.1 hu
      refine ⟨mid.store, s', ⟨before, [], ?_⟩, hstore⟩
      rw [Journal.record, hbefore, List.append_nil, List.append_assoc]
      rfl

end Indexer

end PoolKlines
