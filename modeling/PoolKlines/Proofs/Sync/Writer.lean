import PoolKlines.Proofs.Sync.ExactlyOnce
import PoolKlines.Proofs.Sync.Interference

/-!
# The order that a cursor relies on

Transactions are stored for any pools, and a worker runs cycle after cycle on the same store. The
other workers and the writer may come between any two of its commits.

* `WorkerCycle` is what a cycle meets, and `StoreEvent` is a cycle or what happens between cycles;
* `Indexer.runShared` carries out a history on a journal;
* `Indexer.KeepsOrder` is the invariant: the table is in order, and all rows up to the cursor were
  applied;
* `writer_keeps_order`: at all times a transaction is stored in order or not at all, and requests
  are answered in order; no cycle meets a row out of order, and one without an error leaves no row.

An id beyond half of the range counts as negative, so that a request after it is answered as one
after no row at all: `request_beyond_half_range` is such a request.
-/

namespace PoolKlines

variable {address : String} {version : ProtocolVersion}

/-- What a cycle meets: the known pools, among which the address stands for the worker's pool if for
any, what goes wrong with the calls of each kind, and what happens after each commit. -/
structure WorkerCycle (address : String) (version : ProtocolVersion) where
  pools : PoolSnapshot
  owns : ∀ pool, pools.find? address = some pool → pool.address = address ∧ pool.version = version
  fetches : List (Option Fault)
  reads : List (Option Fault)
  begins : List (Option Fault)
  commits : List (Option Fault)
  meanwhile : List (List (Interference address version))

namespace WorkerCycle

/-- The link that a cycle runs over. -/
def link (c : WorkerCycle address version) (j : Journal (SharedStore address version)) :
    Link (Journal (SharedStore address version)) where
  store := j.record ⟨j.store.store, c.meanwhile⟩
  fetches := c.fetches.map CycleSetup.fetchAction
  reads := c.reads
  begins := c.begins
  commits := c.commits
  requests := []

end WorkerCycle

/-- What may happen to a store: a cycle of the worker, or something between its cycles. -/
inductive StoreEvent (address : String) (version : ProtocolVersion)
  | other (e : Interference address version)
  | cycle (c : WorkerCycle address version)

namespace Indexer

/-- Carry out a history: what the cycles met, how they ended and what the journal was then, and the
journal at the end. -/
def runShared (indexer : Indexer) :
    List (StoreEvent address version) → Journal (SharedStore address version) →
      List (WorkerCycle address version × CycleEnd × Journal (SharedStore address version)) ×
        Journal (SharedStore address version)
  | [], j => ([], j)
  | .other e :: events, j =>
    indexer.runShared events (j.record ⟨Interference.perform j.store.store e, []⟩)
  | .cycle c :: events, j =>
    let (ending, link) := indexer.runCycle c.pools address (c.link j)
    let (ends, last) := indexer.runShared events link.store
    ((c, ending, link.store) :: ends, last)

/-- The worker applied and committed a transaction at some time. -/
def WorkerApplied (indexer : Indexer) (past : List (SharedStore address version))
    (t : StoredTransaction) : Prop :=
  ∃ pools pool, PoolSnapshot.find? pools address = some pool ∧ pool.address = address ∧
    pool.version = version ∧ indexer.CommittedIn pools pool past t

/-- How a cycle may end: at some time, without a row out of order, and unless there is an error with
all rows of the pool applied. -/
structure EndsInOrder (indexer : Indexer) (c : WorkerCycle address version) (ending : CycleEnd)
    (j : Journal (SharedStore address version)) : Prop where
  ends : ending ≠ .endless
  in_order {report : CycleReport} (h : ending = .report report) : report.outOfOrder = false
  applied {report : CycleReport} (h : ending = .report report) (hnone : report.error = none)
    (hpool : (c.pools.find? address).isSome) {rows : List StoredTransaction}
    (hrows : j.store.store.database.Archives rows) :
    ∀ t ∈ rows, t.pool = address → indexer.WorkerApplied j.past t

/-- The table is and was in order, the cursor of the worker is no number that was not given yet, and
all rows of its pool up to the cursor were applied. -/
structure KeepsOrder (indexer : Indexer) (j : Journal (SharedStore address version))
    (rows : List StoredTransaction) (cursor : UInt64) : Prop where
  archives : j.store.store.database.Archives rows
  hasCursor : j.store.store.database.HasCursor address version cursor
  cursor_le : cursor ≤ j.store.store.database.lastId.toUInt64
  applied : ∀ t ∈ rows, t.pool = address → t.id ≤ cursor → indexer.WorkerApplied j.past t
  now : j.past.getLast? = some j.store
  always : ∀ s ∈ j.past, ∃ rows, s.store.database.Archives rows

variable {indexer : Indexer} {j : Journal (SharedStore address version)}
  {rows : List StoredTransaction} {cursor : UInt64}

/-- What was applied stays so. -/
theorem WorkerApplied.of_past {past past' : List (SharedStore address version)}
    {t : StoredTransaction} (h : indexer.WorkerApplied past t) (hpast : past <+: past') :
    indexer.WorkerApplied past' t := by
  obtain ⟨pools, pool, hpool, haddress, hversion, s, s', hinfix, hcommits⟩ := h
  exact ⟨pools, pool, hpool, haddress, hversion, s, s', hinfix.trans hpast.isInfix, hcommits⟩

namespace KeepsOrder

/-- Rows that were added are above the cursor. -/
theorem mem_of_le (h : indexer.KeepsOrder j rows cursor) {d : Database}
    {more : List StoredTransaction} (hgrows : j.store.store.database.Grows d rows more)
    {t : StoredTransaction} (ht : t ∈ rows ++ more) (hle : t.id ≤ cursor) : t ∈ rows := by
  rcases List.mem_append.1 ht with ht | ht
  · exact ht
  · exact absurd (hle.trans h.cursor_le) (not_le.2 (hgrows.above t ht))

/-- Between cycles, rows are added and the cursor stays. -/
theorem record (h : indexer.KeepsOrder j rows cursor) {s : SharedStore address version}
    {more : List StoredTransaction}
    (hgrows : j.store.store.database.Grows s.store.database rows more)
    (hcursor : s.store.database.HasCursor address version cursor) :
    indexer.KeepsOrder (j.record s) (rows ++ more) cursor where
  archives := hgrows.archives
  hasCursor := hcursor
  cursor_le := h.cursor_le.trans hgrows.lastId_le
  applied t ht hpool hle :=
    (h.applied t (h.mem_of_le hgrows ht hle) hpool hle).of_past (List.prefix_append _ _)
  now := List.getLast?_concat
  always s' hs := by
    rcases List.mem_append.1 hs with hs | hs
    · exact h.always s' hs
    · obtain rfl := List.mem_singleton.1 hs
      exact ⟨_, hgrows.archives⟩

/-- A cycle begins with the store as it is. -/
theorem link (h : indexer.KeepsOrder j rows cursor) (c : WorkerCycle address version) :
    indexer.KeepsOrder (c.link j).store rows cursor := by
  have hgrows := Database.Grows.of_eq h.archives rfl rfl
  rw [← List.append_nil rows]
  exact h.record (s := ⟨j.store.store, c.meanwhile⟩) hgrows h.hasCursor

/-- A cycle that drained the store has applied the rows up to the last one that is done. -/
theorem of_drained {pools : PoolSnapshot} {pool : PoolConfig}
    (hpool : pools.find? address = some pool)
    (howns : pool.address = address ∧ pool.version = version)
    (h : indexer.KeepsOrder j rows cursor) {ending : CycleEnd}
    {j' : Journal (SharedStore address version)} {done due : List StoredTransaction}
    (hdrained : indexer.Drained pools pool (SharedStore.RowsOf address) j cursor ending j' done
      due) :
    ∃ rows', indexer.KeepsOrder j' rows' (lastId cursor done) ∧
      (due = [] → ∀ t ∈ rows', t.pool = address → indexer.WorkerApplied j'.past t) := by
  obtain ⟨all, ⟨rows', hrows', rfl⟩, hsplit⟩ := hdrained.rows
  have hascends : Ascends cursor (done ++ due) :=
    hsplit ▸ ascends_filter (hrows'.ids.filter _) cursor
  have hdone : ∀ t ∈ done, t ∈ rows' := fun t ht => by
    have hmem := List.mem_append_left due ht
    rw [← hsplit] at hmem
    exact (List.mem_filter.1 (List.mem_filter.1 hmem).1).1
  -- what the commits and everything between them leave
  have hbegun : SharedStore.GoesOn j.store.store.database rows j cursor :=
    ⟨⟨[], .of_eq h.archives rfl rfl⟩, h.hasCursor, h.always⟩
  obtain ⟨⟨more, hmore⟩, hcursor, halways⟩ := hdrained.ledger.moves
    (P := SharedStore.GoesOn j.store.store.database rows)
    (fun ht habove hmid hcommits => hmid.commit howns habove (hrows'.id_lt (hdone _ ht)) hcommits)
    hascends.of_append hbegun
  obtain rfl : rows ++ more = rows' := hmore.archives.unique hrows'
  obtain ⟨hpast, hnow, hcommitted⟩ := hdrained.ledger.past h.now
  -- a row of the pool was applied before, or is done, or is due
  have hcases : ∀ t ∈ rows ++ more, t.pool = address →
      indexer.WorkerApplied j'.past t ∨ t ∈ due := by
    intro t ht htpool
    rcases le_or_gt t.id cursor with hle | hlt
    · exact .inl ((h.applied t (h.mem_of_le hmore ht hle) htpool hle).of_past hpast)
    · have hmem : t ∈ done ++ due := by
        rw [← hsplit]
        exact List.mem_filter.2
          ⟨List.mem_filter.2 ⟨ht, decide_eq_true htpool⟩, decide_eq_true hlt⟩
      rcases List.mem_append.1 hmem with hmem | hmem
      · exact .inl ⟨pools, pool, hpool, howns.1, howns.2, hcommitted t hmem⟩
      · exact .inr hmem
  refine ⟨rows ++ more, ⟨hrows', hcursor, ?_, fun t ht htpool hle => ?_, hnow, halways⟩, ?_⟩
  · unfold lastId
    cases hlast : done.getLast? with
    | none => exact h.cursor_le.trans hmore.lastId_le
    | some t => exact hrows'.le_last t (hdone t (List.mem_of_getLast? hlast))
  · exact (hcases t ht htpool).resolve_right fun hdue =>
      absurd hle (not_le.2 (hascends.lastId_lt hdue))
  · rintro rfl t ht htpool
    exact (hcases t ht htpool).resolve_right List.not_mem_nil

/-- A cycle keeps the order, and ends in order. -/
theorem runCycle (h : indexer.KeepsOrder j rows cursor) (hsize : 1 ≤ indexer.pageSize)
    (hlimit : indexer.pageSize < 2 ^ 64) (c : WorkerCycle address version) :
    (∃ rows' cursor', indexer.KeepsOrder
        (indexer.runCycle c.pools address (c.link j)).2.store rows' cursor') ∧
      indexer.EndsInOrder c (indexer.runCycle c.pools address (c.link j)).1
        (indexer.runCycle c.pools address (c.link j)).2.store := by
  have hlink := h.link c
  cases hpool : c.pools.find? address with
  | none =>
    have hrun : indexer.runCycle c.pools address (c.link j) =
        (.report { CycleReport.empty with poolMissing := true }, c.link j) := by
      rw [Indexer.runCycle, hpool]
    rw [hrun]
    refine ⟨⟨rows, cursor, hlink⟩, by simp, ?_, ?_⟩
    · rintro report ⟨⟩
      rfl
    · rintro report - - hsome
      rw [hpool] at hsome
      cases hsome
  | some pool =>
    obtain ⟨haddress, hversion⟩ := c.owns pool hpool
    have hcursor : Store.cursor (c.link j).store pool.address pool.version = .ok cursor := by
      rw [haddress, hversion]
      exact hlink.hasCursor.cursor_eq
    have hstart : cursor.toNat < 2 ^ 63 :=
      (UInt64.le_iff_toNat_le.1 hlink.cursor_le).trans_lt hlink.archives.last_lt
    obtain ⟨done, due, hdrained⟩ := indexer.drained_runCycle
      (SharedStore.feeds indexer hlimit c.pools pool) hsize hpool (CycleSetup.asksStore rfl)
      ⟨rows, hlink.archives, rfl⟩ hcursor hstart
    obtain ⟨rows', hkeeps, hall⟩ := hlink.of_drained hpool ⟨haddress, hversion⟩ hdrained
    refine ⟨⟨rows', _, hkeeps⟩, hdrained.ends, hdrained.in_order, ?_⟩
    intro report hreport hnone _ rows'' hrows''
    obtain rfl := hkeeps.archives.unique hrows''
    exact hall (hdrained.drained hreport hnone)

/-- A history keeps the order, and all its cycles end in order. -/
theorem runShared (h : indexer.KeepsOrder j rows cursor) (hsize : 1 ≤ indexer.pageSize)
    (hlimit : indexer.pageSize < 2 ^ 64) (events : List (StoreEvent address version)) :
    (∀ e ∈ (indexer.runShared events j).1, indexer.EndsInOrder e.1 e.2.1 e.2.2) ∧
      ∃ rows' cursor', indexer.KeepsOrder (indexer.runShared events j).2 rows' cursor' := by
  induction events generalizing j rows cursor with
  | nil => exact ⟨by simp [Indexer.runShared], rows, cursor, h⟩
  | cons event events ih =>
    cases event with
    | other e =>
      obtain ⟨more, hmore⟩ := Interference.grows h.archives e
      exact ih (h.record (s := ⟨Interference.perform j.store.store e, []⟩) hmore
        (Interference.hasCursor h.archives e h.hasCursor))
    | cycle c =>
      obtain ⟨⟨rows', cursor', hkeeps⟩, hends⟩ := h.runCycle hsize hlimit c
      obtain ⟨hrest, hlast⟩ := ih hkeeps
      refine ⟨fun e he => ?_, hlast⟩
      rcases List.mem_cons.1 he with rfl | he
      · exact hends
      · exact hrest e he

end KeepsOrder

end Indexer

/-- **The writer keeps the order that a cursor relies on.** Let transactions with slots below half
of the range be stored for any pools, while a worker runs cycles on the same store and other workers
commit, whatever fails. At all times the table holds rows in the order of their ids, with slots that
ascend and signatures that differ within each pool, and

* a transaction with a known signature is answered by its id and changes nothing, one older than a
  row of the pool is refused, and any other is added at the end unless the table cannot be written;
* a request is answered by the first rows of the pool above the id, or by its first rows of all if
  the id is beyond half of the range, and they hold no inversion.

Every cycle of the worker ends without a row out of order, and one without an error has applied all
rows of the pool. -/
theorem writer_keeps_order (indexer : Indexer) (hsize : 1 ≤ indexer.pageSize)
    (hlimit : indexer.pageSize < 2 ^ 64) (initial : DurableStore)
    (hrows : initial.database.transactions = []) (hcursors : initial.database.cursors = [])
    (hlast : initial.database.lastId = 0) (events : List (StoreEvent address version)) :
    (∀ e ∈ (indexer.runShared events (.ofStore ⟨initial, []⟩)).1,
      indexer.EndsInOrder e.1 e.2.1 e.2.2) ∧
    ∀ s ∈ (indexer.runShared events (.ofStore ⟨initial, []⟩)).2.past,
      ∃ rows, s.store.database.Archives rows ∧
        (∀ pool t, t.slot.toNat < 2 ^ 63 →
          InsertOutcome s.store rows pool t (s.store.insert pool t)) ∧
        ∀ pool (after : UInt64) limit, limit < 2 ^ 64 → ∃ page,
          Store.fetchAfter s.store pool after limit = .ok page ∧
          page = (rows.filter fun t =>
            t.pool = pool && (2 ^ 63 ≤ after.toNat || after < t.id)).take limit ∧
          page.Pairwise (fun t u => t.id < u.id) ∧ findInversion? page = none := by
  have hcursor : initial.database.HasCursor address version 0 := by
    rw [Database.HasCursor, Database.cursorRow?, hcursors, List.find?_nil]
  have harchives := Database.Archives.fresh hrows hlast
  have hstart : indexer.KeepsOrder
      (.ofStore ⟨initial, []⟩ : Journal (SharedStore address version)) [] 0 := by
    refine ⟨harchives, hcursor, UInt64.zero_le, by simp, rfl, fun s hs => ?_⟩
    obtain rfl := List.mem_singleton.1 hs
    exact ⟨[], harchives⟩
  obtain ⟨hends, rows, cursor, hkeeps⟩ := hstart.runShared hsize hlimit events
  refine ⟨hends, fun s hs => ?_⟩
  obtain ⟨rows, hrows⟩ := hkeeps.always s hs
  refine ⟨rows, hrows, fun pool t => hrows.insert pool, fun pool after limit hlimit => ?_⟩
  have hsorted := hrows.pairwise_take
    (fun t => t.pool = pool && (2 ^ 63 ≤ after.toNat || after < t.id)) limit
  exact ⟨_, hrows.fetchAfter pool after hlimit, rfl, hsorted,
    findInversion?_eq_none_iff.2 (hsorted.imp le_of_lt)⟩

/-! ### Instances -/

/-- A transaction of `plainPool` without instructions. -/
def plainTransaction (signature : String) (slot : UInt64) : Transaction :=
  ⟨signature, slot, 0, [], [], [], [], [], [], false⟩

/-- A cycle of the worker of `plainPool`: a second transaction is stored after its first commit. -/
def plainCycle : WorkerCycle "pool" .v2 where
  pools := .ofPools [plainPool]
  owns pool hpool := by
    have hplain : (PoolSnapshot.ofPools [plainPool]).find? "pool" = some plainPool := by decide
    obtain rfl := Option.some.inj (hplain.symm.trans hpool)
    exact ⟨rfl, rfl⟩
  fetches := []
  reads := []
  begins := []
  commits := []
  meanwhile := [[.insert "pool" (plainTransaction "second" 20) (by decide)]]

/-- A transaction is stored, and a cycle runs. -/
def plainHistory : List (StoreEvent "pool" .v2) :=
  [.other (.insert "pool" (plainTransaction "first" 10) (by decide)), .cycle plainCycle]

theorem writer_keeps_order_during_cycle :
    let initial := DurableStore.empty 1
    let run := plainIndexer.runShared plainHistory (.ofStore ⟨initial, []⟩)
    1 ≤ plainIndexer.pageSize ∧ plainIndexer.pageSize < 2 ^ 64 ∧
    initial.database.transactions = [] ∧ initial.database.cursors = [] ∧
    initial.database.lastId = 0 ∧
    (∀ e ∈ run.1, plainIndexer.EndsInOrder e.1 e.2.1 e.2.2) ∧
    ∀ s ∈ run.2.past, ∃ rows, s.store.database.Archives rows ∧
      (∀ pool t, t.slot.toNat < 2 ^ 63 →
        InsertOutcome s.store rows pool t (s.store.insert pool t)) ∧
      ∀ pool (after : UInt64) limit, limit < 2 ^ 64 → ∃ page,
        Store.fetchAfter s.store pool after limit = .ok page ∧
        page = (rows.filter fun t =>
          t.pool = pool && (2 ^ 63 ≤ after.toNat || after < t.id)).take limit ∧
        page.Pairwise (fun t u => t.id < u.id) ∧ findInversion? page = none := by
  intro initial run
  have hsize : 1 ≤ plainIndexer.pageSize := le_rfl
  have hlimit : plainIndexer.pageSize < 2 ^ 64 := by decide
  exact ⟨hsize, hlimit, rfl, rfl, rfl,
    writer_keeps_order plainIndexer hsize hlimit initial rfl rfl rfl plainHistory⟩

/-- A store with one row. -/
def singleTransaction : DurableStore where
  database := { Database.empty with
    transactions := [.ofTransaction 1 "pool" (plainTransaction "first" 10)]
    lastId := 1 }
  shards := .ofList 1 []
  locked := false

theorem archives_singleTransaction : singleTransaction.database.Archives
    [.ofTransaction 1 "pool" (plainTransaction "first" 10)] := by
  have hempty : (DurableStore.empty 1).database.Archives [] := .fresh rfl rfl
  have hslot : (plainTransaction "first" 10).slot.toNat < 2 ^ 63 := by decide
  have hroom : (DurableStore.empty 1).database.lastId ≠ Int64.maxValue := by decide
  exact hempty.concat hslot (by simp) (by simp) hroom

/-- An id beyond half of the range is above that of the only row, and yet a request after it is
answered by this row. -/
theorem request_beyond_half_range :
    let row := StoredTransaction.ofTransaction 1 "pool" (plainTransaction "first" 10)
    (DurableStore.empty 1).insert "pool" (plainTransaction "first" 10) =
      .ok (1, singleTransaction) ∧
    singleTransaction.database.Archives [row] ∧ row.id < 9223372036854775808 ∧
    Store.fetchAfter singleTransaction "pool" 9223372036854775808 1 = .ok [row] := by
  intro row
  have hfetch := archives_singleTransaction.fetchAfter "pool" 9223372036854775808
    (show 1 < 2 ^ 64 by decide)
  exact ⟨rfl, archives_singleTransaction, by decide, hfetch⟩

end PoolKlines
