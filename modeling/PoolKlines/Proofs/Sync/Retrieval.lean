import PoolKlines.Proofs.Store.Archive
import PoolKlines.Proofs.Sync.Interference
import PoolKlines.Proofs.Sync.Isolation

/-!
# Stored transactions come back

A transaction that was stored is served unchanged at all later times, whatever the store is used for
in between and whatever else its table holds. Nothing is assumed of the slots.

* `DurableStore.insert_ok_cases`: a transaction that is stored is known, or it is added as a row
  under a number above all others, as `Database.lt_of_nextId?` says;
* `StoreUse` is what clients may do with a store, and `StoreUse.perform` carries it out;
* `Database.KeptByTable` are the properties of the table that no new row takes away, and
  `StoreUse.keeps_foldl_perform` says that no use takes them away;
* `stored_transaction_unchanged`: every page on which the row of a new transaction stands holds the
  transaction as it was stored, and is refused only for an older row that cannot be read.
-/

namespace PoolKlines

/-! ### New rows -/

theorem lt_add_one_of_ne_maxValue {n : Int64} (h : n ≠ Int64.maxValue) : n < n + 1 := by
  have hmax : n.toInt ≠ 2 ^ 63 - 1 := fun heq => h (Int64.toInt_inj.1 heq)
  have hlt := n.toInt_lt
  have hle := n.le_toInt
  have hone : (1 : Int64).toInt = 1 := rfl
  have hnext : (n + 1).toInt = n.toInt + 1 := by
    rw [Int64.toInt_add, hone, Int.bmod_eq_of_le (by omega) (by omega)]
  rw [Int64.lt_iff_toInt_lt, hnext]
  omega

theorem le_foldl_max (ids : List Int64) (last : Int64) :
    last ≤ ids.foldl max last ∧ ∀ id ∈ ids, id ≤ ids.foldl max last := by
  induction ids generalizing last with
  | nil => exact ⟨Int64.le_refl last, by simp⟩
  | cons id ids ih =>
    obtain ⟨hlast, hids⟩ := ih (max last id)
    have hmax : last ≤ max last id ∧ id ≤ max last id := by
      show last ≤ (if last ≤ id then id else last) ∧ id ≤ (if last ≤ id then id else last)
      split
      next hle => exact ⟨hle, Int64.le_refl id⟩
      next hlt => exact ⟨Int64.le_refl last, Int64.le_of_lt (Int64.not_le.1 hlt)⟩
    exact ⟨Int64.le_trans hmax.1 hlast,
      List.forall_mem_cons.2 ⟨Int64.le_trans hmax.2 hlast, hids⟩⟩

namespace Database

/-- A table to which a row was added under a number. -/
def addRow (d : Database) (row : TransactionRow) : Database :=
  { d with transactions := d.transactions ++ [row], lastId := row.id }

/-- The next number is above all that are or were in the table. -/
theorem lt_of_nextId? {d : Database} {id : Int64} (h : d.nextId? = some id) :
    d.lastId < id ∧ ∀ r ∈ d.transactions, r.id < id := by
  obtain ⟨hlast, hids⟩ := le_foldl_max (d.transactions.map (·.id)) d.lastId
  simp only [nextId?] at h
  split at h
  · cases h
  next hmax =>
    have hlt := lt_add_one_of_ne_maxValue hmax
    rw [Option.some.inj h] at hlt
    exact ⟨Int64.lt_of_le_of_lt hlast hlt,
      fun r hr => Int64.lt_of_le_of_lt (hids _ (List.mem_map_of_mem hr)) hlt⟩

end Database

/-- A transaction that is stored is known, or it is added under the next number. -/
theorem DurableStore.insert_ok_cases {s s' : DurableStore} {pool : String} {t : Transaction}
    {id : UInt64} (h : s.insert pool t = .ok (id, s')) :
    (∃ r ∈ s.database.transactions, r.pool = pool ∧ r.signature = t.signature) ∧ s' = s ∨
      ∃ next, s.database.nextId? = some next ∧ id = next.toUInt64 ∧
        s' = { s with database := s.database.addRow (.ofTransaction next pool t) } := by
  unfold DurableStore.insert at h
  cases hfind : s.database.transactions.find? fun r =>
      r.pool = pool && r.signature = t.signature with
  | some r =>
    simp only [hfind] at h
    cases h
    have hsame := List.find?_some hfind
    simp only [Bool.and_eq_true, decide_eq_true_eq] at hsame
    exact .inl ⟨⟨r, List.mem_of_find?_eq_some hfind, hsame⟩, rfl⟩
  | none =>
    simp only [hfind] at h
    obtain ⟨newest, -, h⟩ := bind_eq_ok.1 h
    split at h
    · cases h
    · split at h
      · cases h
      · obtain ⟨⟨next, d⟩, hadd, h⟩ := bind_eq_ok.1 h
        cases h
        have hadd := mapError_eq_ok.1 hadd
        unfold Database.addTransaction at hadd
        cases hnext : s.database.nextId? with
        | none =>
          simp only [hnext] at hadd
          cases hadd
        | some last =>
          simp only [hnext] at hadd
          cases hadd
          exact .inr ⟨next, rfl, rfl, rfl⟩

/-! ### Uses of a store -/

/-- What clients may do with a store. -/
inductive StoreUse
  /-- A transaction is to be stored for a pool. -/
  | insert (pool : String) (t : Transaction)
  /-- Pools are to be given shards. -/
  | assign (pools : List String)
  /-- Another connection takes or releases the lock for writing. -/
  | lock (held : Bool)
  /-- A batch is played. -/
  | play (script : BatchScript)
  /-- A worker runs a cycle, whatever goes wrong with its calls. -/
  | cycle (indexer : Indexer) (pools : PoolSnapshot) (address : String)
      (fetches : List FetchAction) (reads begins commits : List (Option Fault))
  /-- The database is opened again. -/
  | reopen (shardCount : UInt16)

/-- What a use leaves of a store, whether it fails or not. -/
def StoreUse.perform (s : DurableStore) : StoreUse → DurableStore
  | insert pool t =>
    match s.insert pool t with
    | .ok (_, s) => s
    | .error _ => s
  | assign pools => (s.assignPools pools).2
  | lock held => { s with locked := held }
  | play script =>
    match script.play s with
    | .ok (_, s) => s
    | .error _ => s
  | cycle indexer pools address fetches reads begins commits =>
    (indexer.runCycle pools address ⟨s, fetches, reads, begins, commits, []⟩).2.store
  | reopen shardCount =>
    match DurableStore.ofDatabase s.database shardCount with
    | .ok s => s
    | .error _ => s

/-- A property of the table of transactions that no new row takes away. -/
structure Database.KeptByTable (P : Database → Prop) : Prop where
  congr {d d' : Database} (h : P d) (htransactions : d'.transactions = d.transactions)
    (hlast : d'.lastId = d.lastId) : P d'
  addRow {d : Database} (h : P d) {id : Int64} (hnext : d.nextId? = some id) (pool : String)
    (t : Transaction) : P (d.addRow (.ofTransaction id pool t))

namespace StoreUse

variable {P : Database → Prop} {s : DurableStore}

/-- A worker's commits touch no row of the table. -/
theorem commitsKeep (h : Database.KeptByTable P) (indexer : Indexer) :
    indexer.CommitsKeep fun s : DurableStore => P s.database :=
  fun _ _ _ _ _ hs hcommits =>
    h.congr hs hcommits.durable.1.transactions_eq hcommits.durable.1.lastId_eq

/-- A batch that is played touches no row of the table. -/
theorem keeps_play (h : Database.KeptByTable P) (hs : P s.database) {script : BatchScript}
    {answers : List StoreAnswer} {s' : DurableStore} (hplay : script.play s = .ok (answers, s')) :
    P s'.database := by
  obtain ⟨b, b', hbegin, hrun, rfl | hcommit⟩ := BatchScript.exists_of_play_ok hplay
  · exact hs
  · obtain rfl := DurableStore.view_of_begin hbegin
    have hkeeps : Keeps (fun b : DurableBatch => P b.staged) (StoreOp.runAll script.ops) := by
      refine StoreOp.keeps_runAll (StoreOp.keeps_run ⟨?_, ?_⟩ ?_) _
      · intro b b' bucket hb hput
        obtain ⟨shard, -, hput⟩ := bind_eq_ok.1 hput
        cases hput
        exact h.congr hb rfl rfl
      · rintro b b' totals hb ⟨⟩
        exact h.congr hb rfl rfl
      · rintro b b' pool version id hb ⟨⟩
        exact h.congr hb rfl rfl
    have hstaged := hkeeps s.view hs
    rw [hrun] at hstaged
    cases hcommit
    exact hstaged

/-- No use takes a property of the table away that no new row takes away. -/
theorem keeps_perform (h : Database.KeptByTable P) (hs : P s.database) (use : StoreUse) :
    P (use.perform s).database := by
  cases use with
  | insert pool t =>
    cases hinsert : s.insert pool t with
    | error e => simpa only [perform, hinsert] using hs
    | ok answer =>
      simp only [perform, hinsert]
      rcases DurableStore.insert_ok_cases hinsert with ⟨-, hsame⟩ | ⟨next, hnext, -, hadded⟩
      · rwa [hsame]
      · rw [hadded]
        exact h.addRow hs hnext pool t
  | assign pools =>
    obtain ⟨htransactions, hlast, -⟩ := Interference.assignPools_database s pools
    exact h.congr hs htransactions hlast
  | lock held => exact hs
  | play script =>
    cases hplay : script.play s with
    | error e => simpa only [perform, hplay] using hs
    | ok answer =>
      simp only [perform, hplay]
      exact keeps_play h hs hplay
  | cycle indexer pools address fetches reads begins commits =>
    exact (commitsKeep h indexer).runCycle hs address
  | reopen shardCount =>
    cases hopen : DurableStore.ofDatabase s.database shardCount with
    | error e => simpa only [perform, hopen] using hs
    | ok opened =>
      simp only [perform, hopen]
      obtain ⟨assigned, -, hopen⟩ := bind_eq_ok.1 hopen
      cases hopen
      exact hs

theorem keeps_foldl_perform (h : Database.KeptByTable P) (hs : P s.database)
    (uses : List StoreUse) : P (uses.foldl perform s).database := by
  induction uses generalizing s with
  | nil => exact hs
  | cons use uses ih => exact ih (keeps_perform h hs use)

end StoreUse

/-! ### Rows at later times -/

namespace Database

/-- A row is in the table, no other row has its number, and all later numbers are above it. -/
structure HoldsRow (row : TransactionRow) (d : Database) : Prop where
  mem : row ∈ d.transactions
  unique : ∀ r ∈ d.transactions, r.id = row.id → r = row
  le_last : row.id ≤ d.lastId

/-- The rows of a table are old ones, or can be read. -/
def ReadsBut (old : List TransactionRow) (d : Database) : Prop :=
  ∀ r ∈ d.transactions, r ∈ old ∨ ∃ u, r.read = .ok u

/-- All rows of the table can be read. -/
def Readable (d : Database) : Prop := d.ReadsBut []

theorem Readable.read {d : Database} (h : d.Readable) {r : TransactionRow}
    (hr : r ∈ d.transactions) : ∃ u, r.read = .ok u :=
  (h r hr).resolve_left List.not_mem_nil

variable {d : Database} {row : TransactionRow}

/-- The row that was added under the next number is held. -/
theorem HoldsRow.of_addRow (hnext : d.nextId? = some row.id) : (d.addRow row).HoldsRow row where
  mem := List.mem_append_right _ List.mem_cons_self
  unique r hr hid := by
    rcases List.mem_append.1 hr with hr | hr
    · have hlt := (lt_of_nextId? hnext).2 r hr
      rw [hid] at hlt
      exact (Int64.lt_irrefl hlt).elim
    · exact List.mem_singleton.1 hr
  le_last := Int64.le_refl _

theorem HoldsRow.keptByTable (row : TransactionRow) : KeptByTable (HoldsRow row) where
  congr h htransactions hlast :=
    ⟨htransactions ▸ h.mem, htransactions ▸ h.unique, hlast ▸ h.le_last⟩
  addRow {d} h {id} hnext pool t := by
    have hlt : row.id < id := Int64.lt_of_le_of_lt h.le_last (lt_of_nextId? hnext).1
    refine ⟨List.mem_append_left _ h.mem, fun r hr hid => ?_, Int64.le_of_lt hlt⟩
    rcases List.mem_append.1 hr with hr | hr
    · exact h.unique r hr hid
    · obtain rfl := List.mem_singleton.1 hr
      have hsame : id = row.id := hid
      rw [hsame] at hlt
      exact (Int64.lt_irrefl hlt).elim

theorem ReadsBut.addRow {old : List TransactionRow} (h : d.ReadsBut old) (id : Int64)
    (pool : String) (t : Transaction) : (d.addRow (.ofTransaction id pool t)).ReadsBut old := by
  intro r hr
  rcases List.mem_append.1 hr with hr | hr
  · exact h r hr
  · obtain rfl := List.mem_singleton.1 hr
    exact .inr ⟨_, TransactionRow.read_ofTransaction id pool t⟩

theorem ReadsBut.keptByTable (old : List TransactionRow) : KeptByTable (ReadsBut old) where
  congr h htransactions _ := by
    unfold ReadsBut
    rw [htransactions]
    exact h
  addRow h id _ pool t := h.addRow id pool t

theorem mem_of_mem_rowsAfter {pool : String} {after limit : Int64} {r : TransactionRow}
    (h : r ∈ d.rowsAfter pool after limit) :
    r ∈ d.transactions ∧ r.pool = pool ∧ after < r.id := by
  have hrows : r ∈ (d.transactions.filter fun r => r.pool = pool && after < r.id).mergeSort
      TransactionRow.servedBefore := by
    simp only [rowsAfter] at h
    split at h
    · exact h
    · exact List.mem_of_mem_take h
  rw [List.mem_mergeSort, List.mem_filter, Bool.and_eq_true, decide_eq_true_eq,
    decide_eq_true_eq] at hrows
  exact hrows

/-- A page that has room for the whole table holds all rows of the pool above the number. -/
theorem mem_rowsAfter {pool : String} {after : Int64} {limit : Nat} {r : TransactionRow}
    (hr : r ∈ d.transactions) (hpool : r.pool = pool) (hafter : after < r.id)
    (hroom : d.transactions.length ≤ limit) (hlimit : limit < 2 ^ 63) :
    r ∈ d.rowsAfter pool after (Int64.ofNat limit) := by
  have hnonneg : ¬ Int64.ofNat limit < 0 := by
    rw [Int64.lt_iff_toInt_lt, Int64.toInt_ofNat_of_lt hlimit]
    exact not_lt.2 (Int.natCast_nonneg limit)
  simp only [rowsAfter]
  rw [if_neg hnonneg, Int64.toNatClampNeg_ofNat_of_lt hlimit, List.take_of_length_le]
  · rw [List.mem_mergeSort, List.mem_filter, Bool.and_eq_true, decide_eq_true_eq,
      decide_eq_true_eq]
    exact ⟨hr, hpool, hafter⟩
  · rw [List.length_mergeSort]
    exact (List.length_filter_le _ _).trans hroom

end Database

/-- **Stored transactions come back unchanged.** A transaction of which the pool has no row yet, and
that a durable store takes, is on every later page on which its row stands exactly as it was stored,
whatever the store is used for in between: with the number that was answered, the pool, and the
slot, the signature and the block time of the transaction. Nothing else is served under its number.
The row stays in the table, so that it is on every page of its pool after a lower number that has
room for it, and a page is refused only for a row that was there before. -/
theorem stored_transaction_unchanged {s s' : DurableStore} {pool : String} {t : Transaction}
    {id : UInt64} (h : s.insert pool t = .ok (id, s'))
    (hnew : ∀ r ∈ s.database.transactions, r.pool = pool → r.signature ≠ t.signature)
    (uses : List StoreUse) (asked : String) (after : UInt64) (limit : Nat) :
    let later := uses.foldl StoreUse.perform s'
    let row := TransactionRow.ofTransaction id.toInt64 pool t
    let asking := later.database.rowsAfter asked after.toInt64 (Int64.ofNat limit)
    (asked = pool → after.toInt64 < id.toInt64 → later.database.transactions.length ≤ limit →
      limit < 2 ^ 63 → row ∈ asking) ∧
    (∀ page, Store.fetchAfter later asked after limit = .ok page →
      (∀ u ∈ page, u.id = id → u = ⟨id, pool, t.slot, t.signature, t.blockTime, t⟩) ∧
      ((∃ u ∈ page, u.id = id) ↔ row ∈ asking)) ∧
    ∀ e, Store.fetchAfter later asked after limit = .error e →
      ∃ r ∈ asking, r ∈ s.database.transactions ∧ ∀ u, r.read ≠ .ok u := by
  intro later row asking
  rcases DurableStore.insert_ok_cases h with
    ⟨⟨r, hr, hpool, hsignature⟩, -⟩ | ⟨next, hnext, rfl, rfl⟩
  · exact absurd hsignature (hnew r hr hpool)
  have hrow : row = .ofTransaction next pool t := by
    simp only [row, Int64.toInt64_toUInt64]
  have hread : row.read = .ok ⟨next.toUInt64, pool, t.slot, t.signature, t.blockTime, t⟩ :=
    hrow ▸ TransactionRow.read_ofTransaction next pool t
  have hholds : later.database.HoldsRow row := by
    refine StoreUse.keeps_foldl_perform (Database.HoldsRow.keptByTable row) ?_ uses
    rw [← hrow]
    exact .of_addRow (by rw [hrow]; exact hnext)
  have hreads : later.database.ReadsBut s.database.transactions :=
    StoreUse.keeps_foldl_perform (Database.ReadsBut.keptByTable _)
      (Database.ReadsBut.addRow (fun r hr => .inl hr) next pool t) uses
  refine ⟨fun hasked hafter hroom hlimit => ?_, fun page hpage => ?_, fun e he => ?_⟩
  · exact Database.mem_rowsAfter hholds.mem hasked.symm hafter hroom hlimit
  · have hmem {u : StoredTransaction} := TransactionRow.mem_of_storedAll hpage (u := u)
    have hown {u : StoredTransaction} (hu : u ∈ page) (hid : u.id = next.toUInt64) :
        row ∈ asking ∧ row.read = .ok u := by
      obtain ⟨r, hr, hru⟩ := hmem.1 hu
      -- the number is unsigned in the answer and signed in the row
      have hsame : r.id = row.id := by
        have hbits : r.id.toUInt64 = next.toUInt64 := (TransactionRow.id_of_read hru).symm.trans hid
        rw [hrow, ← Int64.toInt64_toUInt64 r.id, hbits, Int64.toInt64_toUInt64]
        rfl
      obtain rfl := hholds.unique r (Database.mem_of_mem_rowsAfter hr).1 hsame
      exact ⟨hr, hru⟩
    refine ⟨fun u hu hid => ?_, ?_⟩
    · exact Except.ok.inj ((hown hu hid).2.symm.trans hread)
    · exact ⟨fun ⟨u, hu, hid⟩ => (hown hu hid).1, fun hr => ⟨_, hmem.2 ⟨row, hr, hread⟩, rfl⟩⟩
  · obtain ⟨r, hr, hnone⟩ := TransactionRow.exists_of_storedAll_error he
    refine ⟨r, hr, ?_, hnone⟩
    rcases hreads r (Database.mem_of_mem_rowsAfter hr).1 with hold | ⟨u, hu⟩
    · exact hold
    · exact absurd hu (hnone u)

/-- A transaction whose lists are not empty, with an owner and without one, in a slot beyond half of
the range. -/
def fullTransaction : Transaction where
  signature := "signature"
  slot := 9223372036854775813
  blockTime := -7
  accountKeys := ["a \"quoted\" key", ""]
  instructions := [⟨255, [0, 1], "AAEC"⟩]
  innerGroups := [⟨0, [⟨1, [], ""⟩]⟩]
  preBalances := [⟨0, "mint", none, "18446744073709551616", 6⟩]
  postBalances := [⟨0, "mint", some "", "1", 255⟩]
  logMessages := ["Program log: π"]
  failed := true

/-- It comes back after the lock was taken and released, another one was stored, and the database
was opened again. -/
theorem stored_transaction_unchanged_full :
    let s := DurableStore.empty 1
    let uses : List StoreUse := [.lock true, .insert "other" fullTransaction, .lock false,
      .insert "other" fullTransaction, .reopen 3]
    ∃ s', s.insert "pool" fullTransaction = .ok (1, s') ∧
      (uses.foldl StoreUse.perform s').database.transactions.length = 2 ∧
      ∃ page, Store.fetchAfter (uses.foldl StoreUse.perform s') "pool" 0 10 = .ok page ∧
        ⟨1, "pool", 9223372036854775813, "signature", -7, fullTransaction⟩ ∈ page := by
  intro s uses
  have hinsert : s.insert "pool" fullTransaction =
      .ok (1, { s with database := s.database.addRow (.ofTransaction 1 "pool" fullTransaction) }) :=
    rfl
  have hnew : ∀ r ∈ s.database.transactions, r.pool = "pool" →
      r.signature ≠ fullTransaction.signature := by
    rintro r ⟨⟩
  refine ⟨_, hinsert, rfl, ?_⟩
  obtain ⟨hon, hpage, hrefused⟩ := stored_transaction_unchanged hinsert hnew uses "pool" 0 10
  have hrow := hon rfl (by decide) (by decide) (by decide)
  cases hfetch : Store.fetchAfter (uses.foldl StoreUse.perform { s with
      database := s.database.addRow (.ofTransaction 1 "pool" fullTransaction) }) "pool" 0 10 with
  | error e =>
    obtain ⟨r, -, hr, -⟩ := hrefused e hfetch
    cases hr
  | ok page =>
    obtain ⟨hown, hiff⟩ := hpage page hfetch
    obtain ⟨u, hu, hid⟩ := hiff.2 hrow
    exact ⟨page, rfl, hown u hu hid ▸ hu⟩

end PoolKlines
