import PoolKlines.Proofs.Kline.Frame
import PoolKlines.Proofs.Store.Table
import PoolKlines.Proofs.Sync.Ledger

/-!
# Commits to a durable store

A worker's commits change buckets, totals and the cursor of its pool. The other tables stay as they
are, and so does what is served from them.

* `Indexer.Commits.durable` says so for one commit;
* `Database.HasCursor` says that a cursor is stored as a number of 64 bits;
* `Indexer.Ledger.hasCursor`: rows whose ids ascend below half of the range of 64 bits leave the
  last of these ids as the cursor.

The cursor is moved in the order of signed numbers, so a row beyond half of the range would not move
it forward.
-/

namespace PoolKlines

/-! ### Cursors -/

/-- A whole number in a cell is one of 64 bits. -/
def NumberCell.Fits : NumberCell → Prop
  | integer v => (Int64.ofInt v).toInt = v
  | _ => True

/-- A cell that is read as an unsigned number is the cell of this number. -/
theorem NumberCell.eq_ofUInt64_of_count {c : NumberCell} (hfits : c.Fits) {column : Nat}
    {name : String} {n : UInt64} (h : c.count column name = .ok n) : c = ofUInt64 n := by
  cases c with
  | integer v =>
    have hn : (Int64.ofInt v).toUInt64 = n := Except.ok.inj h
    subst hn
    show integer v = integer (Int64.ofInt v).toUInt64.toInt64.toInt
    rw [Int64.toInt64_toUInt64, hfits]
  | real x => cases h
  | text s => cases h

namespace Database

/-- The cursor of a pool is stored as a number of 64 bits, or as no row if it is zero. -/
def HasCursor (d : Database) (pool : String) (version : ProtocolVersion) (cursor : UInt64) : Prop :=
  match d.cursorRow? pool version with
  | none => cursor = 0
  | some row => row.txId = .ofUInt64 cursor

variable {d d' : Database} {pool : String} {version : ProtocolVersion} {cursor : UInt64}

theorem HasCursor.congr (h : d.HasCursor pool version cursor) (hcursors : d'.cursors = d.cursors) :
    d'.HasCursor pool version cursor := by
  unfold HasCursor cursorRow? at *
  rwa [hcursors]

/-- The cursor that is read is the stored one. -/
theorem HasCursor.cursor_eq {s : DurableStore} (h : s.database.HasCursor pool version cursor) :
    Store.cursor s pool version = .ok cursor := by
  unfold HasCursor at h
  simp only [Store.cursor]
  cases hrow : s.database.cursorRow? pool version with
  | none =>
    rw [hrow] at h
    exact congrArg Except.ok h.symm
  | some row =>
    rw [hrow] at h
    have hcell : row.txId = .ofUInt64 cursor := h
    simp only [CursorRow.cursor, hcell, NumberCell.count_ofUInt64]
    rfl

/-- If no cell exceeds 64 bits, the cursor that is read is the stored one. -/
theorem hasCursor_of_fits {s : DurableStore} (hfits : ∀ row ∈ s.database.cursors, row.txId.Fits)
    (h : Store.cursor s pool version = .ok cursor) : s.database.HasCursor pool version cursor := by
  unfold HasCursor
  simp only [Store.cursor] at h
  cases hrow : s.database.cursorRow? pool version with
  | none =>
    rw [hrow] at h
    exact (Except.ok.inj h).symm
  | some row =>
    rw [hrow] at h
    have hmem : row ∈ s.database.cursors := List.mem_of_find?_eq_some hrow
    cases hcount : row.cursor with
    | error e =>
      simp only [hcount] at h
      cases h
    | ok n =>
      simp only [hcount] at h
      obtain rfl : n = cursor := Except.ok.inj h
      exact NumberCell.eq_ofUInt64_of_count (hfits row hmem) hcount

/-- A cursor moves forward to a number below half of the range. -/
theorem HasCursor.advance (h : d.HasCursor pool version cursor) {id : UInt64}
    (habove : cursor < id) (hid : id.toNat < 2 ^ 63) :
    (d.advanceCursor pool version id).HasCursor pool version id := by
  unfold HasCursor at *
  rw [cursorRow?_advanceCursor, if_pos ⟨rfl, rfl⟩]
  cases hrow : d.cursorRow? pool version with
  | none => rfl
  | some row =>
    rw [hrow] at h
    have hcell : row.txId = .ofUInt64 cursor := h
    have hcursor : cursor.toNat < 2 ^ 63 := (UInt64.lt_iff_toNat_lt.1 habove).trans hid
    show max row.txId (.ofUInt64 id) = .ofUInt64 id
    rw [hcell, NumberCell.max_ofUInt64 hcursor hid, max_eq_right habove.le]

/-- Moving one cursor leaves the others alone. -/
theorem HasCursor.advance_of_ne (h : d.HasCursor pool version cursor) {pool' : String}
    {version' : ProtocolVersion} (hne : ¬ (pool' = pool ∧ version' = version)) (id : UInt64) :
    (d.advanceCursor pool' version' id).HasCursor pool version cursor := by
  unfold HasCursor at *
  rwa [cursorRow?_advanceCursor, if_neg hne]

end Database

/-! ### Commits -/

/-- One store comes from another by changes to buckets, totals and cursors alone. -/
structure DurableStore.SameSource (s s' : DurableStore) : Prop where
  transactions_eq : s'.database.transactions = s.database.transactions
  lastId_eq : s'.database.lastId = s.database.lastId
  shards_eq : s'.shards = s.shards
  locked_eq : s'.locked = s.locked

namespace Indexer

variable {indexer : Indexer} {pools : PoolSnapshot} {pool : PoolConfig} {s s' : DurableStore}
  {t : StoredTransaction} {rows : List StoredTransaction}

/-- A commit changes buckets and totals, and moves the cursor of the pool. -/
theorem Commits.durable (h : indexer.Commits pools pool s t s') :
    s.SameSource s' ∧ s'.database.cursors =
      (s.database.advanceCursor pool.address pool.version t.id).cursors := by
  obtain ⟨batch, staged, hbegin, hstage, hcommit⟩ := h
  obtain rfl := DurableStore.view_of_begin hbegin
  obtain rfl : { s with database := staged.staged } = s' := Except.ok.inj hcommit
  -- what the roll-up of the records leaves alone
  let P : DurableBatch → Prop := fun b => b.staged.transactions = s.database.transactions ∧
    b.staged.lastId = s.database.lastId ∧ b.staged.cursors = s.database.cursors
  have hP : Batch.LeavesAlone P := by
    refine ⟨fun b b' bucket hb hput => ?_, fun b b' totals hb hput => ?_⟩
    · obtain ⟨shard, -, hput⟩ := bind_eq_ok.1 hput
      cases hput
      exact hb
    · cases hput
      exact hb
  have hrecords : Keeps P ((indexer.decode pools pool t).1.forM fun record =>
      EStateM.adaptExcept (IndexerError.rollup t.id) (Rollup.apply indexer.prices pool record)) :=
    Keeps.forM fun record _ => (Rollup.keeps_apply hP indexer.prices pool record).adaptExcept _
  have hkept := hrecords s.view ⟨rfl, rfl, rfl⟩
  unfold stage at hstage
  cases hall : (indexer.decode pools pool t).1.forM (fun record =>
      EStateM.adaptExcept (IndexerError.rollup t.id) (Rollup.apply indexer.prices pool record))
        s.view with
  | error e mid =>
    rw [bind_of_error hall] at hstage
    cases hstage
  | ok u mid =>
    rw [hall] at hkept
    rw [bind_of_ok hall] at hstage
    obtain ⟨htransactions, hlastId, hcursors⟩ : P mid := hkept
    have hstaged : { mid with staged :=
        mid.staged.advanceCursor pool.address pool.version t.id } = staged := by
      cases hstage
      rfl
    subst hstaged
    refine ⟨⟨htransactions, hlastId, rfl, rfl⟩, ?_⟩
    show (mid.staged.advanceCursor pool.address pool.version t.id).cursors = _
    simp only [Database.advanceCursor, Database.cursorRow?, hcursors]

/-- The last row is left as the cursor. -/
theorem Ledger.hasCursor {start : UInt64} (h : indexer.Ledger pools pool s rows s')
    (hstart : s.database.HasCursor pool.address pool.version start) (hascends : Ascends start rows)
    (hids : ∀ t ∈ rows, t.id.toNat < 2 ^ 63) :
    s'.database.HasCursor pool.address pool.version (lastId start rows) :=
  h.moves (P := fun s cursor => s.database.HasCursor pool.address pool.version cursor)
    (fun ht habove hcursor hcommits =>
      (hcursor.advance habove (hids _ ht)).congr hcommits.durable.2) hascends hstart

end Indexer

end PoolKlines
