import Mathlib.Data.List.Sort
import Mathlib.Order.MinMax
import PoolKlines.Proofs.Computation
import PoolKlines.Proofs.Sorted
import PoolKlines.Proofs.Store.Table
import PoolKlines.Proofs.Transaction.Json

/-!
# The table of transactions

Transactions are stored one by one, under ascending ids for all pools together, while slots ascend
within each pool.

* `TransactionRow.read` reads one row, and `TransactionRow.storedAll_eq_ok` says that a page is read
  if each of its rows is; `TransactionRow.read_ofTransaction`: the row of a transaction is read back
  as this transaction;
* `Database.Archives` says which rows the table holds, and states this order;
* `Archives.fetchAfter`: a request is answered by the first rows of the pool above the id, all of
  them if the id counts as negative;
* `InsertOutcome` lists what may become of a transaction that is to be stored, and `Archives.insert`
  says that the order is kept.
-/

namespace PoolKlines

/-- The row of a transaction that is stored for a pool. -/
def StoredTransaction.ofTransaction (id : UInt64) (pool : String) (t : Transaction) :
    StoredTransaction :=
  ⟨id, pool, t.slot, t.signature, t.blockTime, t⟩

/-- The row as the table keeps it. -/
def TransactionRow.ofStored (t : StoredTransaction) : TransactionRow :=
  .ofTransaction t.id.toInt64 t.pool t.tx

namespace Database

/-- The table holds rows in the order in which they were stored: their ids ascend, and among the
rows of a pool slots ascend and signatures differ. -/
structure Archives (d : Database) (rows : List StoredTransaction) : Prop where
  rows_eq : d.transactions = rows.map TransactionRow.ofStored
  faithful : ∀ t ∈ rows, t = .ofTransaction t.id t.pool t.tx
  ids : rows.Pairwise fun t u => t.id < u.id
  pos : ∀ t ∈ rows, 0 < t.id
  le_last : ∀ t ∈ rows, t.id ≤ d.lastId.toUInt64
  last_lt : d.lastId.toUInt64.toNat < 2 ^ 63
  length_le : rows.length ≤ d.lastId.toUInt64.toNat
  slots : rows.Pairwise fun t u => t.pool = u.pool → t.slot ≤ u.slot
  signatures : rows.Pairwise fun t u => t.pool = u.pool → t.signature ≠ u.signature
  slot_lt : ∀ t ∈ rows, t.slot.toNat < 2 ^ 63

end Database

/-! ### Signed numbers -/

theorem toInt_toInt64_neg {n : UInt64} (h : 2 ^ 63 ≤ n.toNat) : n.toInt64.toInt < 0 := by
  have hint : n.toInt64.toInt = n.toBitVec.toInt := rfl
  have hlt := n.toNat_lt
  rw [hint, BitVec.toInt_eq_toNat_cond, UInt64.toNat_toBitVec, if_neg (by omega)]
  omega

/-- A number beyond half of the range comes before all others as a signed number. -/
theorem toInt64_lt_toInt64_iff {m n : UInt64} (hn : n.toNat < 2 ^ 63) :
    m.toInt64 < n.toInt64 ↔ 2 ^ 63 ≤ m.toNat ∨ m < n := by
  rw [Int64.lt_iff_toInt_lt, toInt_toInt64 hn, UInt64.lt_iff_toNat_lt]
  by_cases hm : m.toNat < 2 ^ 63
  · rw [toInt_toInt64 hm]
    omega
  · have hneg := toInt_toInt64_neg (Nat.le_of_not_lt hm)
    omega

theorem toInt64_le_toInt64_iff {m n : UInt64} (hm : m.toNat < 2 ^ 63) (hn : n.toNat < 2 ^ 63) :
    m.toInt64 ≤ n.toInt64 ↔ m ≤ n := by
  rw [Int64.le_iff_toInt_le, toInt_toInt64 hm, toInt_toInt64 hn, UInt64.le_iff_toNat_le]
  omega

theorem NumberCell.before_ofUInt64 {m n : UInt64} (hm : m.toNat < 2 ^ 63) (hn : n.toNat < 2 ^ 63) :
    (ofUInt64 m).before (ofUInt64 n) = decide (m < n) := by
  rw [ofUInt64_eq_integer hm, ofUInt64_eq_integer hn, before_integer, decide_eq_decide,
    UInt64.lt_iff_toNat_lt, Int.ofNat_lt]

/-! ### Rows read back -/

namespace TransactionRow

/-- The transaction of a row. -/
def read (r : TransactionRow) : Except StoreError StoredTransaction := do
  let (slot, blockTime) ← r.slotAndTime.mapError .database
  r.stored slot blockTime

theorem read_eq_ok {r : TransactionRow} {u : StoredTransaction} :
    r.read = .ok u ↔
      ∃ numbers, r.slotAndTime = .ok numbers ∧ r.stored numbers.1 numbers.2 = .ok u := by
  simp only [read, bind_eq_ok, mapError_eq_ok]

theorem id_of_read {r : TransactionRow} {u : StoredTransaction} (h : r.read = .ok u) :
    u.id = r.id.toUInt64 := by
  obtain ⟨numbers, -, hstored⟩ := read_eq_ok.1 h
  unfold stored at hstored
  split at hstored
  · cases hstored
  · cases hstored
    rfl

/-- The row of a transaction is read back as this transaction. -/
theorem read_ofTransaction (id : Int64) (pool : String) (t : Transaction) :
    (ofTransaction id pool t).read = .ok (.ofTransaction id.toUInt64 pool t) := by
  refine read_eq_ok.2 ⟨(t.slot, t.blockTime), ?_, ?_⟩
  · simp [slotAndTime, ofTransaction]
    rfl
  · simp [stored, ofTransaction, StoredTransaction.ofTransaction, Transaction.parse_render]

/-- Rows are read if each of them is. -/
theorem storedAll_eq_ok {rows : List TransactionRow} {page : List StoredTransaction} :
    storedAll rows = .ok page ↔ rows.map read = page.map .ok := by
  have hsteps : storedAll rows = .ok page ↔ ∃ numbers : List (UInt64 × Int64),
      rows.map slotAndTime = numbers.map .ok ∧
        (rows.zip numbers).map (fun p => p.1.stored p.2.1 p.2.2) = page.map .ok := by
    simp only [storedAll, bind_eq_ok, mapError_eq_ok, mapM_eq_ok]
  rw [hsteps]
  clear hsteps
  induction rows generalizing page with
  | nil => simp [eq_comm]
  | cons r rows ih =>
    cases page with
    | nil => simp
    | cons u page =>
      have hrest : (r :: rows).map read = (u :: page).map .ok ↔
          r.read = .ok u ∧ rows.map read = page.map .ok := by
        rw [List.map_cons, List.map_cons, List.cons.injEq]
      refine Iff.trans ?_ (hrest.trans (and_congr read_eq_ok ih.symm)).symm
      constructor
      · rintro ⟨numbers, hnumbers, hpage⟩
        cases numbers with
        | nil => simp at hnumbers
        | cons n numbers =>
          obtain ⟨hn, hnumbers⟩ := List.cons.inj hnumbers
          obtain ⟨hu, hpage⟩ := List.cons.inj hpage
          exact ⟨⟨n, hn, hu⟩, numbers, hnumbers, hpage⟩
      · rintro ⟨⟨n, hn, hu⟩, numbers, hnumbers, hpage⟩
        refine ⟨n :: numbers, ?_, ?_⟩
        · rw [List.map_cons, List.map_cons, hn, hnumbers]
        · exact congrArg₂ List.cons hu hpage

/-- What was read are the transactions of the rows. -/
theorem mem_of_storedAll {rows : List TransactionRow} {page : List StoredTransaction}
    (h : storedAll rows = .ok page) {u : StoredTransaction} :
    u ∈ page ↔ ∃ r ∈ rows, r.read = .ok u := by
  have hmem : (Except.ok u : Except StoreError _) ∈ page.map Except.ok ↔ u ∈ page :=
    List.mem_map_of_injective fun _ _ => Except.ok.inj
  rw [← hmem, ← storedAll_eq_ok.1 h, List.mem_map]

/-- A refused page has a row that cannot be read. -/
theorem exists_of_storedAll_error {rows : List TransactionRow} {e : StoreError}
    (h : storedAll rows = .error e) : ∃ r ∈ rows, ∀ u, r.read ≠ .ok u := by
  by_contra hnone
  have hall : ∀ r ∈ rows, ∃ u, r.read = .ok u := by
    intro r hr
    by_contra hread
    exact hnone ⟨r, hr, fun u hu => hread ⟨u, hu⟩⟩
  obtain ⟨page, hpage⟩ : ∃ page : List StoredTransaction, rows.map read = page.map .ok := by
    clear h hnone
    induction rows with
    | nil => exact ⟨[], rfl⟩
    | cons r rows ih =>
      obtain ⟨⟨u, hu⟩, hrest⟩ := List.forall_mem_cons.1 hall
      obtain ⟨page, hpage⟩ := ih hrest
      exact ⟨u :: page, by rw [List.map_cons, List.map_cons, hu, hpage]⟩
  rw [storedAll_eq_ok.2 hpage] at h
  cases h

/-- All rows are read back. -/
theorem storedAll_ofStored {rows : List StoredTransaction}
    (h : ∀ t ∈ rows, t = .ofTransaction t.id t.pool t.tx) :
    storedAll (rows.map ofStored) = .ok rows := by
  rw [storedAll_eq_ok, List.map_map]
  refine List.map_congr_left fun t ht => ?_
  have hread := read_ofTransaction t.id.toInt64 t.pool t.tx
  rw [UInt64.toUInt64_toInt64, ← h t ht] at hread
  exact hread

end TransactionRow

namespace Database.Archives

variable {s : DurableStore} {rows : List StoredTransaction}

/-- Only the rows and the last number matter. -/
theorem congr {d d' : Database} (h : d.Archives rows)
    (htransactions : d'.transactions = d.transactions) (hlast : d'.lastId = d.lastId) :
    d'.Archives rows := by
  refine ⟨htransactions.trans h.rows_eq, h.faithful, h.ids, h.pos, ?_, ?_, ?_, h.slots,
    h.signatures, h.slot_lt⟩
  · exact hlast ▸ h.le_last
  · exact hlast ▸ h.last_lt
  · exact hlast ▸ h.length_le

/-- An empty table from which no number was given. -/
theorem fresh {d : Database} (htransactions : d.transactions = []) (hlast : d.lastId = 0) :
    d.Archives [] := by
  have hzero : d.lastId.toUInt64.toNat = 0 := by
    rw [hlast]
    rfl
  refine ⟨htransactions, by simp, .nil, by simp, by simp, ?_, Nat.zero_le _, .nil, .nil, by simp⟩
  rw [hzero]
  exact Nat.two_pow_pos 63

/-- The table holds one list of rows. -/
theorem unique {rows' : List StoredTransaction} (h : s.database.Archives rows)
    (h' : s.database.Archives rows') : rows = rows' := by
  have hrows := TransactionRow.storedAll_ofStored h.faithful
  rw [← h.rows_eq, h'.rows_eq, TransactionRow.storedAll_ofStored h'.faithful] at hrows
  exact (Except.ok.inj hrows).symm

theorem id_lt (h : s.database.Archives rows) {t : StoredTransaction} (ht : t ∈ rows) :
    t.id.toNat < 2 ^ 63 :=
  (UInt64.le_iff_toNat_le.1 (h.le_last t ht)).trans_lt h.last_lt

theorem slot_ofStored (h : s.database.Archives rows) {t : StoredTransaction} (ht : t ∈ rows) :
    (TransactionRow.ofStored t).slot = .ofUInt64 t.slot :=
  congrArg (fun t : StoredTransaction => NumberCell.ofUInt64 t.slot) (h.faithful t ht).symm

/-- The rows of a pool stand in the order in which they are served. -/
theorem pairwise_servedBefore (h : s.database.Archives rows) (pool : String) :
    (rows.filter (·.pool = pool)).Pairwise fun t u =>
      TransactionRow.servedBefore (.ofStored t) (.ofStored u) = true := by
  refine ((h.ids.and h.slots).filter _).imp_of_mem fun {t u} ht hu hboth => ?_
  obtain ⟨ht, htpool⟩ := List.mem_filter.1 ht
  obtain ⟨hu, hupool⟩ := List.mem_filter.1 hu
  obtain ⟨hid, hslot⟩ := hboth
  have hle := hslot ((of_decide_eq_true htpool).trans (of_decide_eq_true hupool).symm)
  rw [TransactionRow.servedBefore, h.slot_ofStored ht, h.slot_ofStored hu,
    NumberCell.before_ofUInt64 (h.slot_lt t ht) (h.slot_lt u hu),
    NumberCell.before_ofUInt64 (h.slot_lt u hu) (h.slot_lt t ht), decide_eq_false (not_lt.2 hle)]
  have hids : (TransactionRow.ofStored t).id ≤ (TransactionRow.ofStored u).id :=
    (toInt64_le_toInt64_iff (h.id_lt ht) (h.id_lt hu)).2 hid.le
  simp [hids]

/-- The rows above an id, as they stand in the table. -/
theorem filter_transactions (h : s.database.Archives rows) (pool : String) (after : UInt64) :
    (s.database.transactions.filter fun r => r.pool = pool && after.toInt64 < r.id) =
      (rows.filter fun t => t.pool = pool && (2 ^ 63 ≤ after.toNat || after < t.id)).map
        TransactionRow.ofStored := by
  rw [h.rows_eq, List.filter_map]
  refine congrArg _ (List.filter_congr fun t ht => ?_)
  have hid : decide (after.toInt64 < (TransactionRow.ofStored t).id) =
      (decide (2 ^ 63 ≤ after.toNat) || decide (after < t.id)) := by
    rw [← Bool.decide_or, decide_eq_decide]
    exact toInt64_lt_toInt64_iff (h.id_lt ht)
  exact congrArg (decide (t.pool = pool) && ·) hid

/-- A limit beyond half of the range counts as negative, and is beyond the number of rows. -/
theorem take_limit (h : s.database.Archives rows) {served : List StoredTransaction}
    (hserved : served.Sublist rows) {limit : Nat} (hlimit : limit < 2 ^ 64) :
    (if Int64.ofNat limit < 0 then served.map TransactionRow.ofStored
      else (served.map TransactionRow.ofStored).take (Int64.ofNat limit).toNatClampNeg) =
      (served.take limit).map TransactionRow.ofStored := by
  by_cases hlt : limit < 2 ^ 63
  · have hnonneg : ¬ Int64.ofNat limit < 0 := by
      rw [Int64.lt_iff_toInt_lt, Int64.toInt_ofNat_of_lt hlt]
      exact not_lt.2 (Int.natCast_nonneg limit)
    rw [if_neg hnonneg, Int64.toNatClampNeg_ofNat_of_lt hlt, List.map_take]
  · have hneg : Int64.ofNat limit < 0 := by
      have hsize : (UInt64.ofNat limit).toNat = limit := UInt64.toNat_ofNat_of_lt' hlimit
      have hint : (UInt64.ofNat limit).toInt64.toInt < 0 := toInt_toInt64_neg (by omega)
      exact Int64.lt_iff_toInt_lt.2 hint
    have hlength : served.length ≤ limit := by
      have := hserved.length_le
      have := h.length_le
      have := h.last_lt
      omega
    rw [if_pos hneg, List.take_of_length_le hlength]

/-- A request is answered by the first rows of the pool above an id. An id beyond half of the range
counts as negative, so that all rows are above it. -/
theorem fetchAfter (h : s.database.Archives rows) (pool : String) (after : UInt64) {limit : Nat}
    (hlimit : limit < 2 ^ 64) :
    Store.fetchAfter s pool after limit = .ok ((rows.filter fun t =>
      t.pool = pool && (2 ^ 63 ≤ after.toNat || after < t.id)).take limit) := by
  generalize hserved :
    (rows.filter fun t => t.pool = pool && (2 ^ 63 ≤ after.toNat || after < t.id)) = served
  have hsorted : served.Pairwise fun t u =>
      TransactionRow.servedBefore (.ofStored t) (.ofStored u) = true := by
    have hfilter : served = (rows.filter (·.pool = pool)).filter fun t =>
        2 ^ 63 ≤ after.toNat || after < t.id := by
      rw [← hserved, List.filter_filter]
      exact List.filter_congr fun t _ => Bool.and_comm _ _
    rw [hfilter]
    exact (h.pairwise_servedBefore pool).filter _
  have hrows : s.database.rowsAfter pool after.toInt64 (Int64.ofNat limit) =
      (served.take limit).map TransactionRow.ofStored := by
    rw [Database.rowsAfter, h.filter_transactions, hserved,
      List.mergeSort_of_pairwise (List.pairwise_map.2 hsorted)]
    exact h.take_limit (hserved ▸ List.filter_sublist) hlimit
  show TransactionRow.storedAll _ = _
  rw [hrows]
  refine TransactionRow.storedAll_ofStored fun t ht => h.faithful t ?_
  exact (hserved ▸ List.filter_sublist : served.Sublist rows).subset (List.mem_of_mem_take ht)

/-- A page is in the strict order of ids, so that it holds no inversion. -/
theorem pairwise_take (h : s.database.Archives rows) (p : StoredTransaction → Bool) (limit : Nat) :
    ((rows.filter p).take limit).Pairwise fun t u => t.id < u.id :=
  (h.ids.filter p).sublist (List.take_sublist _ _)

/-! ### The next row -/

theorem foldl_max_eq {ids : List Int64} {last : Int64} (h : ∀ id ∈ ids, id ≤ last) :
    ids.foldl max last = last := by
  induction ids with
  | nil => rfl
  | cons id ids ih =>
    obtain ⟨hid, hids⟩ := List.forall_mem_cons.1 h
    have hmax : max last id = last := by
      show (if last ≤ id then id else last) = last
      split
      next hle => exact Int64.le_antisymm hid hle
      next => rfl
    rw [List.foldl_cons, hmax, ih hids]

/-- The numbers ascend, so the next one is above the last. -/
theorem nextId? (h : s.database.Archives rows) : s.database.nextId? =
    if s.database.lastId = Int64.maxValue then none else some (s.database.lastId + 1) := by
  have hlast : (s.database.transactions.map (·.id)).foldl max s.database.lastId =
      s.database.lastId := by
    refine foldl_max_eq fun id hid => ?_
    obtain ⟨r, hr, rfl⟩ := List.mem_map.1 hid
    rw [h.rows_eq] at hr
    obtain ⟨t, ht, rfl⟩ := List.mem_map.1 hr
    have hle := (toInt64_le_toInt64_iff (h.id_lt ht) h.last_lt).2 (h.le_last t ht)
    rwa [Int64.toInt64_toUInt64] at hle
  rw [Database.nextId?, hlast]

theorem max?_ofUInt64 {slots : List UInt64} (h : ∀ slot ∈ slots, slot.toNat < 2 ^ 63) :
    (slots.map NumberCell.ofUInt64).max? = slots.max?.map NumberCell.ofUInt64 := by
  cases slots with
  | nil => rfl
  | cons slot slots =>
    obtain ⟨hslot, hslots⟩ := List.forall_mem_cons.1 h
    have hfold : (slots.map NumberCell.ofUInt64).foldl max (.ofUInt64 slot) =
        .ofUInt64 (slots.foldl max slot) := by
      clear h
      induction slots generalizing slot with
      | nil => rfl
      | cons next slots ih =>
        obtain ⟨hnext, hslots⟩ := List.forall_mem_cons.1 hslots
        rw [List.map_cons, List.foldl_cons, NumberCell.max_ofUInt64 hslot hnext]
        refine ih (max slot next) ?_ hslots
        rcases le_total slot next with hle | hle
        · rwa [max_eq_right hle]
        · rwa [max_eq_left hle]
    exact congrArg some hfold

/-- The newest slot of a pool. -/
theorem newestSlot? (h : s.database.Archives rows) (pool : String) :
    s.database.newestSlot? pool = .ok ((rows.filter (·.pool = pool)).map (·.slot)).max? := by
  have hcells : (s.database.transactions.filter (·.pool = pool)).map (·.slot) =
      ((rows.filter (·.pool = pool)).map (·.slot)).map NumberCell.ofUInt64 := by
    rw [h.rows_eq, List.filter_map, List.map_map, List.map_map]
    exact List.map_congr_left fun t ht => h.slot_ofStored (List.mem_filter.1 ht).1
  have hlt : ∀ slot ∈ (rows.filter (·.pool = pool)).map (·.slot), slot.toNat < 2 ^ 63 := by
    intro slot hslot
    obtain ⟨t, ht, rfl⟩ := List.mem_map.1 hslot
    exact h.slot_lt t (List.mem_filter.1 ht).1
  rw [Database.newestSlot?, hcells, max?_ofUInt64 hlt]
  cases ((rows.filter (·.pool = pool)).map (·.slot)).max? with
  | none => rfl
  | some slot =>
    simp only [Option.map_some, NumberCell.count_ofUInt64]
    rfl

/-- A slot is older than that of some row of the pool, or no row of the pool is newer. -/
theorem newest_cases (rows : List StoredTransaction) (pool : String) (slot : UInt64) :
    (∃ u ∈ rows, u.pool = pool ∧ slot < u.slot ∧
        ((rows.filter (·.pool = pool)).map (·.slot)).max?.filter (slot < ·) = some u.slot) ∨
      (∀ u ∈ rows, u.pool = pool → u.slot ≤ slot) ∧
        ((rows.filter (·.pool = pool)).map (·.slot)).max?.filter (slot < ·) = none := by
  have hmem {u : StoredTransaction} (hu : u ∈ rows) (hpool : u.pool = pool) :
      u.slot ∈ (rows.filter (·.pool = pool)).map (·.slot) :=
    List.mem_map_of_mem (List.mem_filter.2 ⟨hu, decide_eq_true hpool⟩)
  cases hmax : ((rows.filter (·.pool = pool)).map (·.slot)).max? with
  | none =>
    have hempty := List.max?_eq_none_iff.1 hmax
    refine .inr ⟨fun u hu hpool => ?_, rfl⟩
    have hu := hmem hu hpool
    rw [hempty] at hu
    cases hu
  | some newest =>
    obtain ⟨hnewest, hle⟩ := List.max?_eq_some_iff.1 hmax
    obtain ⟨u, hu, rfl⟩ := List.mem_map.1 hnewest
    obtain ⟨hu, hpool⟩ := List.mem_filter.1 hu
    by_cases hlt : slot < u.slot
    · exact .inl ⟨u, hu, of_decide_eq_true hpool, hlt, by simp [Option.filter, hlt]⟩
    · refine .inr ⟨fun v hv hvpool => ?_, by simp [Option.filter, hlt]⟩
      exact (hle v.slot (hmem hv hvpool)).trans (not_lt.1 hlt)

/-- The next number is above the last one, if there is room. -/
theorem toNat_next (h : s.database.Archives rows) (hroom : s.database.lastId ≠ Int64.maxValue) :
    (s.database.lastId + 1).toUInt64.toNat = s.database.lastId.toUInt64.toNat + 1 ∧
      s.database.lastId.toUInt64.toNat + 1 < 2 ^ 63 := by
  have hlt := h.last_lt
  have hne : s.database.lastId.toUInt64.toNat ≠ 2 ^ 63 - 1 := fun heq =>
    hroom (by rw [← Int64.toInt64_toUInt64 s.database.lastId, UInt64.toNat_inj.1
      (heq.trans (by decide : 2 ^ 63 - 1 = Int64.maxValue.toUInt64.toNat))]; rfl)
  have hadd : (s.database.lastId + 1).toUInt64 = s.database.lastId.toUInt64 + 1 := rfl
  rw [hadd, UInt64.toNat_add]
  have hone : (1 : UInt64).toNat = 1 := rfl
  omega

/-- A row under the next number goes on. -/
theorem concat (h : s.database.Archives rows) {pool : String} {t : Transaction}
    (hslot : t.slot.toNat < 2 ^ 63) (hnew : ∀ u ∈ rows, u.pool = pool → u.signature ≠ t.signature)
    (hslots : ∀ u ∈ rows, u.pool = pool → u.slot ≤ t.slot)
    (hroom : s.database.lastId ≠ Int64.maxValue) :
    Archives
      { s.database with
        transactions := s.database.transactions ++ [.ofTransaction (s.database.lastId + 1) pool t]
        lastId := s.database.lastId + 1 }
      (rows ++ [.ofTransaction (s.database.lastId + 1).toUInt64 pool t]) := by
  obtain ⟨hnext, hbound⟩ := h.toNat_next hroom
  generalize hid : (s.database.lastId + 1).toUInt64 = id at hnext
  have hlt : ∀ u ∈ rows, u.id < id := fun u hu => by
    have hle := UInt64.le_iff_toNat_le.1 (h.le_last u hu)
    rw [UInt64.lt_iff_toNat_lt]
    omega
  have hone {p : StoredTransaction → Prop} (hrows : ∀ u ∈ rows, p u)
      (hrow : p (.ofTransaction id pool t)) :
      ∀ u ∈ rows ++ [.ofTransaction id pool t], p u := by
    intro u hu
    rcases List.mem_append.1 hu with hu | hu
    · exact hrows u hu
    · rwa [List.mem_singleton.1 hu]
  have hlast {p : StoredTransaction → StoredTransaction → Prop} (hrows : rows.Pairwise p)
      (hrow : ∀ u ∈ rows, p u (.ofTransaction id pool t)) :
      (rows ++ [StoredTransaction.ofTransaction id pool t]).Pairwise p :=
    List.pairwise_append.2 ⟨hrows, List.pairwise_singleton _ _, fun u hu v hv =>
      List.mem_singleton.1 hv ▸ hrow u hu⟩
  refine ⟨?_, hone h.faithful rfl, hlast h.ids hlt, hone h.pos ?_, hone (fun u hu => ?_) ?_, ?_, ?_,
    hlast h.slots hslots, hlast h.signatures hnew, hone h.slot_lt hslot⟩
  · show s.database.transactions ++ [_] = _
    rw [List.map_append, ← h.rows_eq, List.map_singleton, TransactionRow.ofStored,
      StoredTransaction.ofTransaction, ← hid, Int64.toInt64_toUInt64]
  · show 0 < id
    rw [UInt64.lt_iff_toNat_lt, hnext]
    exact Nat.zero_lt_succ _
  · show u.id ≤ (s.database.lastId + 1).toUInt64
    rw [hid]
    exact (hlt u hu).le
  · show id ≤ (s.database.lastId + 1).toUInt64
    rw [hid]
  · show (s.database.lastId + 1).toUInt64.toNat < 2 ^ 63
    rw [hid, hnext]
    exact hbound
  · show _ ≤ (s.database.lastId + 1).toUInt64.toNat
    rw [hid, hnext, List.length_append, List.length_singleton]
    exact Nat.succ_le_succ h.length_le

end Database.Archives

/-- What may become of a transaction that is to be stored for a pool, when the table holds some
rows. -/
inductive InsertOutcome (s : DurableStore) (rows : List StoredTransaction) (pool : String)
    (t : Transaction) : Except StoreError (UInt64 × DurableStore) → Prop
  /-- The signature is known: its id is answered, and nothing changes. -/
  | known {u : StoredTransaction} (hu : u ∈ rows) (hpool : u.pool = pool)
      (hsignature : u.signature = t.signature) : InsertOutcome s rows pool t (.ok (u.id, s))
  /-- A row of the pool has a newer slot. -/
  | older {u : StoredTransaction}
      (hnew : ∀ v ∈ rows, v.pool = pool → v.signature ≠ t.signature)
      (hu : u ∈ rows) (hpool : u.pool = pool) (hslot : t.slot < u.slot) :
      InsertOutcome s rows pool t (.error (.outOfOrder pool t.slot u.slot))
  /-- The table cannot be written. -/
  | refused (hnew : ∀ v ∈ rows, v.pool = pool → v.signature ≠ t.signature)
      (hslots : ∀ v ∈ rows, v.pool = pool → v.slot ≤ t.slot) {fault : DatabaseFault}
      (hfault : fault = .locked ∧ s.locked = true ∨
        fault = .full ∧ s.database.lastId = Int64.maxValue) :
      InsertOutcome s rows pool t (.error (.database fault))
  /-- A row is added under an id above all others. -/
  | stored (hnew : ∀ v ∈ rows, v.pool = pool → v.signature ≠ t.signature)
      (hslots : ∀ v ∈ rows, v.pool = pool → v.slot ≤ t.slot) {id : UInt64} {d : Database}
      (hid : s.database.lastId.toUInt64 < id)
      (harchives : d.Archives (rows ++ [.ofTransaction id pool t]))
      (hrest : d = { s.database with transactions := d.transactions, lastId := d.lastId }) :
      InsertOutcome s rows pool t (.ok (id, { s with database := d }))

/-- A transaction is stored in the order of the table, or nothing changes. -/
theorem Database.Archives.insert {s : DurableStore} {rows : List StoredTransaction}
    (h : s.database.Archives rows) (pool : String) {t : Transaction}
    (hslot : t.slot.toNat < 2 ^ 63) : InsertOutcome s rows pool t (s.insert pool t) := by
  have hfind : s.database.transactions.find? (fun r => r.pool = pool && r.signature = t.signature) =
      (rows.find? fun u => u.pool = pool && u.tx.signature = t.signature).map
        TransactionRow.ofStored := by
    rw [h.rows_eq, List.find?_map]
    rfl
  have hsignature : ∀ u ∈ rows, u.tx.signature = u.signature := fun u hu =>
    congrArg StoredTransaction.signature (h.faithful u hu).symm
  rw [DurableStore.insert]
  simp only [hfind, h.newestSlot? pool]
  cases hknown : rows.find? fun u => u.pool = pool && u.tx.signature = t.signature with
  | some u =>
    have hu := List.mem_of_find?_eq_some hknown
    have hmatch := List.find?_some hknown
    obtain ⟨hpool, hsame⟩ := Bool.and_eq_true_iff.1 hmatch
    have houtcome : InsertOutcome s rows pool t (.ok (u.id, s)) :=
      .known hu (of_decide_eq_true hpool) ((hsignature u hu).symm.trans (of_decide_eq_true hsame))
    have hid : (TransactionRow.ofStored u).id.toUInt64 = u.id := UInt64.toUInt64_toInt64 u.id
    rw [Option.map_some]
    simpa only [hid] using houtcome
  | none =>
    have hnew : ∀ v ∈ rows, v.pool = pool → v.signature ≠ t.signature := by
      intro v hv hpool hsame
      have hmiss := List.find?_eq_none.1 hknown v hv
      simp [hpool, (hsignature v hv).trans hsame] at hmiss
    rw [Option.map_none]
    rcases Database.Archives.newest_cases rows pool t.slot with
      ⟨u, hu, hpool, hlt, hnewest⟩ | ⟨hslots, hnewest⟩
    · simp only [Except.mapError, bind, Except.bind, hnewest]
      exact .older hnew hu hpool hlt
    · simp only [Except.mapError, bind, Except.bind, hnewest]
      by_cases hlocked : s.locked = true
      · rw [if_pos hlocked]
        exact .refused hnew hslots (.inl ⟨rfl, hlocked⟩)
      rw [if_neg hlocked]
      by_cases hfull : s.database.lastId = Int64.maxValue
      · have hadd : s.database.addTransaction pool t = .error .full := by
          rw [Database.addTransaction, h.nextId?, if_pos hfull]
        simp only [hadd]
        exact .refused hnew hslots (.inr ⟨rfl, hfull⟩)
      · have hadd : s.database.addTransaction pool t = .ok (s.database.lastId + 1,
            { s.database with
              transactions :=
                s.database.transactions ++ [.ofTransaction (s.database.lastId + 1) pool t]
              lastId := s.database.lastId + 1 }) := by
          rw [Database.addTransaction, h.nextId?, if_neg hfull]
        have habove : s.database.lastId.toUInt64 < (s.database.lastId + 1).toUInt64 := by
          rw [UInt64.lt_iff_toNat_lt, (h.toNat_next hfull).1]
          exact Nat.lt_succ_self _
        simp only [hadd]
        exact .stored hnew hslots habove (h.concat hslot hnew hslots hfull) rfl

end PoolKlines
