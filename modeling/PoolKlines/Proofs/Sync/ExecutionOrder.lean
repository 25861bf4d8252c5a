import PoolKlines.Proofs.Operation.Decode
import PoolKlines.Proofs.Operation.Order
import PoolKlines.Proofs.Sync.ExactlyOnce
import PoolKlines.Sync.Indexer

/-!
# Records in the order of execution

* `Indexer.findings` lists what each instruction, or each line of the log, gives rise to on its own;
* `Indexer.recordsAndErrors_eq`: the records and the errors of a transaction are those of its
  findings;
* `Indexer.pairwise_findings`, `Indexer.pairwise_records`: both are numbered in their order;
* `Indexer.decode_eq_of_numbered`: sorting leaves the records of a pool as they are;
* `records_in_execution_order` puts these together.
-/

namespace PoolKlines

/-- The numbers of a transaction's instructions, or of the lines of its log, do not overflow. -/
def Transaction.Numbered (t : Transaction) : ProtocolVersion → Prop
  | .v1 =>
    t.instructions.length ≤ 65536 ∧ ∀ group ∈ t.innerGroups, group.instructions.length ≤ 65535
  | .v2 => t.logMessages.length < UInt32.size

instance (t : Transaction) : DecidablePred t.Numbered
  | .v1 => inferInstanceAs (Decidable (_ ∧ ∀ group ∈ t.innerGroups, _))
  | .v2 => inferInstanceAs (Decidable (_ < _))

variable {pools : PoolSnapshot} {tx : TransactionMeta} {record : Record}

/-- The record of an operation is numbered by the place of its instruction. -/
theorem Record.seq_of_ofOperation? {o : Operation} (h : ofOperation? pools o tx = some record) :
    record.header.seq = o.location.seq := by
  obtain ⟨pool, -, rfl⟩ := Option.map_eq_some_iff.1 h
  cases hkind : o.kind <;> rfl

/-- The record of an event is numbered by its line. -/
theorem Record.seq_of_ofEvent? {d : DecodedEvent} (h : ofEvent? pools d tx = some record) :
    record.header.seq = UInt32.ofNat d.logIndex := by
  obtain ⟨pool, -, rfl⟩ := Option.map_eq_some_iff.1 h
  cases hevent : d.event <;> rfl

namespace Indexer

variable (indexer : Indexer) (pools : PoolSnapshot) (stored : StoredTransaction)

/-- What every instruction of a transaction, or every line of its log, gives rise to on its own, in
the order of execution: its number, and a record, nothing, or an error. -/
def findings : ProtocolVersion → List (UInt32 × Except DecodeError (Option Record))
  | .v1 => stored.tx.located.map fun (l, i) =>
    (l.seq, (decodeInstruction indexer.programId stored.tx pools i l).map fun decoded =>
      decoded.bind (Record.ofOperation? pools · stored.meta))
  | .v2 => stored.tx.logMessages.zipIdx.map fun (line, index) =>
    (UInt32.ofNat index, (decodeLine indexer.events line).map fun decoded =>
      decoded.bind fun (name, event) => Record.ofEvent? pools ⟨name, index, event⟩ stored.meta)

/-- The records and the errors of a transaction are those of its findings. -/
theorem recordsAndErrors_eq (version : ProtocolVersion) :
    indexer.recordsAndErrors pools version stored =
      ((indexer.findings pools stored version).filterMap fun x => x.2.toOption.join,
        (indexer.findings pools stored version).filterMap fun x => errorOf? x.2) := by
  cases version with
  | v1 =>
    simp only [recordsAndErrors, findings, scanTransaction, List.filterMap_filterMap,
      List.filterMap_map, Prod.mk.injEq]
    constructor
    · refine List.filterMap_congr ?_
      rintro ⟨l, i⟩ -
      dsimp only [Function.comp_apply]
      cases decodeInstruction indexer.programId stored.tx pools i l with
      | error e => rfl
      | ok decoded => cases decoded <;> rfl
    · refine List.filterMap_congr ?_
      rintro ⟨l, i⟩ -
      dsimp only [Function.comp_apply]
      cases decodeInstruction indexer.programId stored.tx pools i l <;> rfl
  | v2 =>
    simp only [recordsAndErrors, findings, scanLog, List.filterMap_filterMap,
      List.filterMap_map, Prod.mk.injEq]
    constructor
    · refine List.filterMap_congr ?_
      rintro ⟨line, index⟩ -
      dsimp only [Function.comp_apply]
      cases decodeLine indexer.events line with
      | error e => rfl
      | ok decoded => cases decoded <;> rfl
    · -- the errors do not depend on the numbers of the lines
      conv_lhs => rw [← List.zipIdx_map_fst 0 stored.tx.logMessages, List.filterMap_map]
      refine List.filterMap_congr ?_
      rintro ⟨line, index⟩ -
      dsimp only [Function.comp_apply]
      cases decodeLine indexer.events line <;> rfl

variable {indexer pools stored}

/-- A record is numbered like its finding. -/
theorem seq_of_mem_findings {version : ProtocolVersion} {number : UInt32} {record : Record}
    (h : (number, .ok (some record)) ∈ indexer.findings pools stored version) :
    record.header.seq = number := by
  cases version with
  | v1 =>
    obtain ⟨⟨l, i⟩, -, hx⟩ := List.mem_map.1 h
    obtain ⟨rfl, hfound⟩ := Prod.mk.inj hx
    obtain ⟨decoded, hdecoded, hrecord⟩ := map_eq_ok.1 hfound
    obtain ⟨operation, rfl, hoperation⟩ := Option.bind_eq_some_iff.1 hrecord
    obtain ⟨_, _, _, hsettled⟩ := read_of_decodeInstruction hdecoded
    rw [Record.seq_of_ofOperation? hoperation, hsettled.location]
  | v2 =>
    obtain ⟨⟨line, index⟩, -, hx⟩ := List.mem_map.1 h
    obtain ⟨rfl, hfound⟩ := Prod.mk.inj hx
    obtain ⟨decoded, -, hrecord⟩ := map_eq_ok.1 hfound
    obtain ⟨⟨name, event⟩, rfl, hevent⟩ := Option.bind_eq_some_iff.1 hrecord
    exact Record.seq_of_ofEvent? hevent

/-- The findings are numbered in their order. -/
theorem pairwise_findings {version : ProtocolVersion} (h : stored.tx.Numbered version) :
    (indexer.findings pools stored version).Pairwise fun x y => x.1 < y.1 := by
  cases version with
  | v1 => exact List.pairwise_map.2 (Transaction.pairwise_seq_located h.1 h.2)
  | v2 =>
    refine List.pairwise_map.2 ((pairwise_zipIdx _).imp_of_mem fun {x y} hx hy hxy => ?_)
    have hlines : ∀ {z}, z ∈ stored.tx.logMessages.zipIdx →
        (UInt32.ofNat z.2).toNat = z.2 := fun hz =>
      UInt32.toNat_ofNat_of_lt' ((List.snd_lt_of_mem_zipIdx hz).trans h)
    rw [UInt32.lt_iff_toNat_lt, hlines hx, hlines hy]
    exact hxy

/-- The records of a transaction are numbered in their order. -/
theorem pairwise_records {version : ProtocolVersion} (h : stored.tx.Numbered version) :
    (indexer.recordsAndErrors pools version stored).1.Pairwise fun r s =>
      r.header.seq < s.header.seq := by
  rw [recordsAndErrors_eq, List.pairwise_filterMap]
  refine (pairwise_findings h).imp_of_mem fun {x y} hx hy hxy r hr s hs => ?_
  obtain ⟨numberX, foundX⟩ := x
  obtain ⟨numberY, foundY⟩ := y
  obtain rfl := toOption_join_eq_some.1 hr
  obtain rfl := toOption_join_eq_some.1 hs
  rw [seq_of_mem_findings hx, seq_of_mem_findings hy]
  exact hxy

/-- No records were built just if no finding is a record. -/
theorem recordsAndErrors_isEmpty {version : ProtocolVersion} :
    (indexer.recordsAndErrors pools version stored).1.isEmpty ↔
      ∀ x ∈ indexer.findings pools stored version, ∀ record, x.2 ≠ .ok (some record) := by
  rw [recordsAndErrors_eq, List.isEmpty_iff, List.filterMap_eq_nil_iff]
  refine forall₂_congr fun x _ => ?_
  rw [Option.eq_none_iff_forall_ne_some]
  exact forall_congr' fun record => not_congr toOption_join_eq_some

/-- There is a first error just if a finding is an error. -/
theorem recordsAndErrors_head?_isSome {version : ProtocolVersion} :
    (indexer.recordsAndErrors pools version stored).2.head?.isSome ↔
      ∃ x ∈ indexer.findings pools stored version, ∃ e, x.2 = .error e := by
  rw [recordsAndErrors_eq, List.isSome_head?, ne_eq, List.filterMap_eq_nil_iff]
  simp only [not_forall, exists_prop, ← ne_eq, Option.ne_none_iff_exists', errorOf?_eq_some]

/-- Sorting by number leaves the records of a pool as they are. -/
theorem decode_eq_of_numbered {pool : PoolConfig} (hfailed : stored.tx.failed = false)
    (hnumbered : stored.tx.Numbered pool.version) :
    indexer.decode pools pool stored =
      let (records, errors) := indexer.recordsAndErrors pools pool.version stored
      (records.filter (·.pool = pool.address), if records.isEmpty then errors.head? else none) := by
  have hsorted : (indexer.recordsAndErrors pools pool.version stored).1.Pairwise fun r s =>
      r.header.seq < s.header.seq := pairwise_records hnumbered
  simp only [decode, hfailed, Bool.false_eq_true, if_false, Prod.mk.injEq, and_true]
  exact List.mergeSort_of_pairwise
    ((hsorted.filter _).imp fun h => decide_eq_true (UInt32.le_of_lt h))

end Indexer

/-- **Records come out in the order of execution.** The instructions of a transaction are listed in
the order of execution, and just these. If the transaction did not fail and its positions or lines
are numbered without overflow, the records that are decoded for a pool are those findings that are
records of the pool, in their order: each instruction, or line, is decoded on its own, and sorting
by number moves nothing, for the numbers ascend. An error is reported just if none of the findings
is a record, of whichever pool, and one of them is an error. -/
theorem records_in_execution_order (indexer : Indexer) (pools : PoolSnapshot) (pool : PoolConfig)
    (stored : StoredTransaction) (hfailed : stored.tx.failed = false)
    (hnumbered : stored.tx.Numbered pool.version) :
    let found := indexer.findings pools stored pool.version
    let decoded := indexer.decode pools pool stored
    (stored.tx.located.Pairwise (fun x y => x.1.Before y.1) ∧
        ∀ l i, (l, i) ∈ stored.tx.located ↔ stored.tx.instructionAt? l = some i) ∧
      decoded.1 = (found.filterMap (·.2.toOption.join)).filter (·.pool = pool.address) ∧
      decoded.1.Pairwise (fun r s => r.header.seq < s.header.seq) ∧
      (decoded.2.isSome ↔ (∀ x ∈ found, ∀ record, x.2 ≠ .ok (some record)) ∧
        ∃ x ∈ found, ∃ e, x.2 = .error e) := by
  intro found decoded
  simp only [decoded, Indexer.decode_eq_of_numbered hfailed hnumbered]
  refine ⟨⟨stored.tx.pairwise_located, fun l i => stored.tx.mem_located⟩, ?_, ?_, ?_⟩
  · rw [Indexer.recordsAndErrors_eq]
  · exact (Indexer.pairwise_records hnumbered).filter _
  · rw [← Indexer.recordsAndErrors_isEmpty, ← Indexer.recordsAndErrors_head?_isSome]
    split
    next h => simp only [h, true_and]
    next h => simp only [h, Option.isSome_none, Bool.false_eq_true, false_and]

/-- Two swaps in the first pool around an instruction whose text is no base64, each behind its own
transfers. -/
def swapsAroundMalformed : StoredTransaction where
  id := 1
  pool := "first"
  slot := 1
  signature := "signature"
  blockTime := 0
  tx := { twoSwaps with
    instructions := [swapIn 4 5 6, ⟨0, [], "?"⟩, swapIn 4 5 6]
    innerGroups := [⟨0, [transferOf 10, transferOf 20]⟩, ⟨2, [transferOf 30, transferOf 90]⟩] }

/-- The malformed instruction takes neither of the swaps away, and they come out in order. -/
theorem records_in_execution_order_of_two_swaps :
    let pool := poolAt "first" "a1" "b1" 6
    let decoded := plainIndexer.decode (.ofPools [pool]) pool swapsAroundMalformed
    let errors := (plainIndexer.recordsAndErrors (.ofPools [pool]) .v1 swapsAroundMalformed).2
    swapsAroundMalformed.tx.failed = false ∧ swapsAroundMalformed.tx.Numbered pool.version ∧
      errors.length = 1 ∧ decoded.1.map (·.header.seq) = [0, 131072] ∧
      decoded.1.Pairwise (fun r s => r.header.seq < s.header.seq) ∧ decoded.2 = none := by
  intro pool decoded errors
  have hnumbered : swapsAroundMalformed.tx.Numbered pool.version := by decide
  obtain ⟨-, hrecords, hsorted, -⟩ := records_in_execution_order plainIndexer (.ofPools [pool])
    pool swapsAroundMalformed rfl hnumbered
  refine ⟨rfl, hnumbered, by decide +kernel, ?_, hsorted, by decide +kernel⟩
  rw [hrecords]
  decide +kernel

end PoolKlines
