import PoolKlines.Proofs.Operation.Decode
import PoolKlines.Proofs.Pool.Snapshot
import PoolKlines.Record.Build

/-!
# The configuration behind a record

An operation is decoded with the pool that its accounts resolve to, but names this pool by its
address only, by which it is looked up once more for the record.

* `record_configuration` says when both are the same configuration;
* `record_of_later_configuration` is a record made with another one.
-/

namespace PoolKlines

open PoolSnapshot

variable {pools : List PoolConfig} {t : Transaction} {i : Instruction} {o : Operation}
  {decoded : PoolConfig}

/-- What an instruction resolves to is one of the pools. -/
theorem Operation.ReadWith.mem (h : o.ReadWith t (.ofPools pools) i decoded) :
    decoded ∈ pools := by
  have hconfiguration := h.configuration
  simp only [Instruction.configuration?, Option.bind_eq_bind, Option.bind_eq_some_iff]
    at hconfiguration
  obtain ⟨pool, -, vault, -, hresolve⟩ := hconfiguration
  exact mem_of_resolve? hresolve

/-- The record of an operation depends on the pool at its address only. -/
theorem Record.ofOperation?_eq_of_find? {pools others : PoolSnapshot}
    (h : pools.find? o.pool = others.find? o.pool) (tx : TransactionMeta) :
    ofOperation? pools o tx = ofOperation? others o tx := by
  rw [ofOperation?, ofOperation?, h]

/-- **One record, one configuration of its pool.** A pool that some address stands for is found by
its own address unless a later pool of the list has the same address. Every decoded operation was
read with a pool that its instruction resolves to, and its record is the one that is made if only
one pool is known; this is the pool it was read with unless a later pool has the same address. -/
theorem record_configuration (programId : String) (pools : List PoolConfig) :
    (∀ address pool, (ofPools pools).find? address = some pool →
      ((ofPools pools).find? pool.address = some pool ↔
        lastAt? pools pool.address = some pool)) ∧
    ∀ t i l o, decodeInstruction programId t (.ofPools pools) i l = .ok (some o) →
      ∃ decoded built, o.ReadWith t (.ofPools pools) i decoded ∧
        (ofPools pools).find? o.pool = some built ∧
        (∀ tx, ∃ record, Record.ofOperation? (.ofPools pools) o tx = some record ∧
          Record.ofOperation? (.ofPools [built]) o tx = some record) ∧
        (built = decoded ↔ lastAt? pools decoded.address = some decoded) := by
  refine ⟨fun address pool hpool => by rw [find?_address (mem_of_find?_ofPools hpool)], ?_⟩
  intro t i l o hdecode
  obtain ⟨decoded, hread⟩ := exists_of_decodeInstruction hdecode
  obtain ⟨built, -, haddress, hlast⟩ := exists_lastAt? hread.mem
  have hfind : (ofPools pools).find? o.pool = some built := by
    rw [hread.address, find?_address hread.mem, hlast]
  have hsingle : (ofPools [built]).find? o.pool = some built := by
    rw [hread.address, ← haddress, find?_address (List.mem_singleton_self built)]
    simp [lastAt?]
  refine ⟨decoded, built, hread, hfind, fun tx => ?_, by rw [hlast, Option.some_inj]⟩
  have hrecord : (Record.ofOperation? (.ofPools pools) o tx).isSome := by
    rw [Record.ofOperation?, hfind]
    rfl
  obtain ⟨record, hrecord⟩ := Option.isSome_iff_exists.1 hrecord
  refine ⟨record, hrecord, ?_⟩
  rw [← hrecord, Record.ofOperation?_eq_of_find? (hsingle.trans hfind.symm)]

/-- The first of two swaps is read with the pool at its address, and so is its record. -/
theorem record_configuration_first_swap :
    let first := poolAt "first" "a1" "b1" 6
    let pools := [first, poolAt "second" "a2" "b2" 9]
    decodeInstruction "program" twoSwaps (.ofPools pools) (swapIn 4 5 6) ⟨0, none⟩ =
        .ok (some (firstSwap "first")) ∧
      (firstSwap "first").ReadWith twoSwaps (.ofPools pools) (swapIn 4 5 6) first ∧
      (ofPools pools).find? "first" = some first := by
  intro first pools
  have hdecode : decodeInstruction "program" twoSwaps (.ofPools pools) (swapIn 4 5 6) ⟨0, none⟩ =
      .ok (some (firstSwap "first")) := by decide +kernel
  obtain ⟨hlookup, hrecords⟩ := record_configuration "program" pools
  obtain ⟨decoded, built, hread, hfind, -, hsame⟩ := hrecords _ _ _ _ hdecode
  have hfirst : (ofPools pools).find? "first" = some first := by decide +kernel
  obtain rfl : first = built := Option.some_inj.1 (hfirst.symm.trans hfind)
  have haddresses : (pools.map PoolConfig.address).Nodup := by decide
  obtain rfl := hsame.2 (lastAt?_of_nodup haddresses hread.mem)
  exact ⟨hdecode, hread, hfirst⟩

/-- Of two pools with one address, a swap is read with the first, which its vault stands for; its
record is made with the second, which has other decimals. -/
theorem record_of_later_configuration :
    let first := poolAt "pool" "a1" "b1" 6
    let second := poolAt "pool" "a2" "b2" 9
    let pools := [first, second]
    first ≠ second ∧
    decodeInstruction "program" twoSwaps (.ofPools pools) (swapIn 4 5 6) ⟨0, none⟩ =
        .ok (some (firstSwap "pool")) ∧
      (swapIn 4 5 6).configuration? twoSwaps (.ofPools pools) .swap = some first ∧
      (ofPools pools).find? "pool" = some second ∧
      ∀ tx, ((Record.ofOperation? (.ofPools pools) (firstSwap "pool") tx).map Record.volumes) =
        some ⟨Decimal.ofRaw 10 9, Decimal.ofRaw 20 9⟩ := by
  exact ⟨by decide, by decide +kernel, by decide +kernel, by decide +kernel, fun tx => rfl⟩

end PoolKlines
