import Mathlib.Data.List.Induction
import Mathlib.Data.List.Nodup
import PoolKlines.Pool.Snapshot
import PoolKlines.Proofs.Sorted

/-!
# Which pool an address stands for

* `AddressMap.getElem?_enter` says what one pool does to an index, whatever the index holds;
* `PoolSnapshot.lastAt?` is the last pool of a list that has an address as its own;
* `PoolSnapshot.find?_ofPools`: an address stands for this pool, or else for the first pool that has
  it as a vault;
* `PoolSnapshot.find?_ofPools_map`: what is found among changed pools;
* `PoolSnapshot.find?_address` for the address of a pool of the list, and
  `PoolSnapshot.lastAt?_of_nodup` for lists that do not repeat an address;
* `PoolSnapshot.find?_ofPools_eq_getElem?`: an index of positions finds the same pools;
* `addresses_stand_by_priority` says where the pool of an address stands in the list, and which
  addresses stand for no pool.
-/

namespace PoolKlines

/-- An address is that of a vault of a pool. -/
def PoolConfig.HasVault (pool : PoolConfig) (address : String) : Prop :=
  pool.tokens.a.vault = address ∨ pool.tokens.b.vault = address

instance (pool : PoolConfig) (address : String) : Decidable (pool.HasVault address) :=
  inferInstanceAs (Decidable (_ ∨ _))

namespace AddressMap

variable {α : Type}

/-- To fill a gap is to be the second choice. -/
theorem getElem?_insertIfNew (m : AddressMap α) (key address : String) (value : α) :
    (m.insertIfNew key value)[address]? =
      m[address]?.or (if key = address then some value else none) := by
  rw [Std.ExtTreeMap.getElem?_insertIfNew]
  by_cases hkey : key = address
  · subst hkey
    cases h : m[key]? with
    | none => simp [Std.ExtTreeMap.mem_iff_isSome_getElem?, h]
    | some v => simp [Std.ExtTreeMap.mem_iff_isSome_getElem?, h]
  · simp [hkey]

/-- Enter a value for a pool under its own address and, where they are free, under its vaults. -/
def enter (index : AddressMap α) (pool : PoolConfig) (value : α) : AddressMap α :=
  ((index.insert pool.address value).insertIfNew pool.tokens.a.vault value).insertIfNew
    pool.tokens.b.vault value

/-- The value is found by the pool's own address in any case, by its vaults where nothing was
found. -/
theorem getElem?_enter (index : AddressMap α) (pool : PoolConfig) (value : α) (address : String) :
    (index.enter pool value)[address]? =
      if pool.address = address then some value
      else index[address]?.or (if pool.HasVault address then some value else none) := by
  simp only [enter, getElem?_insertIfNew, Std.ExtTreeMap.getElem?_insert,
    Std.LawfulEqOrd.compare_eq_iff_eq]
  by_cases hown : pool.address = address
  · simp [hown]
  · simp only [hown, if_false, Option.or_assoc, PoolConfig.HasVault]
    by_cases ha : pool.tokens.a.vault = address <;> simp [ha]

end AddressMap

namespace PoolSnapshot

/-- The last pool of a list that has an address as its own. -/
def lastAt? (pools : List PoolConfig) (address : String) : Option PoolConfig :=
  pools.reverse.find? (·.address = address)

/-- One more pool is found by its own address in any case, by its vaults where nothing was found. -/
theorem find?_ofPools_concat (pools : List PoolConfig) (pool : PoolConfig) (address : String) :
    (ofPools (pools ++ [pool])).find? address =
      if pool.address = address then some pool
      else ((ofPools pools).find? address).or
        (if pool.HasVault address then some pool else none) := by
  rw [ofPools, List.foldl_concat]
  exact AddressMap.getElem?_enter _ pool pool address

/-- No pool is the last at an address exactly if none has it as its own. -/
theorem lastAt?_eq_none_iff {pools : List PoolConfig} {address : String} :
    lastAt? pools address = none ↔ ∀ pool ∈ pools, pool.address ≠ address := by
  simp [lastAt?]

/-- After the last pool at an address, none has it as its own. -/
theorem lastAt?_eq_some_iff {pools : List PoolConfig} {pool : PoolConfig} {address : String} :
    lastAt? pools address = some pool ↔
      ∃ before after, pools = before ++ pool :: after ∧ pool.address = address ∧
        ∀ later ∈ after, later.address ≠ address := by
  simp only [lastAt?, find?_reverse_eq_some_iff, decide_eq_true_eq]

/-- Before the first pool with a vault at an address, none has one there. -/
theorem find?_hasVault_eq_some_iff {pools : List PoolConfig} {pool : PoolConfig}
    {address : String} :
    pools.find? (·.HasVault address) = some pool ↔
      ∃ before after, pools = before ++ pool :: after ∧ pool.HasVault address ∧
        ∀ earlier ∈ before, ¬ earlier.HasVault address := by
  simp only [List.find?_eq_some_iff_append, decide_eq_true_eq, Bool.not_eq_true',
    decide_eq_false_iff_not]
  constructor
  · rintro ⟨hvault, before, after, hpools, hbefore⟩
    exact ⟨before, after, hpools, hvault, hbefore⟩
  · rintro ⟨before, after, hpools, hvault, hbefore⟩
    exact ⟨hvault, before, after, hpools, hbefore⟩

/-- An address stands for the last pool that has it as its own, or else for the first pool that has
it as a vault. -/
theorem find?_ofPools (pools : List PoolConfig) (address : String) :
    (ofPools pools).find? address =
      (lastAt? pools address).or (pools.find? (·.HasVault address)) := by
  induction pools using List.reverseRecOn with
  | nil => simp [lastAt?]
  | append_singleton pools pool ih =>
    rw [find?_ofPools_concat, ih, lastAt?, lastAt?, List.reverse_concat, List.find?_append,
      List.find?_cons]
    by_cases hown : pool.address = address
    · simp [hown]
    · by_cases hvault : pool.HasVault address <;> simp [hown, hvault]

/-- A change of the pools that keeps their addresses and the addresses of their vaults is a change
of what is found. -/
theorem find?_ofPools_map {f : PoolConfig → PoolConfig} (pools : List PoolConfig)
    (haddress : ∀ pool, (f pool).address = pool.address)
    (hvault : ∀ pool address, (f pool).HasVault address ↔ pool.HasVault address)
    (address : String) :
    (ofPools (pools.map f)).find? address = ((ofPools pools).find? address).map f := by
  have hlast : lastAt? (pools.map f) address = (lastAt? pools address).map f := by
    rw [lastAt?, ← List.map_reverse, List.find?_map]
    simp only [Function.comp_def, haddress]
    rfl
  rw [find?_ofPools, find?_ofPools, hlast, List.find?_map, Option.map_or]
  simp only [Function.comp_def, hvault]

variable {pools : List PoolConfig} {pool : PoolConfig} {address : String}

/-- What an address stands for is one of the pools. -/
theorem mem_of_find?_ofPools (h : (ofPools pools).find? address = some pool) : pool ∈ pools := by
  rw [find?_ofPools, Option.or_eq_some_iff] at h
  obtain hown | ⟨-, hvault⟩ := h
  · exact List.mem_reverse.1 (List.mem_of_find?_eq_some hown)
  · exact List.mem_of_find?_eq_some hvault

/-- Some pool is the last at the address of a pool of the list. -/
theorem exists_lastAt? (h : pool ∈ pools) :
    ∃ last ∈ pools, last.address = pool.address ∧ lastAt? pools pool.address = some last := by
  have hsome : (lastAt? pools pool.address).isSome := by
    rw [lastAt?, List.find?_isSome]
    exact ⟨pool, List.mem_reverse.2 h, by simp⟩
  obtain ⟨last, hlast⟩ := Option.isSome_iff_exists.1 hsome
  exact ⟨last, List.mem_reverse.1 (List.mem_of_find?_eq_some hlast),
    by simpa using List.find?_some hlast, hlast⟩

/-- The address of a pool of the list stands for the last pool that has it as its own. -/
theorem find?_address (h : pool ∈ pools) :
    (ofPools pools).find? pool.address = lastAt? pools pool.address := by
  obtain ⟨last, -, -, hlast⟩ := exists_lastAt? h
  rw [find?_ofPools, hlast, Option.some_or]

/-- Where no two pools have the same address, every pool is the last at its own. -/
theorem lastAt?_of_nodup (h : (pools.map PoolConfig.address).Nodup) (hpool : pool ∈ pools) :
    lastAt? pools pool.address = some pool := by
  obtain ⟨last, hmem, haddress, hlast⟩ := exists_lastAt? hpool
  rw [hlast, List.inj_on_of_nodup_map h hmem hpool haddress]

/-! ### Positions -/

/-- The positions of pools by address, entered in the order of the list. -/
def positions (pools : List PoolConfig) : AddressMap Nat :=
  pools.zipIdx.foldl (fun index (pool, position) => index.enter pool position) ∅

theorem positions_concat (pools : List PoolConfig) (pool : PoolConfig) :
    positions (pools ++ [pool]) = (positions pools).enter pool pools.length := by
  rw [positions, List.zipIdx_append, List.foldl_append]
  simp [positions]

/-- A position in the index is one of the list. -/
theorem lt_of_positions {position : Nat} (h : (positions pools)[address]? = some position) :
    position < pools.length := by
  induction pools using List.reverseRecOn generalizing position with
  | nil => simp [positions] at h
  | append_singleton pools pool ih =>
    rw [positions_concat, AddressMap.getElem?_enter] at h
    rw [List.length_append, List.length_singleton]
    split at h
    · cases h
      exact Nat.lt_succ_self _
    · rcases Option.or_eq_some_iff.1 h with h | ⟨-, h⟩
      · exact Nat.lt_succ_of_lt (ih h)
      · split at h
        · cases h
          exact Nat.lt_succ_self _
        · cases h

/-- An index of positions in the list finds the same pools. -/
theorem find?_ofPools_eq_getElem? (pools : List PoolConfig) (address : String) :
    (ofPools pools).find? address = (positions pools)[address]?.bind (pools[·]?) := by
  induction pools using List.reverseRecOn with
  | nil => simp [positions]
  | append_singleton pools pool ih =>
    rw [find?_ofPools_concat, ih, positions_concat, AddressMap.getElem?_enter]
    by_cases hown : pool.address = address
    · simp [hown]
    · rw [if_neg hown, if_neg hown]
      cases hposition : (positions pools)[address]? with
      | none => by_cases hvault : pool.HasVault address <;> simp [hvault]
      | some position =>
        have hlt := lt_of_positions hposition
        simp [List.getElem?_append_left hlt, List.getElem?_eq_getElem hlt]

end PoolSnapshot

/-- **An address stands for a pool by a fixed priority.** In any list of pools, whatever addresses
it repeats, an address stands for the last pool that has it as its own; or, if there is none, for
the first pool that has it as a vault; and for no pool only if none has it as either. An index of
positions in the list finds the same pools. -/
theorem addresses_stand_by_priority (pools : List PoolConfig) (address : String) :
    (∀ pool, (PoolSnapshot.ofPools pools).find? address = some pool ↔
      (∃ before after, pools = before ++ pool :: after ∧ pool.address = address ∧
        ∀ later ∈ after, later.address ≠ address) ∨
      (∀ other ∈ pools, other.address ≠ address) ∧
        ∃ before after, pools = before ++ pool :: after ∧ pool.HasVault address ∧
          ∀ earlier ∈ before, ¬ earlier.HasVault address) ∧
    ((PoolSnapshot.ofPools pools).find? address = none ↔
      ∀ pool ∈ pools, pool.address ≠ address ∧ ¬ pool.HasVault address) ∧
    (PoolSnapshot.ofPools pools).find? address =
      (PoolSnapshot.positions pools)[address]?.bind (pools[·]?) := by
  refine ⟨fun pool => ?_, ?_, PoolSnapshot.find?_ofPools_eq_getElem? pools address⟩
  · rw [PoolSnapshot.find?_ofPools, Option.or_eq_some_iff, PoolSnapshot.lastAt?_eq_some_iff,
      PoolSnapshot.lastAt?_eq_none_iff, PoolSnapshot.find?_hasVault_eq_some_iff]
  · rw [PoolSnapshot.find?_ofPools, Option.or_eq_none_iff, PoolSnapshot.lastAt?_eq_none_iff,
      List.find?_eq_none]
    simp only [decide_eq_true_eq, forall₂_and]

end PoolKlines
