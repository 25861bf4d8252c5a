import PoolKlines.Pool.Config
import Std.Data.ExtTreeMap

/-!
# Pools by address

`PoolSnapshot` is a list of pools with an index by pool and by vault address. A pool's own address
replaces what the index held for it; a vault address only fills a gap.

* `PoolSnapshot.ofPools` builds the index in the order of the list;
* `PoolSnapshot.find?` looks an address up.
-/

namespace PoolKlines

/-- A map from addresses. -/
abbrev AddressMap (α : Type) := Std.ExtTreeMap String α

/-- The known pools, and what each address stands for. -/
structure PoolSnapshot where
  pools : List PoolConfig
  index : AddressMap PoolConfig

namespace PoolSnapshot

/-- Enter a pool under its own address and, where they are free, under its vaults. -/
def enter (index : AddressMap PoolConfig) (pool : PoolConfig) : AddressMap PoolConfig :=
  ((index.insert pool.address pool).insertIfNew pool.tokens.a.vault pool).insertIfNew
    pool.tokens.b.vault pool

/-- The snapshot of a list of pools. -/
def ofPools (pools : List PoolConfig) : PoolSnapshot := ⟨pools, pools.foldl enter ∅⟩

/-- The pool an address stands for. -/
def find? (s : PoolSnapshot) (address : String) : Option PoolConfig := s.index[address]?

@[simp] theorem pools_ofPools (pools : List PoolConfig) : (ofPools pools).pools = pools := rfl

@[simp] theorem find?_ofPools_nil (address : String) : (ofPools []).find? address = none := by
  simp [ofPools, find?]

end PoolSnapshot

end PoolKlines
