import PoolKlines.Json.Decode
import PoolKlines.Sides

/-!
# Configured pools

* `ProtocolVersion`: V1 pools are followed through instructions and token transfers, V2 pools
  through events in the program log;
* `PoolConfig` describes a pool and its two tokens;
* `PoolConfig.ofJson?` and `PoolConfig.toJson` for its JSON form.
-/

namespace PoolKlines

/-- How the program of a pool reports what happens. -/
inductive ProtocolVersion
  | v1
  | v2
  deriving DecidableEq

namespace ProtocolVersion

/-- The name of a version. -/
def name : ProtocolVersion → String
  | v1 => "v1"
  | v2 => "v2"

/-- The version with a name. -/
def ofName? (name : String) : Option ProtocolVersion :=
  if name = "v1" then some v1 else if name = "v2" then some v2 else none

@[simp] theorem ofName?_name (v : ProtocolVersion) : ofName? v.name = some v := by
  cases v <;> rfl

/-- Read a version, which is written as its name. -/
def ofJson? (j : Json) : Option ProtocolVersion := j.case?.bind ofName?

instance : Ord ProtocolVersion := ⟨compareOn ProtocolVersion.ctorIdx⟩

instance : Std.TransOrd ProtocolVersion := inferInstanceAs (Std.TransCmp (compareOn _))

instance : Std.LawfulEqOrd ProtocolVersion where
  compare_self {v} := by cases v <;> rfl
  eq_of_compare {v w} h := by revert h; cases v <;> cases w <;> decide

end ProtocolVersion

/-- One token of a pool: its mint, the pool's vault that holds it, and its decimals. -/
structure PoolToken where
  mint : String
  vault : String
  decimals : UInt8
  deriving DecidableEq

/-- A pool; the fee rate is in millionths of the input amount. -/
structure PoolConfig where
  address : String
  version : ProtocolVersion
  tokens : Sides PoolToken
  feeRate : UInt32
  deriving DecidableEq

namespace PoolConfig

/-- The fields of a pool in JSON. -/
def fieldNames : List String :=
  ["address", "version", "tokenAMint", "tokenBMint", "tokenAVault", "tokenBVault",
    "tokenADecimals", "tokenBDecimals", "feeRate"]

/-- Read a pool; without a fee rate there is no fee. -/
def ofJson? (j : Json) : Option PoolConfig := do
  let [address, version, mintA, mintB, vaultA, vaultB, decimalsA, decimalsB, feeRate] ←
    j.record? fieldNames | none
  return {
    address := ← Json.required Json.string? address
    version := ← Json.required ProtocolVersion.ofJson? version
    tokens := {
      a := {
        mint := ← Json.required Json.string? mintA
        vault := ← Json.required Json.string? vaultA
        decimals := ← Json.required Json.uint8? decimalsA }
      b := {
        mint := ← Json.required Json.string? mintB
        vault := ← Json.required Json.string? vaultB
        decimals := ← Json.required Json.uint8? decimalsB } }
    feeRate := ← Json.orElse Json.uint32? 0 feeRate }

/-- Write a pool. -/
def toJson (p : PoolConfig) : Json :=
  .object [
    ("address", .string p.address),
    ("version", .string p.version.name),
    ("tokenAMint", .string p.tokens.a.mint),
    ("tokenBMint", .string p.tokens.b.mint),
    ("tokenAVault", .string p.tokens.a.vault),
    ("tokenBVault", .string p.tokens.b.vault),
    ("tokenADecimals", .integer p.tokens.a.decimals.toNat),
    ("tokenBDecimals", .integer p.tokens.b.decimals.toNat),
    ("feeRate", .integer p.feeRate.toNat)]

end PoolConfig

end PoolKlines
