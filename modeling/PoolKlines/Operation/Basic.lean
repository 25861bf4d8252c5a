import PoolKlines.Json.Decode
import PoolKlines.Sides

/-!
# Pool operations

* `OperationKind` is what an instruction of a V1 pool does, by its first byte;
* `InstructionLocation` is where an instruction stands in its transaction, and
  `InstructionLocation.seq` its place in the order of execution;
* `Operation` is a decoded instruction, with raw amounts.
-/

namespace PoolKlines

/-- The operations of V1 pools. -/
inductive OperationKind
  | swap
  | increase
  | decrease
  | claim
  deriving DecidableEq

/-- The operation with an opcode. -/
def OperationKind.ofOpcode? (opcode : UInt8) : Option OperationKind :=
  if opcode = 1 then some .swap
  else if opcode = 2 then some .increase
  else if opcode = 3 then some .decrease
  else if opcode = 4 then some .claim
  else none

/-- The place of an instruction: a top-level one, or an inner one of the group of a top-level
one. -/
structure InstructionLocation where
  outer : Nat
  inner : Option Nat
  deriving DecidableEq

namespace InstructionLocation

/-- The first position in the inner group that comes after the instruction. -/
def nextInner (l : InstructionLocation) : Nat :=
  match l.inner with
  | some position => position + 1
  | none => 0

/-- The place in the order of execution: 16 bits for the top-level position above 16 bits for the
inner one. Longer positions lose or mix their high bits. -/
def seq (l : InstructionLocation) : UInt32 :=
  let outer := UInt32.ofNat l.outer <<< 16
  match l.inner with
  | some position => outer ||| UInt32.ofNat (position + 1)
  | none => outer

end InstructionLocation

/-- A decoded instruction of a V1 pool. The raw direction is one when token A flows into the pool,
and for all operations but swaps. -/
structure Operation where
  kind : OperationKind
  location : InstructionLocation
  pool : String
  user : String
  position : Option String
  vaults : Sides String
  userTokens : Sides String
  rawDirection : UInt8
  amountSpecified : UInt64
  liquidity : BitVec 128
  amounts : Sides UInt64
  balances : Sides (Option UInt64)
  deriving DecidableEq

/-- Token A flows into the pool. -/
def Operation.isAToB (o : Operation) : Bool := o.rawDirection == 1

/-! ### JSON -/

/-- The name of a kind. -/
def OperationKind.name : OperationKind → String
  | swap => "swap"
  | increase => "increaseLiquidity"
  | decrease => "decreaseLiquidity"
  | claim => "claim"

/-- Write a location. -/
def InstructionLocation.toJson (l : InstructionLocation) : Json :=
  .object [
    ("outerIndex", .integer l.outer),
    ("innerIndex", Json.ofOption (fun i : Nat => .integer i) l.inner)]

/-- Write an operation. -/
def Operation.toJson (o : Operation) : Json :=
  .object [
    ("kind", .string o.kind.name),
    ("location", o.location.toJson),
    ("pool", .string o.pool),
    ("user", .string o.user),
    ("position", Json.ofOption .string o.position),
    ("vaultA", .string o.vaults.a),
    ("vaultB", .string o.vaults.b),
    ("userTokenA", .string o.userTokens.a),
    ("userTokenB", .string o.userTokens.b),
    ("rawDirection", .integer o.rawDirection.toNat),
    ("amountSpecified", Json.ofUInt64 o.amountSpecified),
    ("liquidity", .integer o.liquidity.toNat),
    ("amountA", Json.ofUInt64 o.amounts.a),
    ("amountB", Json.ofUInt64 o.amounts.b),
    ("balanceA", Json.ofOption Json.ofUInt64 o.balances.a),
    ("balanceB", Json.ofOption Json.ofUInt64 o.balances.b)]

/-- Read a kind. -/
def OperationKind.ofJson? (j : Json) : Option OperationKind := do
  let name ← j.case?
  [swap, increase, decrease, claim].find? (·.name = name)

/-- Read a location. -/
def InstructionLocation.ofJson? (j : Json) : Option InstructionLocation := do
  let [outer, inner] ← j.record? ["outerIndex", "innerIndex"] | none
  return {
    outer := ← Json.orElse (Json.natBelow? UInt64.size) 0 outer
    inner := ← Json.optional (Json.natBelow? UInt64.size) inner }

/-- Read an operation. Only its kind and its pool have to be there. -/
def Operation.ofJson? (j : Json) : Option Operation := do
  let [kind, location, pool, user, position, vaultA, vaultB, userTokenA, userTokenB, rawDirection,
    amountSpecified, liquidity, amountA, amountB, balanceA, balanceB] ←
    j.record? ["kind", "location", "pool", "user", "position", "vaultA", "vaultB", "userTokenA",
      "userTokenB", "rawDirection", "amountSpecified", "liquidity", "amountA", "amountB",
      "balanceA", "balanceB"] | none
  return {
    kind := ← Json.required OperationKind.ofJson? kind
    location := ← Json.orElse InstructionLocation.ofJson? ⟨0, none⟩ location
    pool := ← Json.required Json.string? pool
    user := ← Json.orElse Json.string? "" user
    position := ← Json.optional Json.string? position
    vaults := ⟨← Json.orElse Json.string? "" vaultA, ← Json.orElse Json.string? "" vaultB⟩
    userTokens :=
      ⟨← Json.orElse Json.string? "" userTokenA, ← Json.orElse Json.string? "" userTokenB⟩
    rawDirection := ← Json.orElse Json.uint8? 0 rawDirection
    amountSpecified := ← Json.orElse Json.uint64? 0 amountSpecified
    liquidity := ← Json.orElse Json.uint128? 0 liquidity
    amounts := ⟨← Json.orElse Json.uint64? 0 amountA, ← Json.orElse Json.uint64? 0 amountB⟩
    balances := ⟨← Json.optional Json.uint64? balanceA, ← Json.optional Json.uint64? balanceB⟩ }

end PoolKlines
