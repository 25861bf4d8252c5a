import PoolKlines.Decimal.Basic
import PoolKlines.Pool.Config
import PoolKlines.Transaction.Json

/-!
# Records

A record is what either kind of pool did, in one form: amounts are decimals, and a swap's direction
is normalised.

* `Direction` of a swap, and how it is read from the raw direction of either version;
* `SwapRecord`, `LiquidityRecord` and `CollectRecord` share a `RecordHeader`; `Record` is one of
  them;
* views common to all records: `Record.price`, `Record.volumes`, `Record.fees`, `Record.balances`;
* `Record.toJson` and `Record.ofJson?`.
-/

namespace PoolKlines

/-- The direction of a swap: which token flows into the pool. -/
inductive Direction
  | aToB
  | bToA
  deriving DecidableEq

namespace Direction

/-- The direction when nothing is said: token A flows in. -/
instance : Inhabited Direction := ⟨aToB⟩

/-- Zero stands for token A flowing in. -/
def code : Direction → UInt8
  | aToB => 0
  | bToA => 1

/-- Read the raw direction of a V1 swap, which is one when token A flows in. -/
def ofV1 (raw : UInt8) : Direction := if raw = 1 then aToB else bToA

/-- Read the raw direction of a V2 swap, which is zero when token A flows in. -/
def ofV2 (raw : UInt8) : Direction := if raw = 0 then aToB else bToA

/-- The other direction. -/
def flipped : Direction → Direction
  | aToB => bToA
  | bToA => aToB

@[simp] theorem flipped_flipped (d : Direction) : d.flipped.flipped = d := by
  cases d <;> rfl

@[simp] theorem ofV2_code (d : Direction) : ofV2 d.code = d := by
  cases d <;> rfl

/-- The name of a direction. -/
def name : Direction → String
  | aToB => "A_TO_B"
  | bToA => "B_TO_A"

end Direction

/-- Whether liquidity is added or taken. -/
inductive LiquidityKind
  | increase
  | decrease
  deriving DecidableEq

/-- The name of a kind of change. -/
def LiquidityKind.name : LiquidityKind → String
  | increase => "INCREASE"
  | decrease => "DECREASE"

/-- What all records say: version, pool, user, transaction, and the place within it. -/
structure RecordHeader where
  version : ProtocolVersion
  pool : String
  user : String
  tx : TransactionMeta
  seq : UInt32
  deriving DecidableEq

/-- A swap. The price is in token B per token A. -/
structure SwapRecord where
  header : RecordHeader
  direction : Direction
  rawDirection : UInt8
  volumes : Sides Decimal
  balances : Sides (Option Decimal)
  fee : Decimal
  protocolFee : Decimal
  referralFee : Decimal
  price : Option Decimal
  deriving DecidableEq

/-- A change of liquidity, negative for a decrease. -/
structure LiquidityRecord where
  header : RecordHeader
  kind : LiquidityKind
  delta : Int
  amounts : Sides Decimal
  balances : Sides (Option Decimal)
  deriving DecidableEq

/-- Fees collected by the owner of a position. -/
structure CollectRecord where
  header : RecordHeader
  fees : Sides Decimal
  balances : Sides (Option Decimal)
  deriving DecidableEq

/-- What happened in a pool. -/
inductive Record
  | swap (record : SwapRecord)
  | liquidity (record : LiquidityRecord)
  | collect (record : CollectRecord)
  deriving DecidableEq

namespace Record

/-- The header. -/
def header : Record → RecordHeader
  | swap r => r.header
  | liquidity r => r.header
  | collect r => r.header

/-- The pool. -/
def pool (r : Record) : String := r.header.pool

/-- The price of a swap. -/
def price : Record → Option Decimal
  | swap r => r.price
  | _ => none

/-- The traded volume, which only swaps have. -/
def volumes : Record → Sides Decimal
  | swap r => r.volumes
  | _ => .both .zero

/-- The fee of a swap, on the side of its input. -/
def fees : Record → Sides Decimal
  | swap r =>
    match r.direction with
    | .aToB => ⟨r.fee, .zero⟩
    | .bToA => ⟨.zero, r.fee⟩
  | _ => .both .zero

/-- The balances of the vaults after the record. -/
def balances : Record → Sides (Option Decimal)
  | swap r => r.balances
  | liquidity r => r.balances
  | collect r => r.balances

/-- The record is a swap. -/
def isSwap : Record → Bool
  | swap _ => true
  | _ => false

/-- The name of the kind of record. -/
def kindName : Record → String
  | swap _ => "swap"
  | liquidity _ => "liquidity"
  | collect _ => "collect"

end Record

end PoolKlines
