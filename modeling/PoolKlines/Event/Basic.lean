import PoolKlines.Event.Registry
import PoolKlines.Sides

/-!
# Pool events

* `SwapEvent`, `LiquidityEvent` and `CollectEvent` are what V2 pools report, `PoolEvent` is one of
  them;
* their layouts: `SwapEvent.layout` and so on read an event, and `SwapEvent.encode?` and so on
  write one, if its keys stand for 32 bytes;
* `PoolEvent.registry` holds the layouts of all events by name.

A layout says nothing about bytes after its last field.
-/

namespace PoolKlines

/-- A swap. The raw direction is zero when token A flows into the pool. -/
structure SwapEvent where
  pool : String
  user : String
  direction : UInt8
  amountIn : UInt64
  amountOut : UInt64
  feeAmount : UInt64
  protocolFee : UInt64
  referralFee : UInt64
  sqrtPrice : BitVec 128
  liquidity : BitVec 128
  vaultBalances : Sides UInt64
  tick : Int32
  deriving DecidableEq

/-- Liquidity added to a position, or taken from it. -/
structure LiquidityEvent where
  pool : String
  owner : String
  position : String
  liquidity : BitVec 128
  amounts : Sides UInt64
  vaultBalances : Sides UInt64
  deriving DecidableEq

/-- Fees collected from a position. -/
structure CollectEvent where
  pool : String
  owner : String
  position : String
  fees : Sides UInt64
  vaultBalances : Sides UInt64
  deriving DecidableEq

/-- An event of a V2 pool. -/
inductive PoolEvent
  | swap (event : SwapEvent)
  | increase (event : LiquidityEvent)
  | decrease (event : LiquidityEvent)
  | collect (event : CollectEvent)
  deriving DecidableEq

/-- The pool an event belongs to. -/
def PoolEvent.pool : PoolEvent → String
  | swap e => e.pool
  | increase e => e.pool
  | decrease e => e.pool
  | collect e => e.pool

/-! ### Layouts -/

/-- Two amounts, that of token A first. -/
def Reader.sides : Read (Sides UInt64) := do return ⟨← uint64, ← uint64⟩

open Reader in
/-- The layout of a swap, 157 bytes long. -/
def SwapEvent.layout : Read SwapEvent := do
  return {
    pool := ← key
    user := ← key
    direction := ← uint8
    amountIn := ← uint64
    amountOut := ← uint64
    feeAmount := ← uint64
    protocolFee := ← uint64
    referralFee := ← uint64
    sqrtPrice := ← uint128
    liquidity := ← uint128
    vaultBalances := ← sides
    tick := ← int32 }

open Reader in
/-- The layout of a change of liquidity, 144 bytes long. -/
def LiquidityEvent.layout : Read LiquidityEvent := do
  return {
    pool := ← key
    owner := ← key
    position := ← key
    liquidity := ← uint128
    amounts := ← sides
    vaultBalances := ← sides }

open Reader in
/-- The layout of a collection of fees, 128 bytes long. -/
def CollectEvent.layout : Read CollectEvent := do
  return {
    pool := ← key
    owner := ← key
    position := ← key
    fees := ← sides
    vaultBalances := ← sides }

namespace PoolEvent

/-- The names of the events. -/
def name : PoolEvent → String
  | swap _ => "SwapEvent"
  | increase _ => "IncreaseLiquidityEvent"
  | decrease _ => "DecreaseLiquidityEvent"
  | collect _ => "CollectFeeEvent"

/-- The name space of event tags. -/
def space : String := "event"

/-- The layouts of all events. -/
def registry : Registry PoolEvent :=
  (Registry.empty space)
    |>.register "SwapEvent" (swap <$> SwapEvent.layout)
    |>.register "IncreaseLiquidityEvent" (increase <$> LiquidityEvent.layout)
    |>.register "DecreaseLiquidityEvent" (decrease <$> LiquidityEvent.layout)
    |>.register "CollectFeeEvent" (collect <$> CollectEvent.layout)

end PoolEvent

/-! ### Writing -/

/-- The 32 bytes of a key. -/
def keyBytes? (key : String) : Option (List UInt8) :=
  (Base58.decode? key).filter (·.length = 32)

/-- Eight bytes of an amount. -/
def amountBytes (n : UInt64) : List UInt8 := toLittleEndian 8 n.toNat

/-- Eight bytes for either side. -/
def sidesBytes (s : Sides UInt64) : List UInt8 := amountBytes s.a ++ amountBytes s.b

/-- Write a swap. -/
def SwapEvent.encode? (e : SwapEvent) : Option (List UInt8) := do
  return (← keyBytes? e.pool) ++ (← keyBytes? e.user) ++ [e.direction] ++
    amountBytes e.amountIn ++ amountBytes e.amountOut ++ amountBytes e.feeAmount ++
    amountBytes e.protocolFee ++ amountBytes e.referralFee ++
    toLittleEndian 16 e.sqrtPrice.toNat ++ toLittleEndian 16 e.liquidity.toNat ++
    sidesBytes e.vaultBalances ++ toLittleEndian 4 e.tick.toUInt32.toNat

/-- Write a change of liquidity. -/
def LiquidityEvent.encode? (e : LiquidityEvent) : Option (List UInt8) := do
  return (← keyBytes? e.pool) ++ (← keyBytes? e.owner) ++ (← keyBytes? e.position) ++
    toLittleEndian 16 e.liquidity.toNat ++ sidesBytes e.amounts ++ sidesBytes e.vaultBalances

/-- Write a collection of fees. -/
def CollectEvent.encode? (e : CollectEvent) : Option (List UInt8) := do
  return (← keyBytes? e.pool) ++ (← keyBytes? e.owner) ++ (← keyBytes? e.position) ++
    sidesBytes e.fees ++ sidesBytes e.vaultBalances

/-- Write an event, without its tag. -/
def PoolEvent.encode? : PoolEvent → Option (List UInt8)
  | swap e => e.encode?
  | increase e => e.encode?
  | decrease e => e.encode?
  | collect e => e.encode?

end PoolKlines
