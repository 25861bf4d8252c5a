import PoolKlines.Proofs.Decimal.Quotient
import PoolKlines.Proofs.Operation.Decode
import PoolKlines.Record.Build

/-!
# Usable prices

The price of a swap is the quotient of its two amounts in the decimals of the pool's tokens.

* `PoolConfig.exactPrice` is this quotient as a rational number;
* `PoolConfig.Usable` says of a price when it is there and when it is positive;
* `price_usable`: it holds of the price of every swap, told by an instruction or by an event. So the
  price can be missing, or zero, even if both sides moved, but only at the limits of decimals
  (`unusable_prices`).
-/

namespace PoolKlines

/-- The quotient of token B by token A, each in the token's decimals, of which at most 28 count. -/
def PoolConfig.exactPrice (pool : PoolConfig) (amounts : Sides UInt64) : ℚ :=
  (amounts.b.toNat / 10 ^ min pool.tokens.b.decimals.toNat 28) /
    (amounts.a.toNat / 10 ^ min pool.tokens.a.decimals.toNat 28)

/-- A price is there just if both sides moved and their quotient is rounded to less than 96 bits. It
is never negative, and it is positive if the quotient is more than half of the smallest decimal. -/
structure PoolConfig.Usable (pool : PoolConfig) (amounts : Sides UInt64) (price : Option Decimal) :
    Prop where
  isSome_iff : price.isSome ↔
    amounts.a ≠ 0 ∧ amounts.b ≠ 0 ∧ pool.exactPrice amounts < 2 ^ 96 - 1 / 2
  nonneg : ∀ p, price = some p → 0 ≤ p.value
  pos : ∀ p, price = some p → 5 / 10 ^ 29 < pool.exactPrice amounts → 0 < p.value

/-- The raw amounts of a swap by side. -/
def SwapEvent.amounts (e : SwapEvent) : Sides UInt64 :=
  match Direction.ofV2 e.direction with
  | .aToB => ⟨e.amountIn, e.amountOut⟩
  | .bToA => ⟨e.amountOut, e.amountIn⟩

/-! ### Raw amounts as decimals -/

theorem Decimal.isZero_ofRaw {raw : UInt64} {decimals : UInt8} :
    (ofRaw raw decimals).IsZero ↔ raw = 0 :=
  ⟨fun h => UInt64.toNat_inj.1 h, fun h => congrArg UInt64.toNat h⟩

theorem Decimal.value_ofRaw (raw : UInt64) (decimals : UInt8) :
    (ofRaw raw decimals).value = raw.toNat / 10 ^ min decimals.toNat 28 := by
  rw [value, coefficient_ofRaw, scale_ofRaw, cast_tenPow, Int.cast_natCast]

theorem Decimal.value_ofRaw_pos {raw : UInt64} (h : raw ≠ 0) (decimals : UInt8) :
    0 < (ofRaw raw decimals).value := by
  have hpos : 0 < raw.toNat := Nat.pos_of_ne_zero fun hz => h (UInt64.toNat_inj.1 hz)
  rw [value_pos_iff, coefficient_ofRaw]
  exact Int.natCast_pos.2 hpos

/-- The price of scaled amounts is usable. -/
theorem PoolConfig.usable_swapPrice (pool : PoolConfig) (amounts : Sides UInt64) :
    pool.Usable amounts (swapPrice (pool.scale amounts)) := by
  by_cases hzero : amounts.a = 0 ∨ amounts.b = 0
  · have hnone : swapPrice (pool.scale amounts) = none :=
      if_pos (hzero.imp Decimal.isZero_ofRaw.2 Decimal.isZero_ofRaw.2)
    rw [hnone]
    exact ⟨iff_of_false (by simp) fun h => hzero.elim h.1 h.2.1, nofun, nofun⟩
  · obtain ⟨ha, hb⟩ := not_or.1 hzero
    have hprice : swapPrice (pool.scale amounts) =
        (pool.scale amounts).b.div? (pool.scale amounts).a :=
      if_neg (not_or.2 ⟨mt Decimal.isZero_ofRaw.1 ha, mt Decimal.isZero_ofRaw.1 hb⟩)
    have hapos : 0 < (pool.scale amounts).a.value := Decimal.value_ofRaw_pos ha _
    have hbpos : 0 < (pool.scale amounts).b.value := Decimal.value_ofRaw_pos hb _
    have hexact : (pool.scale amounts).b.value / (pool.scale amounts).a.value =
        pool.exactPrice amounts :=
      congrArg₂ (· / ·) (Decimal.value_ofRaw _ _) (Decimal.value_ofRaw _ _)
    rw [hprice]
    refine ⟨?_, fun p hp => ?_, fun p hp hlarge => ?_⟩
    · have hzero : ¬ (pool.scale amounts).a.IsZero := mt Decimal.isZero_ofRaw.1 ha
      rw [Decimal.isSome_div?_iff _ hzero, abs_of_pos (div_pos hbpos hapos), hexact,
        Decimal.cast_bound]
      norm_num [ha, hb]
    · exact Decimal.value_nonneg_of_div? hbpos hapos hp
    · rw [Decimal.value_pos_iff_of_div? hbpos hapos hp, hexact]
      linarith

/-! ### The prices of records -/

theorem price_ofOperation? {pools : PoolSnapshot} {o : Operation} {pool : PoolConfig}
    (hkind : o.kind = .swap) (hfind : pools.find? o.pool = some pool) (tx : TransactionMeta) :
    ∃ r, Record.ofOperation? pools o tx = some r ∧
      r.price = swapPrice (pool.scale o.amounts) := by
  rw [Record.ofOperation?, hfind, Option.map_some, hkind]
  exact ⟨_, rfl, rfl⟩

theorem price_ofEvent? {pools : PoolSnapshot} {e : SwapEvent} {pool : PoolConfig}
    (hfind : pools.find? e.pool = some pool) (name : String) (logIndex : Nat)
    (tx : TransactionMeta) :
    ∃ r, Record.ofEvent? pools ⟨name, logIndex, .swap e⟩ tx = some r ∧
      r.price = swapPrice (pool.scale e.amounts) := by
  have hfind : pools.find? (PoolEvent.swap e).pool = some pool := hfind
  rw [Record.ofEvent?, hfind]
  exact ⟨_, rfl, rfl⟩

/-- **Every swap of a known pool has a usable price**, whether an instruction or an event tells of
it: a record is made, and its price is there just if both sides moved and their quotient is in the
range of decimals. A price is never negative, and it is positive unless the quotient is no more than
half of the smallest decimal. -/
theorem price_usable (pools : PoolSnapshot) (tx : TransactionMeta) :
    (∀ (o : Operation) (pool : PoolConfig), o.kind = .swap → pools.find? o.pool = some pool →
      ∃ r, Record.ofOperation? pools o tx = some r ∧ pool.Usable o.amounts r.price) ∧
    ∀ (name : String) (logIndex : Nat) (e : SwapEvent) (pool : PoolConfig),
      pools.find? e.pool = some pool →
        ∃ r, Record.ofEvent? pools ⟨name, logIndex, .swap e⟩ tx = some r ∧
          pool.Usable e.amounts r.price := by
  constructor
  · intro o pool hkind hfind
    obtain ⟨r, hr, hprice⟩ := price_ofOperation? hkind hfind tx
    exact ⟨r, hr, hprice ▸ pool.usable_swapPrice o.amounts⟩
  · intro name logIndex e pool hfind
    obtain ⟨r, hr, hprice⟩ := price_ofEvent? hfind name logIndex tx
    exact ⟨r, hr, hprice ▸ pool.usable_swapPrice e.amounts⟩

/-- A pool of two tokens with the given decimals. -/
def poolOf (decimalsA decimalsB : UInt8) : PoolConfig where
  address := "pool"
  version := .v2
  tokens := ⟨⟨"mint-a", "vault-a", decimalsA⟩, ⟨"mint-b", "vault-b", decimalsB⟩⟩
  feeRate := 0

/-- A swap of token A for token B. -/
def swapOf (amountIn amountOut : UInt64) : SwapEvent where
  pool := "pool"
  user := "user"
  direction := 0
  amountIn
  amountOut
  feeAmount := 0
  protocolFee := 0
  referralFee := 0
  sqrtPrice := 0
  liquidity := 0
  vaultBalances := .both 0
  tick := 0

/-- Prices at the limits of decimals: one of 29 digits, and one that is rounded up to the smallest
decimal. -/
theorem price_usable_at_limits :
    let tx : TransactionMeta := ⟨1, "signature", 1, 0⟩
    let o := { firstSwap "pool" with amounts := ⟨19, 10⟩ }
    ((PoolSnapshot.ofPools [poolOf 28 0]).find? "pool" = some (poolOf 28 0) ∧
      ∃ r p, Record.ofEvent? (.ofPools [poolOf 28 0]) ⟨"SwapEvent", 4, .swap (swapOf 1 7)⟩ tx =
        some r ∧ r.price = some p ∧ 0 < p.value) ∧
    o.kind = .swap ∧ (PoolSnapshot.ofPools [poolOf 0 28]).find? o.pool = some (poolOf 0 28) ∧
      ∃ r p, Record.ofOperation? (.ofPools [poolOf 0 28]) o tx = some r ∧ r.price = some p ∧
        0 < p.value := by
  intro tx o
  have hwide : (PoolSnapshot.ofPools [poolOf 28 0]).find? "pool" = some (poolOf 28 0) := by
    decide +kernel
  have hnarrow : (PoolSnapshot.ofPools [poolOf 0 28]).find? o.pool = some (poolOf 0 28) := by
    decide +kernel
  refine ⟨⟨hwide, ?_⟩, rfl, hnarrow, ?_⟩
  · obtain ⟨r, hr, husable⟩ := (price_usable (.ofPools [poolOf 28 0]) tx).2 "SwapEvent" 4
      (swapOf 1 7) (poolOf 28 0) hwide
    have hexact : (poolOf 28 0).exactPrice (swapOf 1 7).amounts = 7 * 10 ^ 28 := by
      show ((7 : Nat) : ℚ) / 10 ^ 0 / (((1 : Nat) : ℚ) / 10 ^ 28) = _
      norm_num
    obtain ⟨p, hp⟩ := Option.isSome_iff_exists.1
      (husable.isSome_iff.2 ⟨by decide, by decide, by rw [hexact]; norm_num⟩)
    exact ⟨r, p, hr, hp, husable.pos p hp (by rw [hexact]; norm_num)⟩
  · obtain ⟨r, hr, husable⟩ := (price_usable (.ofPools [poolOf 0 28]) tx).1 o (poolOf 0 28) rfl
      hnarrow
    have hexact : (poolOf 0 28).exactPrice o.amounts = 10 / 19 / 10 ^ 28 := by
      show ((10 : Nat) : ℚ) / 10 ^ 28 / (((19 : Nat) : ℚ) / 10 ^ 0) = _
      norm_num
    obtain ⟨p, hp⟩ := Option.isSome_iff_exists.1
      (husable.isSome_iff.2 ⟨by decide, by decide, by rw [hexact]; norm_num⟩)
    exact ⟨r, p, hr, hp, husable.pos p hp (by rw [hexact]; norm_num)⟩

/-- Both sides of a swap moved, and yet it has no price, or one of zero: the quotient is beyond the
largest decimal, or nearer to zero than to the smallest one. -/
theorem unusable_prices :
    let tx : TransactionMeta := ⟨1, "signature", 1, 0⟩
    let large := swapOf 1 18446744073709551615
    let small := swapOf 18446744073709551615 1
    (large.amounts.a ≠ 0 ∧ large.amounts.b ≠ 0 ∧
      (Record.ofEvent? (.ofPools [poolOf 28 0]) ⟨"SwapEvent", 0, .swap large⟩ tx).map Record.price =
        some none) ∧
    small.amounts.a ≠ 0 ∧ small.amounts.b ≠ 0 ∧
      (Record.ofEvent? (.ofPools [poolOf 0 28]) ⟨"SwapEvent", 0, .swap small⟩ tx).map Record.price =
        some (some .zero) := by
  decide +kernel

end PoolKlines
