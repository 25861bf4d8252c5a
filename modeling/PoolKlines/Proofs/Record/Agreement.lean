import PoolKlines.Proofs.Operation.Decode
import PoolKlines.Record.Build

/-!
# Either version makes the same record

What a V1 pool tells by an instruction and its transfers, a V2 pool tells by an event.

* `Operation.SameAs` says that an operation and an event tell the same;
* `Record.common` leaves out of a record what depends on the version: the version itself, the place
  in the transaction, the raw direction and the fees of a swap;
* `versions_agree`: what tells the same is dropped or makes records that have all the rest in
  common, and their fees too if the event charges what a V1 pool would.
-/

namespace PoolKlines

/-- An operation on a V1 pool and an event of a V2 pool tell the same of the same pool and user. -/
inductive Operation.SameAs (o : Operation) : PoolEvent → Prop
  | swap {e : SwapEvent} (kind : o.kind = .swap) (pool : o.pool = e.pool) (user : o.user = e.user)
      (direction : Direction.ofV1 o.rawDirection = Direction.ofV2 e.direction)
      (amountIn : e.amountIn = (Direction.ofV2 e.direction).input o.amounts)
      (amountOut : e.amountOut = (Direction.ofV2 e.direction).flipped.input o.amounts)
      (balances : o.balances = e.vaultBalances.map some) : SameAs o (.swap e)
  | increase {e : LiquidityEvent} (kind : o.kind = .increase) (pool : o.pool = e.pool)
      (user : o.user = e.owner) (liquidity : o.liquidity = e.liquidity)
      (amounts : o.amounts = e.amounts) (balances : o.balances = e.vaultBalances.map some) :
      SameAs o (.increase e)
  | decrease {e : LiquidityEvent} (kind : o.kind = .decrease) (pool : o.pool = e.pool)
      (user : o.user = e.owner) (liquidity : o.liquidity = e.liquidity)
      (amounts : o.amounts = e.amounts) (balances : o.balances = e.vaultBalances.map some) :
      SameAs o (.decrease e)
  | collect {e : CollectEvent} (kind : o.kind = .claim) (pool : o.pool = e.pool)
      (user : o.user = e.owner) (amounts : o.amounts = e.fees)
      (balances : o.balances = e.vaultBalances.map some) : SameAs o (.collect e)

/-- A swap charges what it would in a V1 pool; other events charge nothing. -/
def PoolEvent.ChargesAsV1 (e : PoolEvent) (pool : PoolConfig) : Prop :=
  match e with
  | .swap e =>
    e.feeAmount = swapFee e.amountIn pool.feeRate ∧ e.protocolFee = 0 ∧ e.referralFee = 0
  | _ => True

instance (pool : PoolConfig) : (e : PoolEvent) → Decidable (e.ChargesAsV1 pool)
  | .swap _ => inferInstanceAs (Decidable (_ ∧ _ ∧ _))
  | .increase _ | .decrease _ | .collect _ => .isTrue trivial

/-- The header without the version and the place in the transaction. -/
def RecordHeader.common (h : RecordHeader) : RecordHeader := { h with version := .v1, seq := 0 }

namespace Record

/-- The record without what depends on the version. -/
def common : Record → Record
  | swap r =>
    swap {
      r with
      header := r.header.common
      rawDirection := 0
      fee := .zero
      protocolFee := .zero
      referralFee := .zero }
  | liquidity r => liquidity { r with header := r.header.common }
  | collect r => collect { r with header := r.header.common }

/-- Two swaps charge fees of the same values. -/
def SameFees : Record → Record → Prop
  | swap r, swap s =>
    r.fee.Same s.fee ∧ r.protocolFee.Same s.protocolFee ∧ r.referralFee.Same s.referralFee
  | _, _ => True

end Record

/-- Nothing is nothing in the decimals of any token. -/
theorem Decimal.zero_same_ofRaw (decimals : UInt8) : zero.Same (ofRaw 0 decimals) := by
  simp [Same]

/-- What tells the same tells it of the same pool. -/
theorem Operation.SameAs.pool_eq {o : Operation} {e : PoolEvent} (h : o.SameAs e) :
    o.pool = e.pool := by
  cases h <;> assumption

/-- What tells the same of a known pool makes records that have everything in common that does not
depend on the version. -/
theorem Operation.SameAs.exists_records {pools : PoolSnapshot} {o : Operation}
    {decoded : DecodedEvent} {pool : PoolConfig} (h : o.SameAs decoded.event)
    (hfind : pools.find? o.pool = some pool) (tx : TransactionMeta) :
    ∃ r s, Record.ofOperation? pools o tx = some r ∧ Record.ofEvent? pools decoded tx = some s ∧
      r.common = s.common ∧ (decoded.event.ChargesAsV1 pool → r.SameFees s) := by
  have hevent : pools.find? decoded.event.pool = some pool := h.pool_eq ▸ hfind
  obtain ⟨name, logIndex, e⟩ := decoded
  refine ⟨_, _, by rw [Record.ofOperation?, hfind]; rfl, by rw [Record.ofEvent?, hevent]; rfl, ?_⟩
  cases h with
  | @swap e kind _ user direction amountIn amountOut balances =>
    simp only [kind, user, direction, amountIn, amountOut, balances]
    constructor
    · generalize Direction.ofV2 e.direction = direction
      cases direction with
      | aToB => rfl
      | bToA => rfl
    · rintro ⟨hfee, hprotocol, hreferral⟩
      simp only [Record.SameFees, hfee, hprotocol, hreferral, amountIn]
      exact ⟨rfl, Decimal.zero_same_ofRaw _, Decimal.zero_same_ofRaw _⟩
  | increase kind _ user liquidity amounts balances
  | decrease kind _ user liquidity amounts balances =>
    simp only [kind, user, liquidity, amounts, balances]
    exact ⟨rfl, fun _ => trivial⟩
  | collect kind _ user amounts balances =>
    simp only [kind, user, amounts, balances]
    exact ⟨rfl, fun _ => trivial⟩

/-- **Either version makes the same record.** An operation on a V1 pool and an event of a V2 pool
that tell the same are both dropped, since no pool is known, or make records that have everything in
common that does not depend on the version. If the event charges what a V1 pool would, the fees have
the same values too. -/
theorem versions_agree (pools : PoolSnapshot) (tx : TransactionMeta) {o : Operation}
    (decoded : DecodedEvent) (h : o.SameAs decoded.event) :
    (Record.ofOperation? pools o tx = none ∧ Record.ofEvent? pools decoded tx = none) ∨
    ∃ pool r s, pools.find? o.pool = some pool ∧
      Record.ofOperation? pools o tx = some r ∧ Record.ofEvent? pools decoded tx = some s ∧
      r.common = s.common ∧ (decoded.event.ChargesAsV1 pool → r.SameFees s) := by
  cases hfind : pools.find? o.pool with
  | none =>
    have hevent : pools.find? decoded.event.pool = none := h.pool_eq ▸ hfind
    exact .inl ⟨by rw [Record.ofOperation?, hfind]; rfl, by rw [Record.ofEvent?, hevent]; rfl⟩
  | some pool =>
    obtain ⟨r, s, hr, hs, hcommon, hfees⟩ := h.exists_records hfind tx
    exact .inr ⟨pool, r, s, rfl, hr, hs, hcommon, hfees⟩

/-- A swap of token B for token A, told by an instruction and by an event. -/
theorem versions_agree_b_to_a :
    let pools := PoolSnapshot.ofPools [poolAt "first" "a1" "b1" 6]
    let o : Operation := {
      firstSwap "first" with
      rawDirection := 0
      amounts := ⟨20, 1000000⟩
      balances := ⟨some 5, some 7⟩ }
    let e : SwapEvent := {
      pool := "first", user := "user", direction := 1, amountIn := 1000000, amountOut := 20,
      feeAmount := 3000, protocolFee := 0, referralFee := 0, sqrtPrice := 0, liquidity := 0,
      vaultBalances := ⟨5, 7⟩, tick := 0 }
    let tx : TransactionMeta := ⟨1, "signature", 1, 0⟩
    o.SameAs (.swap e) ∧
      ∃ r s, Record.ofOperation? pools o tx = some r ∧
        Record.ofEvent? pools ⟨"SwapEvent", 4, .swap e⟩ tx = some s ∧
        r.common = s.common ∧ r.SameFees s := by
  intro pools o e tx
  have hsame : o.SameAs (.swap e) := .swap rfl rfl rfl rfl rfl rfl rfl
  have hfind : pools.find? o.pool = some (poolAt "first" "a1" "b1" 6) := by decide +kernel
  refine ⟨hsame, ?_⟩
  obtain ⟨hdropped, -⟩ | ⟨pool, r, s, hpool, hr, hs, hcommon, hfees⟩ :=
    versions_agree pools tx ⟨"SwapEvent", 4, .swap e⟩ hsame
  · rw [Record.ofOperation?, hfind] at hdropped
    cases hdropped
  · obtain rfl := Option.some_inj.1 (hfind.symm.trans hpool)
    exact ⟨r, s, hr, hs, hcommon, hfees (by decide)⟩

end PoolKlines
