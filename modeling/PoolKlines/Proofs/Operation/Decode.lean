import PoolKlines.Operation.Decode
import PoolKlines.Proofs.Computation
import PoolKlines.Proofs.Pool.Snapshot

/-!
# What a decoded instruction says of its pool

* `Instruction.configuration?` is the pool that an instruction resolves to;
* `PoolConfig.Fits`: the vaults of an operation are those of a pool, as far as they are compared;
* `Operation.ReadWith` puts both together;
* `Operation.SettledAt` says where the vaults, the amounts and the balances of an operation come
  from;
* `read_of_decodeInstruction`: every decoded operation was read with some pool and settled at some
  accounts;
* `twoSwaps` is a transaction with swaps in two pools.
-/

namespace PoolKlines

/-- The position of the vault that stands for the pool if the pool's own account does not. -/
def OperationKind.vaultPosition : OperationKind → Nat
  | .swap => 4
  | kind => (PositionLayout.ofKind kind).vaults.a

/-- The key of the account at a position of an instruction. -/
def Instruction.accountKey? (i : Instruction) (t : Transaction) (position : Nat) : Option String :=
  i.accounts[position]?.bind t.accountKey?

/-- The pool that an instruction resolves to. -/
def Instruction.configuration? (i : Instruction) (t : Transaction) (pools : PoolSnapshot)
    (kind : OperationKind) : Option PoolConfig := do
  pools.resolve? (← i.accountKey? t 0) (← i.accountKey? t kind.vaultPosition)

/-- The vaults of an operation are those of a pool. Of a swap only the vault of the input is
compared. -/
def PoolConfig.Fits (pool : PoolConfig) (o : Operation) : Prop :=
  match o.kind with
  | .swap =>
    if o.isAToB then o.vaults.a = pool.tokens.a.vault else o.vaults.b = pool.tokens.b.vault
  | _ => o.vaults = pool.tokens.map PoolToken.vault

/-- An operation is what some instruction, which resolves to a pool, says of this pool. -/
structure Operation.ReadWith (o : Operation) (t : Transaction) (pools : PoolSnapshot)
    (i : Instruction) (pool : PoolConfig) : Prop where
  configuration : i.configuration? t pools o.kind = some pool
  address : o.pool = pool.address
  fits : pool.Fits o

/-- Where the vaults of an operation stand among the accounts of its instruction. -/
def Operation.vaultPositions (o : Operation) : Sides Nat :=
  match o.kind with
  | .swap => if o.isAToB then ⟨4, 5⟩ else ⟨5, 4⟩
  | kind => (PositionLayout.ofKind kind).vaults

/-- Where the transfers of an operation stand among the instructions that follow it. -/
def Operation.transferPositions (o : Operation) (following : List Instruction) : Sides Nat :=
  match o.kind with
  | .swap => if o.isAToB then ⟨0, 1⟩ else ⟨1, 0⟩
  | _ => ⟨liquidityTransferStart following, liquidityTransferStart following + 1⟩

/-- An amount is that of a transfer, or without a transfer the change of a vault's balance. -/
def VaultBalance.Moved (vault : VaultBalance) (transfer : Option UInt64) (amount : UInt64) : Prop :=
  transfer = some amount ∨
    transfer = none ∧ ∃ change, vault.change? = some change ∧ amount.toNat = change.natAbs

/-- An operation was settled at two accounts, one per token: they stand in the instruction where the
vaults do, the vaults are their keys, and the operation has their balances and what was moved from
or to them. -/
structure Operation.SettledAt (o : Operation) (t : Transaction) (i : Instruction)
    (l : InstructionLocation) (accounts : Sides UInt8) : Prop where
  location : o.location = l
  direction : o.rawDirection = 0 ∨ o.rawDirection = 1
  positions : o.vaultPositions.map (i.accounts[·]?) = accounts.map some
  keys : accounts.map t.accountKey? = o.vaults.map some
  balances : o.balances = accounts.map fun account => (VaultBalance.ofTransaction t account).post
  movedA : (VaultBalance.ofTransaction t accounts.a).Moved
    (transferAmount? (t.following l) (o.transferPositions (t.following l)).a) o.amounts.a
  movedB : (VaultBalance.ofTransaction t accounts.b).Moved
    (transferAmount? (t.following l) (o.transferPositions (t.following l)).b) o.amounts.b

variable {t : Transaction} {pools : PoolSnapshot} {i : Instruction} {bytes : List UInt8}
  {l : InstructionLocation} {o : Operation}

/-- What an instruction resolves to is one of the pools. -/
theorem PoolSnapshot.mem_of_resolve? {pools : List PoolConfig} {address vault : String}
    {pool : PoolConfig} (h : (ofPools pools).resolve? address vault = some pool) :
    pool ∈ pools := by
  obtain hpool | ⟨-, hvault⟩ := Option.or_eq_some_iff.1 h
  · exact mem_of_find?_ofPools hpool
  · exact mem_of_find?_ofPools hvault

/-- A balance changes by less than 2^64. -/
theorem VaultBalance.natAbs_change?_lt {vault : VaultBalance} {change : Int}
    (h : vault.change? = some change) : change.natAbs < UInt64.size := by
  obtain ⟨pre, post⟩ := vault
  cases pre with
  | none => cases h
  | some pre =>
    cases post with
    | none => cases h
    | some post =>
      cases h
      have hpre := pre.toNat_lt_size
      have hpost := post.toNat_lt_size
      omega

/-- What a settled side moved. -/
theorem VaultBalance.moved_of_settle {vault : VaultBalance} {transfer : Option UInt64}
    {side : String} {amount : UInt64} (h : Settlement.settle transfer vault side = .ok amount) :
    vault.Moved transfer amount := by
  cases transfer with
  | some moved =>
    rw [Settlement.settle_some] at h
    cases h
    exact .inl rfl
  | none =>
    cases hchange : vault.change? with
    | none =>
      simp only [Settlement.settle, hchange] at h
      cases h
    | some change =>
      simp only [Settlement.settle, hchange] at h
      cases h
      exact .inr ⟨rfl, change, hchange, UInt64.toNat_ofNat_of_lt' (natAbs_change?_lt hchange)⟩

/-- Both sides of a settlement have the balances of the vaults and what was moved. -/
theorem Settlement.of_reconcile {transfers : Sides (Option UInt64)} {vaults : Sides VaultBalance}
    {s : Settlement} (h : reconcile transfers vaults = .ok s) :
    s.balances = vaults.map VaultBalance.post ∧
      vaults.a.Moved transfers.a s.amounts.a ∧ vaults.b.Moved transfers.b s.amounts.b := by
  unfold reconcile at h
  obtain ⟨a, ha, h⟩ := bind_eq_ok.1 h
  obtain ⟨b, hb, h⟩ := bind_eq_ok.1 h
  cases h
  exact ⟨rfl, VaultBalance.moved_of_settle ha, VaultBalance.moved_of_settle hb⟩

/-- An account is found if the instruction has one at the position and the transaction its key. -/
theorem Instruction.account_eq_ok {position : Nat} {name : String} {a : Account} :
    i.account t position name = .ok a ↔
      i.accounts[position]? = some a.index ∧ t.accountKey? a.index = some a.key := by
  unfold Instruction.account
  cases hindex : i.accounts[position]? with
  | none => exact iff_of_false nofun fun h => nomatch h.1
  | some index =>
    rw [Option.some_inj]
    constructor
    · intro h
      dsimp only at h
      cases hkey : t.accountKey? index with
      | none =>
        rw [hkey] at h
        cases h
      | some key =>
        rw [hkey] at h
        cases h
        exact ⟨rfl, hkey⟩
    · rintro ⟨rfl, hkey⟩
      dsimp only
      rw [hkey]

/-- An account that was found has the key at its position. -/
theorem Instruction.accountKey?_of_account {position : Nat} {name : String} {a : Account}
    (h : i.account t position name = .ok a) : i.accountKey? t position = some a.key := by
  obtain ⟨hindex, hkey⟩ := Instruction.account_eq_ok.1 h
  rw [Instruction.accountKey?, hindex, Option.bind_some, hkey]

/-- A decoded swap was read with the pool it resolves to. -/
theorem read_of_decodeSwap (h : decodeSwap t pools i bytes l = .ok (some o)) :
    ∃ pool accounts, o.ReadWith t pools i pool ∧ o.SettledAt t i l accounts := by
  unfold decodeSwap at h
  obtain ⟨-, h⟩ := check_eq_ok.1 h
  obtain ⟨-, h⟩ := check_eq_ok.1 h
  obtain ⟨amountSpecified, -, h⟩ := bind_eq_ok.1 h
  obtain ⟨poolAccount, hpool, h⟩ := bind_eq_ok.1 h
  obtain ⟨user, -, h⟩ := bind_eq_ok.1 h
  obtain ⟨userIn, -, h⟩ := bind_eq_ok.1 h
  obtain ⟨userOut, -, h⟩ := bind_eq_ok.1 h
  obtain ⟨vaultIn, hin, h⟩ := bind_eq_ok.1 h
  obtain ⟨vaultOut, hout, h⟩ := bind_eq_ok.1 h
  cases hresolve : pools.resolve? poolAccount.key vaultIn.key with
  | none =>
    rw [hresolve] at h
    cases h
  | some pool =>
    rw [hresolve] at h
    obtain ⟨hvault, h⟩ := check_eq_ok.1 h
    obtain ⟨settled, hsettled, h⟩ := bind_eq_ok.1 h
    cases h
    obtain ⟨hbalances, hmoved⟩ := Settlement.of_reconcile hsettled
    obtain ⟨hinIndex, hinKey⟩ := Instruction.account_eq_ok.1 hin
    obtain ⟨houtIndex, houtKey⟩ := Instruction.account_eq_ok.1 hout
    have hconfiguration : i.configuration? t pools .swap = some pool := by
      simp only [Instruction.configuration?, OperationKind.vaultPosition,
        Instruction.accountKey?_of_account hpool, Instruction.accountKey?_of_account hin,
        Option.bind_eq_bind, Option.bind_some, hresolve]
    by_cases haToB : vaultIn.key = pool.tokens.a.vault
    · simp only [haToB, if_true] at hbalances hmoved ⊢
      refine ⟨pool, ⟨vaultIn.index, vaultOut.index⟩, ⟨hconfiguration, rfl, haToB⟩,
        rfl, .inr rfl, ?_, ?_, hbalances, hmoved.1, hmoved.2⟩
      · simp only [Operation.vaultPositions, Operation.isAToB, Sides.map, hinIndex, houtIndex,
          beq_self_eq_true, if_true]
      · simp only [Sides.map, hinKey, houtKey]
    · have hb : vaultIn.key = pool.tokens.b.vault :=
        Classical.not_not.1 fun hb => hvault ⟨haToB, hb⟩
      simp only [haToB, if_false] at hbalances hmoved ⊢
      refine ⟨pool, ⟨vaultOut.index, vaultIn.index⟩, ⟨hconfiguration, rfl, hb⟩,
        rfl, .inl rfl, ?_, ?_, hbalances, hmoved.1, hmoved.2⟩
      · simp only [Operation.vaultPositions, Operation.isAToB, Sides.map, hinIndex, houtIndex,
          beq_iff_eq, UInt8.zero_ne_one, if_false]
      · simp only [Sides.map, Sides.swap, hinKey, houtKey]

/-- A decoded operation on a position was read with the pool it resolves to. -/
theorem read_of_decodePositionOperation {kind : OperationKind} (hkind : kind ≠ .swap)
    (h : decodePositionOperation t pools i kind bytes l = .ok (some o)) :
    ∃ pool accounts, o.ReadWith t pools i pool ∧ o.SettledAt t i l accounts := by
  unfold decodePositionOperation at h
  obtain ⟨liquidity, -, h⟩ := bind_eq_ok.1 h
  obtain ⟨poolAccount, hpool, h⟩ := bind_eq_ok.1 h
  obtain ⟨owner, -, h⟩ := bind_eq_ok.1 h
  obtain ⟨position, -, h⟩ := bind_eq_ok.1 h
  obtain ⟨vaultA, ha, h⟩ := bind_eq_ok.1 h
  obtain ⟨vaultB, hb, h⟩ := bind_eq_ok.1 h
  obtain ⟨userA, -, h⟩ := bind_eq_ok.1 h
  obtain ⟨userB, -, h⟩ := bind_eq_ok.1 h
  cases hresolve : pools.resolve? poolAccount.key vaultA.key with
  | none =>
    rw [hresolve] at h
    cases h
  | some pool =>
    rw [hresolve] at h
    obtain ⟨hvaults, h⟩ := check_eq_ok.1 h
    obtain ⟨settled, hsettled, h⟩ := bind_eq_ok.1 h
    cases h
    obtain ⟨hbalances, hmovedA, hmovedB⟩ := Settlement.of_reconcile hsettled
    obtain ⟨haIndex, haKey⟩ := Instruction.account_eq_ok.1 ha
    obtain ⟨hbIndex, hbKey⟩ := Instruction.account_eq_ok.1 hb
    have hkeys : (Sides.mk vaultA.index vaultB.index).map t.accountKey? =
        (Sides.mk vaultA.key vaultB.key).map some := by
      simp only [Sides.map, haKey, hbKey]
    have hpositions : (PositionLayout.ofKind kind).vaults.map (i.accounts[·]?) =
        (Sides.mk vaultA.index vaultB.index).map some := by
      simp only [Sides.map, haIndex, hbIndex]
    have hfits : Sides.mk vaultA.key vaultB.key = pool.tokens.map PoolToken.vault := by
      obtain ⟨hvaultA, hvaultB⟩ := not_or.1 hvaults
      rw [Classical.not_not.1 hvaultA, Classical.not_not.1 hvaultB]
      rfl
    have hvault : kind.vaultPosition = (PositionLayout.ofKind kind).vaults.a := by
      cases kind with
      | swap => exact absurd rfl hkind
      | increase | decrease | claim => rfl
    have hconfiguration : i.configuration? t pools kind = some pool := by
      simp only [Instruction.configuration?, hvault, Instruction.accountKey?_of_account hpool,
        Instruction.accountKey?_of_account ha, Option.bind_eq_bind, Option.bind_some, hresolve]
    cases kind with
    | swap => exact absurd rfl hkind
    | increase | decrease | claim =>
      exact ⟨pool, ⟨vaultA.index, vaultB.index⟩, ⟨hconfiguration, rfl, hfits⟩,
        rfl, .inr rfl, hpositions, hkeys, hbalances, hmovedA, hmovedB⟩

/-- Every decoded operation was read with the pool its instruction resolves to, and settled at the
accounts that stand where the vaults do. -/
theorem read_of_decodeInstruction {programId : String}
    (h : decodeInstruction programId t pools i l = .ok (some o)) :
    ∃ pool accounts, o.ReadWith t pools i pool ∧ o.SettledAt t i l accounts := by
  unfold decodeInstruction at h
  split at h
  · cases h
  · split at h
    · cases h
    · cases h
    next opcode arguments _ =>
      split at h
      · cases h
      · exact read_of_decodeSwap h
      next kind hkind _ => exact read_of_decodePositionOperation hkind h

/-- Every decoded operation was read with the pool its instruction resolves to. -/
theorem exists_of_decodeInstruction {programId : String}
    (h : decodeInstruction programId t pools i l = .ok (some o)) :
    ∃ pool, o.ReadWith t pools i pool :=
  let ⟨pool, _, hread, _⟩ := read_of_decodeInstruction h
  ⟨pool, hread⟩

/-! ### Two swaps in one transaction -/

/-- A V1 pool of two tokens with the same decimals. -/
def poolAt (address vaultA vaultB : String) (decimals : UInt8) : PoolConfig where
  address
  version := .v1
  tokens := ⟨⟨"mint-a", vaultA, decimals⟩, ⟨"mint-b", vaultB, decimals⟩⟩
  feeRate := 3000

/-- A transfer of a few raw units. -/
def transferOf (amount : UInt8) : Instruction :=
  ⟨10, [], Base64.encode [3, amount, 0, 0, 0, 0, 0, 0, 0]⟩

/-- A swap by the user at position 1, with the accounts of the pool at the given positions. -/
def swapIn (pool vaultIn vaultOut : UInt8) : Instruction :=
  ⟨0, [pool, 1, 2, 3, vaultIn, vaultOut], Base64.encode (1 :: List.replicate 16 0)⟩

/-- A swap of 10 raw units for 20 at the accounts `first`, `a1` and `b1`, and one of 30 for 90 at
`second`, `a2` and `b2`. -/
def twoSwaps : Transaction where
  signature := "signature"
  slot := 1
  blockTime := 0
  accountKeys :=
    ["program", "user", "user-a", "user-b", "first", "a1", "b1", "second", "a2", "b2", "token"]
  instructions := [swapIn 4 5 6, swapIn 7 8 9]
  innerGroups := [⟨0, [transferOf 10, transferOf 20]⟩, ⟨1, [transferOf 30, transferOf 90]⟩]
  preBalances := []
  postBalances := []
  logMessages := []
  failed := false

/-- The first of them, in a pool with some address. -/
def firstSwap (pool : String) : Operation where
  kind := .swap
  location := ⟨0, none⟩
  pool
  user := "user"
  position := none
  vaults := ⟨"a1", "b1"⟩
  userTokens := ⟨"user-a", "user-b"⟩
  rawDirection := 1
  amountSpecified := 0
  liquidity := 0
  amounts := ⟨10, 20⟩
  balances := .both none

end PoolKlines
