import PoolKlines.Proofs.Operation.Decode

/-!
# Whose vaults an operation names

An operation names two vaults; its balances are theirs, and so are the changes of balances from
which the amounts of missing transfers are taken.

* `vaults_own_iff_output_own`: they are the vaults of its pool, unless a swap pays out from an
  account that is not the pool's other vault;
* `swap_pays_out_from_foreign_vault` is such a swap.
-/

namespace PoolKlines

/-- The vault of a pool from which a swap in the direction of an operation is to be paid. -/
def PoolConfig.outputVault (pool : PoolConfig) (o : Operation) : String :=
  if o.isAToB then pool.tokens.b.vault else pool.tokens.a.vault

variable {t : Transaction} {pools : PoolSnapshot} {i : Instruction} {l : InstructionLocation}
  {o : Operation} {pool : PoolConfig} {accounts : Sides UInt8}

/-- The vaults are the account keys at their positions in the instruction. -/
theorem Operation.SettledAt.map_accountKey? (h : o.SettledAt t i l accounts) :
    o.vaultPositions.map (i.accountKey? t) = o.vaults.map some := by
  calc
    o.vaultPositions.map (i.accountKey? t) =
        (o.vaultPositions.map (i.accounts[·]?)).map (·.bind t.accountKey?) := rfl
    _ = (accounts.map some).map (·.bind t.accountKey?) := by rw [h.positions]
    _ = accounts.map t.accountKey? := rfl
    _ = o.vaults.map some := h.keys

/-- The vaults of an operation that was read with a pool are those of the pool, except that the
vault from which a swap is paid is whatever account the instruction has in its place. -/
theorem PoolConfig.Fits.vaults_eq_iff (hfits : pool.Fits o) (h : o.SettledAt t i l accounts) :
    o.vaults = pool.tokens.map PoolToken.vault ↔
      (o.kind = .swap → i.accountKey? t 5 = some (pool.outputVault o)) := by
  have hkeys := h.map_accountKey?
  cases hkind : o.kind with
  | swap =>
    simp only [PoolConfig.Fits, hkind] at hfits
    simp only [Operation.vaultPositions, hkind] at hkeys
    by_cases haToB : o.isAToB
    · rw [if_pos haToB] at hfits hkeys
      have hout : i.accountKey? t 5 = some o.vaults.b := congrArg Sides.b hkeys
      rw [hout, PoolConfig.outputVault, if_pos haToB]
      simp [Sides.map, Sides.ext_iff, hfits]
    · rw [if_neg haToB] at hfits hkeys
      have hout : i.accountKey? t 5 = some o.vaults.a := congrArg Sides.a hkeys
      rw [hout, PoolConfig.outputVault, if_neg haToB]
      simp [Sides.map, Sides.ext_iff, hfits]
  | increase | decrease | claim =>
    simp only [PoolConfig.Fits, hkind] at hfits
    refine iff_of_true hfits ?_
    rintro ⟨⟩

/-- **Whose vaults an operation names.** Every decoded operation was read with the pool that its
instruction resolves to, and its balances and amounts are those of the accounts whose keys it names
as vaults. These are the vaults of the pool if the operation is no swap, and for a swap just if it
is paid from the vault of the token that flows out. -/
theorem vaults_own_iff_output_own {programId : String}
    (h : decodeInstruction programId t pools i l = .ok (some o)) :
    ∃ pool accounts, o.ReadWith t pools i pool ∧ o.SettledAt t i l accounts ∧
      (o.vaults = pool.tokens.map PoolToken.vault ↔
        (o.kind = .swap → i.accountKey? t 5 = some (pool.outputVault o))) := by
  obtain ⟨pool, accounts, hread, hsettled⟩ := read_of_decodeInstruction h
  exact ⟨pool, accounts, hread, hsettled, hread.fits.vaults_eq_iff hsettled⟩

/-- The first of two swaps is paid from the other vault of its pool: both vaults are the pool's. -/
theorem vaults_own_first_swap :
    let pool := poolAt "first" "a1" "b1" 6
    decodeInstruction "program" twoSwaps (.ofPools [pool]) (swapIn 4 5 6) ⟨0, none⟩ =
        .ok (some (firstSwap "first")) ∧
      (firstSwap "first").ReadWith twoSwaps (.ofPools [pool]) (swapIn 4 5 6) pool ∧
      (swapIn 4 5 6).accountKey? twoSwaps 5 = some (pool.outputVault (firstSwap "first")) ∧
      (firstSwap "first").vaults = pool.tokens.map PoolToken.vault := by
  intro pool
  have hdecode : decodeInstruction "program" twoSwaps (.ofPools [pool]) (swapIn 4 5 6) ⟨0, none⟩ =
      .ok (some (firstSwap "first")) := toOption_eq_some.1 (by decide +kernel)
  have hout : (swapIn 4 5 6).accountKey? twoSwaps 5 =
      some (pool.outputVault (firstSwap "first")) := by decide +kernel
  have hconfiguration : (swapIn 4 5 6).configuration? twoSwaps (.ofPools [pool]) .swap =
      some pool := by decide +kernel
  obtain ⟨read, accounts, hread, -, hown⟩ := vaults_own_iff_output_own hdecode
  obtain rfl : pool = read := Option.some_inj.1 (hconfiguration.symm.trans hread.configuration)
  exact ⟨hdecode, hread, hout, hown.2 fun _ => hout⟩

/-- A swap into the first pool whose output is the vault of another pool, without transfers: 10 raw
units come into `a1`, and 200 go out of `b2`. -/
def foreignOutput : Transaction :=
  let balance (account : UInt8) (amount : String) : TokenBalance :=
    ⟨account, "mint", none, amount, 6⟩
  { twoSwaps with
    instructions := [swapIn 4 5 9]
    innerGroups := []
    preBalances := [balance 5 "100", balance 9 "900"]
    postBalances := [balance 5 "110", balance 9 "700"] }

/-- A swap is decoded although it is paid from a vault that its pool does not have. The amount and
the balance of token B are those of this vault. -/
theorem swap_pays_out_from_foreign_vault :
    let pool := poolAt "first" "a1" "b1" 6
    let o : Operation := { firstSwap "first" with
      vaults := ⟨"a1", "b2"⟩, amounts := ⟨10, 200⟩, balances := ⟨some 110, some 700⟩ }
    decodeInstruction "program" foreignOutput (.ofPools [pool]) (swapIn 4 5 9) ⟨0, none⟩ =
        .ok (some o) ∧
      (swapIn 4 5 9).configuration? foreignOutput (.ofPools [pool]) .swap = some pool ∧
      o.vaults.b ≠ pool.tokens.b.vault := by
  exact ⟨toOption_eq_some.1 (by decide +kernel), by decide +kernel, by decide⟩

end PoolKlines
