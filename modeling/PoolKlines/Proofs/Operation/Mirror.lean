import PoolKlines.Proofs.Operation.Decode

/-!
# Swaps in mirrored pools

A pool is mirrored by exchanging its vaults. A swap that flows from token A to token B of a pool
flows from token B to token A of the mirrored one.

* `PoolSnapshot.resolve?_mirrored`: an instruction resolves to the mirrored pool;
* `Settlement.correspond_reconcile_swap`: with the sides exchanged, a settlement is exchanged;
* `mirrored_pools_mirror_swaps`: a swap is decoded with mirrored pools just if it is with the pools,
  and the operation is mirrored.
-/

namespace PoolKlines

open PoolSnapshot

/-- The pool with its vaults exchanged. -/
def PoolConfig.mirrored (pool : PoolConfig) : PoolConfig :=
  { pool with
    tokens := {
      a := { pool.tokens.a with vault := pool.tokens.b.vault }
      b := { pool.tokens.b with vault := pool.tokens.a.vault } } }

/-- The operation with all that belongs to the sides exchanged, in the other direction. -/
def Operation.mirrored (o : Operation) : Operation :=
  { o with
    vaults := o.vaults.swap
    userTokens := o.userTokens.swap
    rawDirection := 1 - o.rawDirection
    amounts := o.amounts.swap
    balances := o.balances.swap }

@[simp] theorem Operation.mirrored_mirrored (o : Operation) : o.mirrored.mirrored = o := by
  have hdirection : 1 - (1 - o.rawDirection) = o.rawDirection := by grind
  simp only [Operation.mirrored, Sides.swap_swap, hdirection]

theorem Operation.mirrored_inj {o o' : Operation} : o.mirrored = o'.mirrored ↔ o = o' :=
  ⟨fun h => by rw [← o.mirrored_mirrored, h, o'.mirrored_mirrored], congrArg _⟩

/-- Errors are the same, up to the side on which a transfer is missing. -/
def DecodeError.SameUpToSide (e e' : DecodeError) : Prop :=
  e = e' ∨ ∃ side side', e = .missingTransfer side ∧ e' = .missingTransfer side'

theorem DecodeError.SameUpToSide.refl (e : DecodeError) : e.SameUpToSide e := .inl rfl

/-- The operation that the opcode of an instruction asks for. -/
def Instruction.kind? (i : Instruction) : Option OperationKind :=
  match i.bytes with
  | .ok (opcode :: _) => OperationKind.ofOpcode? opcode
  | _ => none

/-! ### Settlements -/

namespace Settlement

/-- A side is settled alike whatever its name is, unless nothing is known of it. -/
theorem settle_cases (transfer : Option UInt64) (vault : VaultBalance) :
    (∃ amount, ∀ side, settle transfer vault side = .ok amount) ∨
      ∀ side, settle transfer vault side = .error (.missingTransfer side) := by
  cases transfer with
  | some amount => exact .inl ⟨amount, settle_some amount vault⟩
  | none =>
    cases h : vault.change? with
    | none => exact .inr fun side => by simp only [settle, h]
    | some change =>
      exact .inl ⟨UInt64.ofNat change.natAbs, fun side => by simp only [settle, h]⟩

/-- With the sides exchanged, amounts and balances are exchanged. -/
theorem correspond_reconcile_swap (transfers : Sides (Option UInt64))
    (vaults : Sides VaultBalance) :
    Correspond DecodeError.SameUpToSide
      (fun s s' => s'.amounts = s.amounts.swap ∧ s'.balances = s.balances.swap)
      (reconcile transfers vaults) (reconcile transfers.swap vaults.swap) := by
  unfold reconcile
  obtain ⟨a, ha⟩ | ha := settle_cases transfers.a vaults.a <;>
    obtain ⟨b, hb⟩ | hb := settle_cases transfers.b vaults.b <;>
    simp only [Sides.swap_a, Sides.swap_b, ha, hb]
  · exact .ok ⟨rfl, rfl⟩
  · exact .error (.inr ⟨_, _, rfl, rfl⟩)
  · exact .error (.inr ⟨_, _, rfl, rfl⟩)
  · -- both are missing, and token A is named in either case
    exact .error (.inl rfl)

end Settlement

/-! ### One instruction -/

/-- Mirrored pools are found where the pools are, since either vault stands for its pool. -/
theorem PoolSnapshot.resolve?_mirrored (pools : List PoolConfig) (address vault : String) :
    (ofPools (pools.map PoolConfig.mirrored)).resolve? address vault =
      ((ofPools pools).resolve? address vault).map PoolConfig.mirrored := by
  have hfind := find?_ofPools_map (f := PoolConfig.mirrored) pools (fun _ => rfl)
    fun _ _ => or_comm
  rw [resolve?, resolve?, hfind, hfind, Option.map_or]

variable {pools : List PoolConfig} {i : Instruction}

/-- A swap is read from mirrored pools as from the pools, but mirrored. -/
theorem correspond_decodeSwap_mirrored
    (hdistinct : ∀ pool ∈ pools, pool.tokens.a.vault ≠ pool.tokens.b.vault) (t : Transaction)
    (i : Instruction) (bytes : List UInt8) (l : InstructionLocation) :
    Correspond DecodeError.SameUpToSide (fun o o' => o.map Operation.mirrored = o')
      (decodeSwap t (.ofPools pools) i bytes l)
      (decodeSwap t (.ofPools (pools.map PoolConfig.mirrored)) i bytes l) := by
  have hrefl := DecodeError.SameUpToSide.refl
  unfold decodeSwap
  refine .check hrefl fun _ => .check hrefl fun _ => ?_
  refine .bind_same hrefl fun amountSpecified => ?_
  refine .bind_same hrefl fun poolAccount => .bind_same hrefl fun user => ?_
  refine .bind_same hrefl fun userIn => .bind_same hrefl fun userOut => ?_
  refine .bind_same hrefl fun vaultIn => .bind_same hrefl fun vaultOut => ?_
  rw [resolve?_mirrored]
  cases hpool : (ofPools pools).resolve? poolAccount.key vaultIn.key with
  | none => exact .ok rfl
  | some pool =>
    have hvaults := hdistinct pool (mem_of_resolve? hpool)
    simp only [Option.map_some, PoolConfig.mirrored]
    by_cases ha : vaultIn.key = pool.tokens.a.vault
    · simp only [ha, hvaults, ne_eq, not_true_eq_false, false_and, and_false, if_true, if_false]
      refine (Settlement.correspond_reconcile_swap _ _).bind fun s s' ⟨hamounts, hbalances⟩ => ?_
      rw [hamounts, hbalances]
      exact .ok (by simp only [Option.map_some, Operation.mirrored, UInt8.sub_self]; rfl)
    · by_cases hb : vaultIn.key = pool.tokens.b.vault
      · simp only [hb, hvaults.symm, ne_eq, not_true_eq_false, not_false_eq_true, and_false,
          false_and, if_true, if_false]
        refine (Settlement.correspond_reconcile_swap _ _).bind fun s s' ⟨hamounts, hbalances⟩ => ?_
        rw [hamounts, hbalances]
        exact .ok (by simp only [Option.map_some, Operation.mirrored, UInt8.sub_zero]; rfl)
      · simp only [ha, hb, ne_eq, not_false_eq_true, and_self, if_true]
        exact .error (hrefl _)

/-- An instruction that asks for a swap is decoded from mirrored pools as from the pools, but
mirrored. -/
theorem correspond_decodeInstruction_mirrored (hswap : i.kind? = some .swap)
    (hdistinct : ∀ pool ∈ pools, pool.tokens.a.vault ≠ pool.tokens.b.vault) (programId : String)
    (t : Transaction) (l : InstructionLocation) :
    Correspond DecodeError.SameUpToSide (fun o o' => o.map Operation.mirrored = o')
      (decodeInstruction programId t (.ofPools pools) i l)
      (decodeInstruction programId t (.ofPools (pools.map PoolConfig.mirrored)) i l) := by
  unfold Instruction.kind? at hswap
  unfold decodeInstruction
  split
  · exact .ok rfl
  · split
    next hbytes => exact absurd hswap (by simp [hbytes])
    next hbytes => exact absurd hswap (by simp [hbytes])
    next opcode arguments hbytes =>
      simp only [hbytes] at hswap
      simp only [hswap]
      exact correspond_decodeSwap_mirrored hdistinct t i _ l

/-- **Swaps are symmetric in the two tokens.** If no pool has the same vault twice, an instruction
that asks for a swap is decoded with mirrored pools to the mirrored operation, to none or to an
error just if it is decoded with the pools to the operation, to none or to an error. The errors
differ at most in the side on which a transfer is missing, and the raw direction is flipped between
zero and one. -/
theorem mirrored_pools_mirror_swaps (hswap : i.kind? = some .swap)
    (hdistinct : ∀ pool ∈ pools, pool.tokens.a.vault ≠ pool.tokens.b.vault) (programId : String)
    (t : Transaction) (l : InstructionLocation) :
    let decoded := decodeInstruction programId t (.ofPools pools) i l
    let mirrored := decodeInstruction programId t (.ofPools (pools.map PoolConfig.mirrored)) i l
    (∀ o, decoded = .ok (some o) ↔ mirrored = .ok (some o.mirrored)) ∧
      (decoded = .ok none ↔ mirrored = .ok none) ∧
      ((∃ e, decoded = .error e) ↔ ∃ e, mirrored = .error e) ∧
      (∀ e e', decoded = .error e → mirrored = .error e' → e.SameUpToSide e') ∧
      ∀ o, decoded = .ok (some o) → o.rawDirection = 0 ∨ o.rawDirection = 1 := by
  intro decoded mirrored
  have hdirection : ∀ o, decoded = .ok (some o) → o.rawDirection = 0 ∨ o.rawDirection = 1 := by
    intro o ho
    obtain ⟨_, _, _, hsettled⟩ := read_of_decodeInstruction ho
    exact hsettled.direction
  have hcorrespond : Correspond _ _ decoded mirrored :=
    correspond_decodeInstruction_mirrored hswap hdistinct programId t l
  clear_value decoded mirrored
  cases hcorrespond with
  | @ok found found' h =>
    subst h
    refine ⟨fun o => ?_, ?_, ?_, nofun, hdirection⟩
    · cases found with
      | none => simp
      | some o' => simp [Operation.mirrored_inj]
    · cases found <;> simp
    · exact iff_of_false nofun nofun
  | @error e e' h =>
    refine ⟨fun o => iff_of_false nofun nofun, iff_of_false nofun nofun,
      iff_of_true ⟨e, rfl⟩ ⟨e', rfl⟩, ?_, hdirection⟩
    rintro _ _ ⟨⟩ ⟨⟩
    exact h

/-- The first of two swaps flows from token B to token A of the mirrored pool. -/
theorem mirrored_pools_mirror_first_swap :
    let pools := [poolAt "first" "a1" "b1" 6, poolAt "second" "a2" "b2" 9]
    (swapIn 4 5 6).kind? = some .swap ∧
      (∀ pool ∈ pools, pool.tokens.a.vault ≠ pool.tokens.b.vault) ∧
      decodeInstruction "program" twoSwaps (.ofPools pools) (swapIn 4 5 6) ⟨0, none⟩ =
        .ok (some (firstSwap "first")) ∧
      decodeInstruction "program" twoSwaps (.ofPools (pools.map PoolConfig.mirrored))
          (swapIn 4 5 6) ⟨0, none⟩ =
        .ok (some { firstSwap "first" with
          vaults := ⟨"b1", "a1"⟩, userTokens := ⟨"user-b", "user-a"⟩, rawDirection := 0,
          amounts := ⟨20, 10⟩ }) := by
  intro pools
  have hswap : (swapIn 4 5 6).kind? = some .swap := by decide +kernel
  have hdistinct : ∀ pool ∈ pools, pool.tokens.a.vault ≠ pool.tokens.b.vault := by decide
  have hdecode : decodeInstruction "program" twoSwaps (.ofPools pools) (swapIn 4 5 6) ⟨0, none⟩ =
      .ok (some (firstSwap "first")) := toOption_eq_some.1 (by decide +kernel)
  have hmirrored := mirrored_pools_mirror_swaps hswap hdistinct "program" twoSwaps ⟨0, none⟩
  exact ⟨hswap, hdistinct, hdecode, (hmirrored.1 _).1 hdecode⟩

end PoolKlines
