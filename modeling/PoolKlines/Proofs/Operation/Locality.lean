import PoolKlines.Proofs.Operation.Decode
import PoolKlines.Proofs.Operation.Order

/-!
# What decoding looks at

An instruction is decoded from its surroundings: the account keys, the token balances of the
accounts, and the three inner instructions that follow it.

* `Transaction.following_topLevel`, `Transaction.following_inner`: which instructions follow;
* `Transaction.SameSurroundings` relates two places in two transactions with the same surroundings;
* the parts of the decoder that look at a transaction agree on them (`transferAmount?_congr`,
  `liquidityTransferStart_congr`, `SameSurroundings.vaultBalance`, `SameSurroundings.account`);
* `decoding_reads_surroundings_only` puts them together.
-/

namespace PoolKlines

/-- Two places, each in a transaction of its own, have the same surroundings. -/
structure Transaction.SameSurroundings (t t' : Transaction) (l l' : InstructionLocation) :
    Prop where
  keys : t.accountKeys = t'.accountKeys
  before : ∀ account, t.preBalance? account = t'.preBalance? account
  after : ∀ account, t.postBalance? account = t'.postBalance? account
  following : (t.following l).take 3 = (t'.following l').take 3

/-- The same operation at another location. -/
def Operation.movedTo (o : Operation) (l : InstructionLocation) : Operation :=
  { o with location := l }

/-! ### The instructions that follow -/

/-- All of its group follows a top-level instruction. -/
theorem Transaction.following_topLevel (t : Transaction) (outer : Nat) :
    t.following ⟨outer, none⟩ = t.innerInstructions outer := by
  unfold Transaction.following Transaction.innerInstructions
  cases t.innerGroup? outer <;> rfl

/-- The rest of its group follows an inner instruction. -/
theorem Transaction.following_inner (t : Transaction) (outer position : Nat) :
    t.following ⟨outer, some position⟩ = (t.innerInstructions outer).drop (position + 1) := by
  unfold Transaction.following Transaction.innerInstructions
  cases t.innerGroup? outer with
  | none => exact List.drop_nil.symm
  | some group => rfl

section Following

variable {following following' : List Instruction} {window position : Nat}

/-- A transfer is found within a window that reaches behind it. -/
theorem transferAmount?_congr (h : following.take window = following'.take window)
    (hposition : position < window) :
    transferAmount? following position = transferAmount? following' position := by
  have hinstruction : following[position]? = following'[position]? := by
    rw [← List.getElem?_take_of_lt hposition, h, List.getElem?_take_of_lt hposition]
  rw [transferAmount?, transferAmount?, hinstruction]

/-- Whether a position is skipped is seen in the first of the instructions. -/
theorem liquidityTransferStart_congr (h : following.take window = following'.take window)
    (hwindow : 0 < window) :
    liquidityTransferStart following = liquidityTransferStart following' := by
  have hhead : following.head? = following'.head? := by
    rw [List.head?_eq_getElem?, List.head?_eq_getElem?, ← List.getElem?_take_of_lt hwindow, h,
      List.getElem?_take_of_lt hwindow]
  rw [liquidityTransferStart, liquidityTransferStart, hhead]

/-- At most one position is skipped. -/
theorem liquidityTransferStart_le_one (following : List Instruction) :
    liquidityTransferStart following ≤ 1 :=
  iteInduction (motive := (· ≤ 1)) (fun _ => Nat.zero_le 1) fun _ => Nat.le_refl 1

end Following

/-! ### One instruction -/

section Surroundings

variable {t t' : Transaction} {l l' : InstructionLocation}

namespace Transaction.SameSurroundings

/-- An account is the same in the same surroundings. -/
theorem account (h : t.SameSurroundings t' l l') (i : Instruction) (position : Nat)
    (name : String) : i.account t position name = i.account t' position name := by
  unfold Instruction.account Transaction.accountKey?
  rw [h.keys]

/-- The balances of an account are the same in the same surroundings. -/
theorem vaultBalance (h : t.SameSurroundings t' l l') (account : UInt8) :
    VaultBalance.ofTransaction t account = VaultBalance.ofTransaction t' account := by
  rw [VaultBalance.ofTransaction, VaultBalance.ofTransaction, h.before, h.after]

/-- A transfer near enough is the same in the same surroundings. -/
theorem transferAmount? (h : t.SameSurroundings t' l l') {position : Nat}
    (hposition : position < 3) :
    transferAmount? (t.following l) position = transferAmount? (t'.following l') position :=
  transferAmount?_congr h.following hposition

end Transaction.SameSurroundings

variable (pools : PoolSnapshot) (i : Instruction) (bytes : List UInt8)

/-- A swap is read alike in the same surroundings. -/
theorem correspond_decodeSwap (h : t.SameSurroundings t' l l') :
    Correspond (· = ·) (fun o o' => o.map (·.movedTo l') = o')
      (decodeSwap t pools i bytes l) (decodeSwap t' pools i bytes l') := by
  unfold decodeSwap
  simp only [h.account, h.vaultBalance, h.transferAmount? (Nat.zero_lt_succ 2),
    h.transferAmount? (Nat.one_lt_succ_succ 1)]
  refine .check Eq.refl fun _ => .check Eq.refl fun _ => ?_
  refine .bind_same Eq.refl fun amountSpecified => ?_
  refine .bind_same Eq.refl fun poolAccount => .bind_same Eq.refl fun user => ?_
  refine .bind_same Eq.refl fun userIn => .bind_same Eq.refl fun userOut => ?_
  refine .bind_same Eq.refl fun vaultIn => .bind_same Eq.refl fun vaultOut => ?_
  cases pools.resolve? poolAccount.key vaultIn.key with
  | none => exact .ok rfl
  | some pool =>
    exact .check Eq.refl fun _ => .bind_same Eq.refl fun settled => .ok rfl

/-- An operation on a position is read alike in the same surroundings. -/
theorem correspond_decodePositionOperation (h : t.SameSurroundings t' l l')
    (kind : OperationKind) :
    Correspond (· = ·) (fun o o' => o.map (·.movedTo l') = o')
      (decodePositionOperation t pools i kind bytes l)
      (decodePositionOperation t' pools i kind bytes l') := by
  have hstart := liquidityTransferStart_congr h.following (Nat.zero_lt_succ 2)
  have hle := liquidityTransferStart_le_one (t'.following l')
  have hfirst := h.transferAmount? (show liquidityTransferStart (t'.following l') < 3 by omega)
  have hsecond := h.transferAmount? (show liquidityTransferStart (t'.following l') + 1 < 3 by omega)
  unfold decodePositionOperation
  simp only [h.account, h.vaultBalance, hstart, hfirst, hsecond]
  refine .bind_same Eq.refl fun liquidity => ?_
  refine .bind_same Eq.refl fun poolAccount => .bind_same Eq.refl fun owner => ?_
  refine .bind_same Eq.refl fun position => ?_
  refine .bind_same Eq.refl fun vaultA => .bind_same Eq.refl fun vaultB => ?_
  refine .bind_same Eq.refl fun userA => .bind_same Eq.refl fun userB => ?_
  cases pools.resolve? poolAccount.key vaultA.key with
  | none => exact .ok rfl
  | some pool =>
    exact .check Eq.refl fun _ => .bind_same Eq.refl fun settled => .ok rfl

end Surroundings

/-- **Decoding reads the surroundings of an instruction only.** In the same surroundings an
instruction is decoded with the same result, an operation, none or an error, up to the location of
the operation. -/
theorem decoding_reads_surroundings_only (programId : String) (pools : PoolSnapshot)
    (i : Instruction) {t t' : Transaction} {l l' : InstructionLocation}
    (h : t.SameSurroundings t' l l') :
    (decodeInstruction programId t pools i l).map (Option.map (·.movedTo l')) =
      decodeInstruction programId t' pools i l' := by
  unfold decodeInstruction Transaction.accountKey?
  rw [h.keys]
  split
  · rfl
  · split
    · rfl
    · rfl
    next opcode arguments _ =>
      split
      · rfl
      · exact (correspond_decodeSwap pools i _ h).eq_map
      next kind _ _ => exact (correspond_decodePositionOperation pools i _ h kind).eq_map

/-- The first of two swaps at the top level, with more inner instructions than its transfers. -/
def topLevelSwap : Transaction :=
  { twoSwaps with
    innerGroups := [⟨0, [transferOf 10, transferOf 20, transferOf 1, transferOf 2]⟩]
    postBalances := [⟨5, "mint-a", none, "110", 6⟩] }

/-- The same swap inside another instruction, behind a transfer and in front of other ones, with a
second balance of its account and a log. -/
def nestedSwap : Transaction :=
  { twoSwaps with
    instructions := [transferOf 5, ⟨9, [7], ""⟩]
    innerGroups := [⟨0, [transferOf 6]⟩,
      ⟨1, [transferOf 99, swapIn 4 5 6, transferOf 10, transferOf 20, transferOf 1, transferOf 7]⟩]
    postBalances := [⟨5, "mint-a", none, "110", 6⟩, ⟨5, "mint-a", none, "300", 6⟩]
    logMessages := ["Program log"] }

/-- What is decoded of the swap at the top level is decoded of the nested one. -/
theorem decoding_of_nested_swap :
    let pools := PoolSnapshot.ofPools [poolAt "first" "a1" "b1" 6]
    let o : Operation := { firstSwap "first" with balances := ⟨some 110, none⟩ }
    topLevelSwap.SameSurroundings nestedSwap ⟨0, none⟩ ⟨1, some 1⟩ ∧
      decodeInstruction "program" topLevelSwap pools (swapIn 4 5 6) ⟨0, none⟩ = .ok (some o) ∧
      decodeInstruction "program" nestedSwap pools (swapIn 4 5 6) ⟨1, some 1⟩ =
        .ok (some (o.movedTo ⟨1, some 1⟩)) := by
  intro pools o
  have hsame : topLevelSwap.SameSurroundings nestedSwap ⟨0, none⟩ ⟨1, some 1⟩ := {
    keys := rfl
    before := fun _ => rfl
    after := fun account => by
      by_cases h : 5 = account <;> simp [Transaction.postBalance?, topLevelSwap, nestedSwap, h]
    following := by
      rw [Transaction.following_topLevel, Transaction.following_inner]
      simp [Transaction.innerInstructions, Transaction.innerGroup?, topLevelSwap, nestedSwap] }
  have hdecode : decodeInstruction "program" topLevelSwap pools (swapIn 4 5 6) ⟨0, none⟩ =
      .ok (some o) := toOption_eq_some.1 (by decide +kernel)
  refine ⟨hsame, hdecode, ?_⟩
  rw [← decoding_reads_surroundings_only "program" pools _ hsame, hdecode]
  rfl

end PoolKlines
