import PoolKlines.Bytes.Reader
import PoolKlines.Operation.Basic
import PoolKlines.Operation.Settlement
import PoolKlines.Pool.Snapshot

/-!
# Operations in a transaction

* `decodeInstruction` reads one instruction of the pool program: the opcode, its arguments, its
  accounts by position, and the token transfers among the inner instructions after it;
* `Transaction.located` lists all instructions in the order of execution;
* `scanTransaction` decodes all of them and keeps the errors apart.

An instruction of another program, with an unknown opcode or of an unknown pool is no operation.
-/

namespace PoolKlines

/-- An account of an instruction: its position among the account keys, and the key. -/
structure Account where
  index : UInt8
  key : String
  deriving DecidableEq

/-- The account at a position of an instruction. -/
def Instruction.account (i : Instruction) (t : Transaction) (position : Nat) (name : String) :
    Except DecodeError Account :=
  match i.accounts[position]? with
  | none => .error (.missingAccount name position)
  | some index =>
    match t.accountKey? index with
    | none => .error (.accountIndex index)
    | some key => .ok ⟨index, key⟩

/-- The pool that a key stands for, or else the one that a vault stands for. -/
def PoolSnapshot.resolve? (pools : PoolSnapshot) (pool vault : String) : Option PoolConfig :=
  (pools.find? pool).or (pools.find? vault)

/-! ### Transfers after an instruction -/

/-- The inner instructions after the one at a location, within its group. -/
def Transaction.following (t : Transaction) (l : InstructionLocation) : List Instruction :=
  match t.innerGroup? l.outer with
  | none => []
  | some group => group.instructions.drop l.nextInner

/-- The opcode of a token transfer. -/
def transferOpcode : UInt8 := 3

/-- Where the amount of a transfer stands in its data. -/
def transferAmountOffset : Nat := 1

/-- The amount that the instruction at a position carries where a transfer has its amount. -/
def transferAmount? (following : List Instruction) (position : Nat) : Option UInt64 := do
  let instruction ← following[position]?
  match instruction.bytes with
  | .ok bytes => uint64At? bytes transferAmountOffset
  | .error _ => none

/-- The position of the transfer of token A after a change of liquidity: the first, or the second
if the first is no transfer. -/
def liquidityTransferStart (following : List Instruction) : Nat :=
  let opcode := match following.head?.map Instruction.bytes with
    | some (.ok bytes) => bytes.head?
    | _ => none
  if opcode = some transferOpcode then 0 else 1

/-! ### One instruction -/

/-- Run a read on the arguments after the opcode. -/
def readArguments {α : Type} (read : Read α) (bytes : List UInt8) : Except DecodeError α :=
  (read.run? bytes.tail).mapError .read

/-- Decode a swap. -/
def decodeSwap (t : Transaction) (pools : PoolSnapshot) (i : Instruction) (bytes : List UInt8)
    (l : InstructionLocation) : Except DecodeError (Option Operation) := do
  if bytes.length < 17 then throw (.shortData 17 bytes.length)
  if i.accounts.length < 6 then throw (.missingAccount "swap accounts" i.accounts.length)
  let amountSpecified ← readArguments Reader.uint64 bytes
  let poolAccount ← i.account t 0 "pool"
  let user ← i.account t 1 "user"
  let userIn ← i.account t 2 "user token in"
  let userOut ← i.account t 3 "user token out"
  let vaultIn ← i.account t 4 "vault in"
  let vaultOut ← i.account t 5 "vault out"
  match pools.resolve? poolAccount.key vaultIn.key with
  | none => return none
  | some pool =>
    let aToB := vaultIn.key = pool.tokens.a.vault
    if ¬aToB ∧ vaultIn.key ≠ pool.tokens.b.vault then
      throw (.vaultMismatch pool.address vaultIn.key)
    let orient {α : Type} (s : Sides α) : Sides α := if aToB then s else s.swap
    let vaults := orient ⟨vaultIn, vaultOut⟩
    let users := orient ⟨userIn, userOut⟩
    let following := t.following l
    let transfers := orient ⟨transferAmount? following 0, transferAmount? following 1⟩
    let settled ← Settlement.reconcile transfers
      (vaults.map fun vault => VaultBalance.ofTransaction t vault.index)
    return some {
      kind := .swap
      location := l
      pool := pool.address
      user := user.key
      position := none
      vaults := vaults.map Account.key
      userTokens := users.map Account.key
      rawDirection := if aToB then 1 else 0
      amountSpecified
      liquidity := 0
      amounts := settled.amounts
      balances := settled.balances }

/-- Where the accounts of an operation on a position stand. -/
structure PositionLayout where
  vaults : Sides Nat
  userTokens : Sides Nat
  deriving DecidableEq

/-- An increase names the user's accounts first, the other operations the vaults. -/
def PositionLayout.ofKind : OperationKind → PositionLayout
  | .increase => ⟨⟨5, 6⟩, ⟨3, 4⟩⟩
  | _ => ⟨⟨3, 4⟩, ⟨5, 6⟩⟩

/-- The liquidity argument; a claim has none. -/
def positionLiquidity (kind : OperationKind) (bytes : List UInt8) :
    Except DecodeError (BitVec 128) := do
  if kind = .increase ∨ kind = .decrease then
    if bytes.length < 17 then throw (.shortData 17 bytes.length)
    readArguments Reader.uint128 bytes
  else return 0

/-- Decode an increase, a decrease or a claim. -/
def decodePositionOperation (t : Transaction) (pools : PoolSnapshot) (i : Instruction)
    (kind : OperationKind) (bytes : List UInt8) (l : InstructionLocation) :
    Except DecodeError (Option Operation) := do
  let liquidity ← positionLiquidity kind bytes
  let layout := PositionLayout.ofKind kind
  let poolAccount ← i.account t 0 "pool"
  let owner ← i.account t 1 "owner"
  let position ← i.account t 2 "position"
  let vaultA ← i.account t layout.vaults.a "vault a"
  let vaultB ← i.account t layout.vaults.b "vault b"
  let userA ← i.account t layout.userTokens.a "user token a"
  let userB ← i.account t layout.userTokens.b "user token b"
  match pools.resolve? poolAccount.key vaultA.key with
  | none => return none
  | some pool =>
    if vaultA.key ≠ pool.tokens.a.vault ∨ vaultB.key ≠ pool.tokens.b.vault then
      throw (.vaultMismatch pool.address vaultA.key)
    let following := t.following l
    let first := liquidityTransferStart following
    let settled ← Settlement.reconcile
      ⟨transferAmount? following first, transferAmount? following (first + 1)⟩
      ⟨VaultBalance.ofTransaction t vaultA.index, VaultBalance.ofTransaction t vaultB.index⟩
    return some {
      kind
      location := l
      pool := pool.address
      user := owner.key
      position := some position.key
      vaults := ⟨vaultA.key, vaultB.key⟩
      userTokens := ⟨userA.key, userB.key⟩
      rawDirection := 1
      amountSpecified := 0
      liquidity
      amounts := settled.amounts
      balances := settled.balances }

/-- Decode an instruction of the program `programId`. -/
def decodeInstruction (programId : String) (t : Transaction) (pools : PoolSnapshot)
    (i : Instruction) (l : InstructionLocation) : Except DecodeError (Option Operation) :=
  if t.accountKey? i.programIndex ≠ some programId then .ok none
  else
    match i.bytes with
    | .error e => .error (.base64 e)
    | .ok [] => .error (.shortData 1 0)
    | .ok (opcode :: arguments) =>
      match OperationKind.ofOpcode? opcode with
      | none => .ok none
      | some .swap => decodeSwap t pools i (opcode :: arguments) l
      | some kind => decodePositionOperation t pools i kind (opcode :: arguments) l

/-! ### Whole transactions -/

/-- All instructions in the order of execution: each top-level one, then the inner ones of its
group. -/
def Transaction.located (t : Transaction) : List (InstructionLocation × Instruction) :=
  t.instructions.zipIdx.flatMap fun (instruction, outer) =>
    (⟨outer, none⟩, instruction) ::
      match t.innerGroup? outer with
      | none => []
      | some group =>
        group.instructions.zipIdx.map fun (inner, position) => (⟨outer, some position⟩, inner)

/-- The operations of a transaction in the order of execution, and the errors of its malformed
instructions. -/
def scanTransaction (programId : String) (t : Transaction) (pools : PoolSnapshot) :
    List Operation × List DecodeError :=
  let decoded := t.located.map fun (l, i) => decodeInstruction programId t pools i l
  (decoded.filterMap fun
      | .ok operation => operation
      | .error _ => none,
    decoded.filterMap fun
      | .ok _ => none
      | .error e => some e)

/-- The operations of a transaction, passing over its malformed instructions. -/
def decodeTransaction (programId : String) (t : Transaction) (pools : PoolSnapshot) :
    List Operation :=
  t.located.filterMap fun (l, i) =>
    match decodeInstruction programId t pools i l with
    | .ok operation => operation
    | .error _ => none

end PoolKlines
