import PoolKlines.Proofs.Bytes.Base64
import PoolKlines.Proofs.Computation
import PoolKlines.Rpc.Convert

/-!
# What a converted transaction keeps of its report

* `Invocation` is what an instruction asks for, whatever form it is written in;
  `exists_invocation_of_toInstruction?`: converting an instruction does not change it;
* `RpcMessage.listed` are the instructions as the node lists them, `RpcMessage.kept` counts those in
  front of a position that are converted;
* `conversion_keeps_inner_instructions`: every instruction of the transaction asks for what some
  listed instruction asked for, and has the inner instructions of that one unless an instruction in
  front of it was left out;
* `inner_instructions_lost_behind_interpreted` is such a case.
-/

namespace PoolKlines

/-! ### What an instruction asks for -/

/-- A program, its accounts and its data. -/
structure Invocation where
  program : Option String
  accounts : List (Option String)
  data : List UInt8
  deriving DecidableEq

/-- What an instruction asks for among the account keys of a transaction. -/
def Instruction.invocation? (keys : List String) (i : Instruction) : Option Invocation :=
  i.bytes.toOption.map fun data =>
    ⟨keys[i.programIndex.toNat]?, i.accounts.map (keys[·.toNat]?), data⟩

/-- What an instruction of a report asks for. Of an interpreted one the data are lost. -/
def RpcInstruction.invocation? (keys : List String) : RpcInstruction → Option Invocation
  | indexed i => (Base58.decode? i.data).map fun data =>
      ⟨keys[i.programIndex.toNat]?, i.accounts.map (keys[·.toNat]?), data⟩
  | keyed i => (Base58.decode? i.data).map fun data => ⟨some i.program, i.accounts.map some, data⟩
  | interpreted => none

variable {keys : List String}

/-- The position of a key leads back to the key. -/
theorem getElem?_of_keyIndex? {key : String} {index : UInt8}
    (h : keyIndex? keys key = some index) : keys[index.toNat]? = some key := by
  obtain ⟨position, hposition, h⟩ := Option.bind_eq_some_iff.1 h
  split at h
  next hlt =>
    cases h
    obtain ⟨hlength, hkey, -⟩ := List.idxOf?_eq_some_iff.1 hposition
    rw [UInt8.toNat_ofNat', Nat.mod_eq_of_lt hlt, List.getElem?_eq_getElem hlength, hkey]
  next => cases h

theorem map_getElem?_of_mapM_keyIndex? {accounts : List String} {indices : List UInt8}
    (h : accounts.mapM (keyIndex? keys) = some indices) :
    indices.map (keys[·.toNat]?) = accounts.map some := by
  induction accounts generalizing indices with
  | nil =>
    cases h
    rfl
  | cons account accounts ih =>
    rw [List.mapM_cons] at h
    obtain ⟨index, hindex, h⟩ := Option.bind_eq_some_iff.1 h
    obtain ⟨rest, hrest, h⟩ := Option.bind_eq_some_iff.1 h
    cases h
    rw [List.map_cons, List.map_cons, getElem?_of_keyIndex? hindex, ih hrest]

/-- Text that is converted stands for the same bytes. -/
theorem base58ToBase64_eq_ok {text converted : String} :
    base58ToBase64 text = .ok converted ↔
      ∃ bytes, Base58.decode? text = some bytes ∧ Base64.decode converted = .ok bytes := by
  simp only [base58ToBase64, Base64.decode_eq_ok_iff]
  cases Base58.decode? text with
  | none => simp
  | some bytes => simp [eq_comm]

/-- Converting an instruction does not change what it asks for. -/
theorem exists_invocation_of_toInstruction? {r : RpcInstruction} {x : Instruction}
    (h : r.toInstruction? keys = some x) :
    ∃ asked, r.invocation? keys = some asked ∧ x.invocation? keys = some asked := by
  cases r with
  | indexed i =>
    obtain ⟨data, hdata, h⟩ := bind_eq_ok.1 (toOption_eq_some.1 h)
    cases h
    obtain ⟨bytes, hbase58, hbase64⟩ := base58ToBase64_eq_ok.1 hdata
    refine ⟨_, by rw [RpcInstruction.invocation?, hbase58]; rfl, ?_⟩
    rw [Instruction.invocation?, Instruction.bytes, hbase64]
    rfl
  | keyed i =>
    obtain ⟨programIndex, hprogram, h⟩ := Option.bind_eq_some_iff.1 h
    obtain ⟨accounts, haccounts, h⟩ := Option.bind_eq_some_iff.1 h
    obtain ⟨data, hdata, h⟩ := Option.bind_eq_some_iff.1 h
    cases h
    obtain ⟨bytes, hbase58, hbase64⟩ := base58ToBase64_eq_ok.1 (toOption_eq_some.1 hdata)
    refine ⟨_, by rw [RpcInstruction.invocation?, hbase58]; rfl, ?_⟩
    rw [Instruction.invocation?, Instruction.bytes, hbase64, getElem?_of_keyIndex? hprogram,
      map_getElem?_of_mapM_keyIndex? haccounts]
    rfl
  | interpreted => cases h

/-! ### Where an instruction comes from -/

/-- Every element that is kept comes from some position, in front of which are those that it stands
behind. -/
theorem exists_of_getElem?_filterMap {α β : Type} {f : α → Option β} {as : List α} {i : Nat} {b : β}
    (h : (as.filterMap f)[i]? = some b) :
    ∃ k a, as[k]? = some a ∧ f a = some b ∧ ((as.take k).filterMap f).length = i := by
  induction as generalizing i with
  | nil => simp at h
  | cons a as ih =>
    cases hfa : f a with
    | none =>
      rw [List.filterMap_cons_none hfa] at h
      obtain ⟨k, c, hc, hfc, hcount⟩ := ih h
      exact ⟨k + 1, c, hc, hfc, by rw [List.take_succ_cons, List.filterMap_cons_none hfa, hcount]⟩
    | some d =>
      rw [List.filterMap_cons_some hfa] at h
      cases i with
      | zero => exact ⟨0, a, rfl, hfa.trans h, rfl⟩
      | succ i =>
        obtain ⟨k, c, hc, hfc, hcount⟩ := ih h
        refine ⟨k + 1, c, hc, hfc, ?_⟩
        rw [List.take_succ_cons, List.filterMap_cons_some hfa, List.length_cons, hcount]

namespace RpcMessage

/-- The instructions as the node lists them. -/
def listed : RpcMessage → List RpcInstruction
  | raw _ instructions => instructions.map .indexed
  | parsed _ instructions => instructions

/-- How many of the instructions in front of a position are converted. -/
def kept (message : RpcMessage) (keys : List String) (position : Nat) : Nat :=
  ((message.listed.take position).filterMap (·.toInstruction? keys)).length

/-- None of the instructions in front of a position was left out. -/
def KeepsBefore (message : RpcMessage) (keys : List String) (position : Nat) : Prop :=
  ∀ r ∈ message.listed.take position, (r.toInstruction? keys).isSome

/-- The instruction at position `i` of a transaction was made of that at position `k` of the
message. -/
structure MadeOf (message : RpcMessage) (keys : List String) (i : Nat) (x : Instruction) (k : Nat)
    (r : RpcInstruction) : Prop where
  listed : message.listed[k]? = some r
  converted : r.toInstruction? keys = some x
  kept : message.kept keys k = i

variable {message : RpcMessage} {instructions : List Instruction}

/-- The instructions of a transaction are those listed that are converted. -/
theorem eq_filterMap_listed (h : message.instructions keys = .ok instructions) :
    instructions = message.listed.filterMap (·.toInstruction? keys) := by
  cases message with
  | raw own indexed =>
    rw [listed, List.filterMap_map]
    exact (filterMap_toOption_of_mapM h).symm
  | parsed own instructions =>
    cases h
    rfl

/-- Of a raw message nothing is left out. -/
theorem keepsBefore_raw {own : List String} {indexed : List IndexedInstruction}
    (h : (raw own indexed).instructions keys = .ok instructions) (position : Nat) :
    (raw own indexed).KeepsBefore keys position := by
  intro r hr
  obtain ⟨i, hi, rfl⟩ := List.mem_map.1 (List.mem_of_mem_take hr)
  have hall : indexed.map (·.toInstruction) = instructions.map .ok := mapM_eq_ok.1 h
  have hmem : i.toInstruction ∈ instructions.map Except.ok := hall ▸ List.mem_map_of_mem hi
  obtain ⟨x, -, hx⟩ := List.mem_map.1 hmem
  rw [RpcInstruction.toInstruction?, ← hx]
  rfl

theorem MadeOf.keepsBefore_iff {i k : Nat} {x : Instruction} {r : RpcInstruction}
    (h : message.MadeOf keys i x k r) : message.KeepsBefore keys k ↔ i = k := by
  have hlength : (message.listed.take k).length = k := by
    have := (List.getElem?_eq_some_iff.1 h.listed).1
    rw [List.length_take]
    omega
  rw [KeepsBefore, ← List.filterMap_length_eq_length, hlength, ← h.kept, RpcMessage.kept]

end RpcMessage

/-! ### Inner instructions -/

/-- The inner instructions that a node reports for a position. -/
def RpcMeta.group? (m : RpcMeta) (position : Nat) : Option RpcInnerGroup :=
  m.innerGroups.find? (·.index.toNat = position)

theorem RpcMeta.index_of_group? {m : RpcMeta} {position : Nat} {g : RpcInnerGroup}
    (h : m.group? position = some g) : g.index.toNat = position := by
  simpa using List.find?_some h

/-- The converted inner instructions of two positions are the same only if the positions are, or if
nothing is reported for either. -/
theorem RpcMeta.map_group?_eq_iff {m : RpcMeta} {i k : Nat} :
    (m.group? i).map (·.toInnerGroup keys) = (m.group? k).map (·.toInnerGroup keys) ↔
      i = k ∨ (m.group? i = none ∧ m.group? k = none) := by
  constructor
  · intro h
    cases hi : m.group? i with
    | none =>
      rw [hi] at h
      exact .inr ⟨rfl, Option.map_eq_none_iff.1 h.symm⟩
    | some g =>
      rw [hi] at h
      obtain ⟨g', hk, hgroups⟩ := Option.map_eq_some_iff.1 h.symm
      have hindex : g'.index = g.index := congrArg InnerGroup.index hgroups
      exact .inl (by rw [← index_of_group? hi, ← index_of_group? hk, hindex])
  · rintro (rfl | ⟨hi, hk⟩)
    · rfl
    · rw [hi, hk]

/-- What an accepted report says. -/
theorem RpcTransaction.exists_of_toTransaction {t : RpcTransaction} {tx : Transaction}
    (h : t.toTransaction = .ok tx) :
    ∃ outcome signatures message, t.outcome = some outcome ∧
      t.content = .full signatures message ∧
      tx.accountKeys = message.accountKeys ++ outcome.loadedKeys ∧
      message.instructions tx.accountKeys = .ok tx.instructions ∧
      tx.innerGroups = outcome.innerGroups.map (·.toInnerGroup tx.accountKeys) := by
  unfold RpcTransaction.toTransaction at h
  cases houtcome : t.outcome with
  | none =>
    rw [houtcome] at h
    cases h
  | some outcome =>
    rw [houtcome] at h
    cases hcontent : t.content with
    | other =>
      rw [hcontent] at h
      cases h
    | full signatures message =>
      rw [hcontent] at h
      cases hsignature : signatures.head? with
      | none =>
        simp only [hsignature] at h
        cases h
      | some signature =>
        simp only [hsignature] at h
        obtain ⟨instructions, hinstructions, h⟩ := bind_eq_ok.1 h
        cases h
        exact ⟨outcome, signatures, message, rfl, rfl, rfl, hinstructions, rfl⟩

/-- **Conversion keeps inner instructions with the instruction that they belong to.** Every
instruction of an accepted transaction was made of a listed one, and both ask for the same program
with the same accounts and data. At its position the inner instructions of the listed one are found
if nothing in front of it was left out, as in every raw message; otherwise only if none are reported
at either position. -/
theorem conversion_keeps_inner_instructions {t : RpcTransaction} {tx : Transaction}
    (h : t.toTransaction = .ok tx) :
    ∃ outcome signatures message, t.outcome = some outcome ∧
      t.content = .full signatures message ∧
      tx.accountKeys = message.accountKeys ++ outcome.loadedKeys ∧
      (∀ own indexed, message = .raw own indexed →
        ∀ k, message.KeepsBefore tx.accountKeys k) ∧
      ∀ i x, tx.instructions[i]? = some x →
        ∃ k r asked, message.MadeOf tx.accountKeys i x k r ∧
          r.invocation? tx.accountKeys = some asked ∧
          x.invocation? tx.accountKeys = some asked ∧
          (tx.innerGroup? i = (outcome.group? k).map (·.toInnerGroup tx.accountKeys) ↔
            message.KeepsBefore tx.accountKeys k ∨
              (outcome.group? i = none ∧ outcome.group? k = none)) := by
  obtain ⟨outcome, signatures, message, houtcome, hcontent, hkeys, hinstructions, hgroups⟩ :=
    t.exists_of_toTransaction h
  refine ⟨outcome, signatures, message, houtcome, hcontent, hkeys, ?_, ?_⟩
  · rintro own indexed rfl k
    exact RpcMessage.keepsBefore_raw hinstructions k
  · intro i x hx
    rw [RpcMessage.eq_filterMap_listed hinstructions] at hx
    obtain ⟨k, r, hlisted, hconverted, hkept⟩ := exists_of_getElem?_filterMap hx
    have hmade : message.MadeOf tx.accountKeys i x k r := ⟨hlisted, hconverted, hkept⟩
    obtain ⟨asked, hr, hasked⟩ := exists_invocation_of_toInstruction? hconverted
    refine ⟨k, r, asked, hmade, hr, hasked, ?_⟩
    have hgroup : tx.innerGroup? i = (outcome.group? i).map (·.toInnerGroup tx.accountKeys) := by
      rw [Transaction.innerGroup?, hgroups, List.find?_map]
      rfl
    rw [hgroup, RpcMeta.map_group?_eq_iff, hmade.keepsBefore_iff]

/-- A report of two instructions, the second of which has one inner instruction. -/
def reportOf (first : RpcInstruction) : RpcTransaction where
  slot := 1
  blockTime := none
  content := .full ["signature"] (.parsed ["program", "user"]
    [first, .keyed ⟨"program", ["user", "loaded"], "2"⟩])
  outcome := some {
    failed := false
    innerGroups := [⟨1, [.keyed ⟨"loaded", ["user"], "3"⟩]⟩]
    logMessages := []
    preBalances := []
    postBalances := []
    loadedKeys := ["loaded"] }

/-- What is made of it, up to the instructions. -/
def transactionOf (instructions : List Instruction) : Transaction where
  signature := "signature"
  slot := 1
  blockTime := 0
  accountKeys := ["program", "user", "loaded"]
  instructions
  innerGroups := [⟨1, [⟨2, [1], "Ag=="⟩]⟩]
  preBalances := []
  postBalances := []
  logMessages := []
  failed := false

/-- Nothing is left out in front of the second instruction, so it keeps its inner instruction. -/
theorem conversion_keeps_second_instruction :
    let t := reportOf (.keyed ⟨"program", [], "4"⟩)
    let tx := transactionOf [⟨0, [], "Aw=="⟩, ⟨0, [1, 2], "AQ=="⟩]
    t.toTransaction = .ok tx ∧
      ∃ outcome message r, t.outcome = some outcome ∧ t.content = .full ["signature"] message ∧
        message.MadeOf tx.accountKeys 1 ⟨0, [1, 2], "AQ=="⟩ 1 r ∧
        tx.innerGroup? 1 = (outcome.group? 1).map (·.toInnerGroup tx.accountKeys) := by
  intro t tx
  have hconverted : t.toTransaction = .ok tx := toOption_eq_some.1 (by decide +kernel)
  obtain ⟨outcome, signatures, message, houtcome, hcontent, -, -, hinstructions⟩ :=
    conversion_keeps_inner_instructions hconverted
  obtain ⟨k, r, asked, hmade, -, -, hgroup⟩ := hinstructions 1 _ rfl
  cases houtcome
  cases hcontent
  obtain rfl : k = 1 := by
    match k with
    | 0 => exact absurd hmade.kept Nat.zero_ne_one
    | 1 => rfl
    | k + 2 => exact absurd hmade.listed (by rintro ⟨⟩)
  exact ⟨hconverted, _, _, r, rfl, rfl, hmade, hgroup.2 (.inl (hmade.keepsBefore_iff.2 rfl))⟩

/-- Behind an interpreted instruction, which is left out, an instruction is converted but stands at
another position than its inner instructions. -/
theorem inner_instructions_lost_behind_interpreted :
    let t := reportOf .interpreted
    let tx := transactionOf [⟨0, [1, 2], "AQ=="⟩]
    t.toTransaction = .ok tx ∧
      (RpcInstruction.keyed ⟨"program", ["user", "loaded"], "2"⟩).toInstruction? tx.accountKeys =
        tx.instructions[0]? ∧
      (t.outcome.bind (·.group? 1)).map (·.toInnerGroup tx.accountKeys) =
        some ⟨1, [⟨2, [1], "Ag=="⟩]⟩ ∧
      tx.innerGroup? 0 = none :=
  ⟨toOption_eq_some.1 (by decide +kernel), by decide +kernel, by decide +kernel, rfl⟩

end PoolKlines
