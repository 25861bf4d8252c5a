import PoolKlines.Bytes.Base64
import PoolKlines.Text.Count

/-!
# Transactions

* `Transaction` is what the chain reports: account keys, instructions with the inner instructions
  they gave rise to, token balances before and after, and the program log;
* `StoredTransaction` is a transaction as a row of a pool's history;
* `TransactionMeta` identifies a transaction on the records made from it.

Instructions refer to accounts by their position in the list of account keys.
-/

namespace PoolKlines

/-- The balance of a token account; the raw amount is written in digits. -/
structure TokenBalance where
  accountIndex : UInt8
  mint : String
  owner : Option String
  amount : String
  decimals : UInt8
  deriving DecidableEq

/-- The raw amount, unless the text is no 64-bit number. -/
def TokenBalance.rawAmount? (b : TokenBalance) : Option UInt64 := parseUInt64 b.amount

/-- An instruction; its data are base64 text. -/
structure Instruction where
  programIndex : UInt8
  accounts : List UInt8
  data : String
  deriving DecidableEq

/-- The data as bytes. -/
def Instruction.bytes (i : Instruction) : Except Base64.DecodeError (List UInt8) :=
  Base64.decode i.data

/-- The inner instructions of the top-level instruction at `index`. -/
structure InnerGroup where
  index : UInt8
  instructions : List Instruction
  deriving DecidableEq

/-- A transaction as reported by the chain. -/
structure Transaction where
  signature : String
  slot : UInt64
  blockTime : Int64
  accountKeys : List String
  instructions : List Instruction
  innerGroups : List InnerGroup
  preBalances : List TokenBalance
  postBalances : List TokenBalance
  logMessages : List String
  failed : Bool
  deriving DecidableEq

namespace Transaction

/-- The account key at a position. -/
def accountKey? (t : Transaction) (index : UInt8) : Option String := t.accountKeys[index.toNat]?

/-- The inner instructions of the top-level instruction at `index`: the first group that names
it. -/
def innerGroup? (t : Transaction) (index : Nat) : Option InnerGroup :=
  t.innerGroups.find? (·.index.toNat = index)

/-- The balance of an account before the transaction. -/
def preBalance? (t : Transaction) (account : UInt8) : Option TokenBalance :=
  t.preBalances.find? (·.accountIndex = account)

/-- The balance of an account after the transaction. -/
def postBalance? (t : Transaction) (account : UInt8) : Option TokenBalance :=
  t.postBalances.find? (·.accountIndex = account)

end Transaction

/-- What identifies a transaction on its records. -/
structure TransactionMeta where
  id : UInt64
  signature : String
  slot : UInt64
  blockTime : Int64
  deriving DecidableEq

/-- A row of a pool's history. -/
structure StoredTransaction where
  id : UInt64
  pool : String
  slot : UInt64
  signature : String
  blockTime : Int64
  tx : Transaction
  deriving DecidableEq

/-- The identity of the stored transaction. -/
def StoredTransaction.meta (s : StoredTransaction) : TransactionMeta :=
  ⟨s.id, s.signature, s.slot, s.blockTime⟩

end PoolKlines
