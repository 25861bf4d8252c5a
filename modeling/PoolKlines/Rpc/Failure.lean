import PoolKlines.Json.Decode

/-!
# Why transactions fail

A node names the cause of a failure. Most causes are a name, some have details.

* `isInstructionFailure` accepts the cause of a failed instruction;
* `isFailure` accepts the cause of a failed transaction;
* `isExecutionStatus` accepts the status of a transaction, which is success or a failure.
-/

namespace PoolKlines

/-- The causes without details for which an instruction fails. -/
def instructionFailures : List String :=
  ["GenericError", "InvalidArgument", "InvalidInstructionData", "InvalidAccountData",
    "AccountDataTooSmall", "InsufficientFunds", "IncorrectProgramId", "MissingRequiredSignature",
    "AccountAlreadyInitialized", "UninitializedAccount", "UnbalancedInstruction",
    "ModifiedProgramId", "ExternalAccountLamportSpend", "ExternalAccountDataModified",
    "ReadonlyLamportChange", "ReadonlyDataModified", "DuplicateAccountIndex",
    "ExecutableModified", "RentEpochModified", "NotEnoughAccountKeys", "AccountDataSizeChanged",
    "AccountNotExecutable", "AccountBorrowFailed", "AccountBorrowOutstanding",
    "DuplicateAccountOutOfSync", "InvalidError", "ExecutableDataModified",
    "ExecutableLamportChange", "ExecutableAccountNotRentExempt", "UnsupportedProgramId",
    "CallDepth", "MissingAccount", "ReentrancyNotAllowed", "MaxSeedLengthExceeded",
    "InvalidSeeds", "InvalidRealloc", "ComputationalBudgetExceeded", "PrivilegeEscalation",
    "ProgramEnvironmentSetupFailure", "ProgramFailedToComplete", "ProgramFailedToCompile",
    "Immutable", "IncorrectAuthority", "AccountNotRentExempt", "InvalidAccountOwner",
    "ArithmeticOverflow", "UnsupportedSysvar", "IllegalOwner",
    "MaxAccountsDataAllocationsExceeded", "MaxAccountsExceeded",
    "MaxInstructionTraceLengthExceeded", "BuiltinProgramsMustConsumeComputeUnits"]

/-- The causes without details for which a transaction fails. -/
def transactionFailures : List String :=
  ["AccountInUse", "AccountLoadedTwice", "AccountNotFound", "ProgramAccountNotFound",
    "InsufficientFundsForFee", "InvalidAccountForFee", "AlreadyProcessed", "BlockhashNotFound",
    "CallChainTooDeep", "MissingSignatureForFee", "InvalidAccountIndex", "SignatureFailure",
    "InvalidProgramForExecution", "SanitizeFailure", "ClusterMaintenance",
    "AccountBorrowOutstanding", "WouldExceedMaxBlockCostLimit", "UnsupportedVersion",
    "InvalidWritableAccount", "WouldExceedMaxAccountCostLimit",
    "WouldExceedAccountDataBlockLimit", "TooManyAccountLocks", "AddressLookupTableNotFound",
    "InvalidAddressLookupTableOwner", "InvalidAddressLookupTableData",
    "InvalidAddressLookupTableIndex", "InvalidRentPayingAccount", "WouldExceedMaxVoteCostLimit",
    "WouldExceedAccountDataTotalLimit", "MaxLoadedAccountsDataSizeExceeded",
    "InvalidLoadedAccountsDataSizeLimit", "ResanitizationNeeded", "UnbalancedTransaction"]

/-- The cause is one of those without details. -/
def isNamedFailure (names : List String) (j : Json) : Bool :=
  match j.voidCase? with
  | some name => names.contains name
  | none => false

/-- The JSON value is the cause of a failed instruction. -/
def isInstructionFailure (j : Json) : Bool :=
  isNamedFailure instructionFailures j ||
    match j with
    | .object [("Custom", code)] => code.uint32?.isSome
    | .object [("BorshIoError", text)] => text.string?.isSome
    | _ => false

/-- The JSON value names an account by its position. -/
def isAccountDetail (j : Json) : Bool :=
  match j.record? ["account_index"] with
  | some [some index] => index.uint8?.isSome
  | _ => false

/-- The JSON value is the cause of a failed transaction. -/
def isFailure (j : Json) : Bool :=
  isNamedFailure transactionFailures j ||
    match j with
    | .object [("InstructionError", .array [index, cause])] =>
      index.uint8?.isSome && isInstructionFailure cause
    | .object [("DuplicateInstruction", index)] => index.uint8?.isSome
    | .object [("InsufficientFundsForRent", detail)] => isAccountDetail detail
    | .object [("ProgramExecutionTemporarilyRestricted", detail)] => isAccountDetail detail
    | _ => false

/-- The JSON value is the status of a transaction. -/
def isExecutionStatus : Json → Bool
  | .object [("Ok", nothing)] => nothing.isVoid
  | .object [("Err", cause)] => isFailure cause
  | _ => false

end PoolKlines
