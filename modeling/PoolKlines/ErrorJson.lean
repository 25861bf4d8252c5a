import PoolKlines.IndexerError
import PoolKlines.Json.Basic

/-!
# Errors in JSON

An error is an object with the name of its kind and its wording.

* `ReadError.toJson`, `DecodeError.toJson`, `StoreError.toJson`, `RollupError.toJson` and
  `IndexerError.toJson` write errors.

The wording of a payload that is no transaction is left out, a rollup error adds the error of the
store, and an indexing error what follows from it.
-/

namespace PoolKlines

/-- The fields of every error. -/
def errorFields (kind message : String) : List (String × Json) :=
  [("error", .string kind), ("message", .string message)]

/-- The kind of a read error. -/
def ReadError.kind : ReadError → String
  | .overflow .. => "BufferOverflow"
  | .invalidBool _ => "InvalidBool"

/-- Write a read error. -/
def ReadError.toJson (e : ReadError) : Json := .object (errorFields e.kind e.message)

/-- The kind of a decoding error. -/
def DecodeError.kind : DecodeError → String
  | .read _ => "BinaryReader"
  | .base64 _ => "Base64"
  | .shortData .. => "ShortData"
  | .missingAccount .. => "MissingAccount"
  | .accountIndex _ => "AccountIndex"
  | .vaultMismatch .. => "VaultMismatch"
  | .missingTransfer _ => "MissingTransfer"

/-- Write a decoding error. -/
def DecodeError.toJson (e : DecodeError) : Json := .object (errorFields e.kind e.message)

/-- The kind of a store error. -/
def StoreError.kind : StoreError → String
  | .database _ => "Sqlite"
  | .payload => "Json"
  | .unavailable _ => "Unavailable"
  | .corrupt .. => "Corrupt"
  | .unassignedPool _ => "UnassignedPool"
  | .outOfOrder .. => "OutOfOrder"

/-- Write a store error. -/
def StoreError.toJson (e : StoreError) : Json :=
  match e with
  | .payload => .object [("error", .string e.kind)]
  | _ => .object (errorFields e.kind e.message)

/-- Write a rollup error. -/
def RollupError.toJson (e : RollupError) : Json :=
  match e with
  | .store inner => .object (("inner", inner.toJson) :: errorFields "Store" e.message)
  | .poolMismatch .. => .object (errorFields "PoolMismatch" e.message)

/-- The kind of an indexing error. -/
def IndexerError.kind : IndexerError → String
  | .decode _ => "Decode"
  | .fetch _ => "Fetch"
  | .storage _ => "Storage"
  | .rollup .. => "Rollup"
  | .commit .. => "Commit"
  | .outOfOrder .. => "OutOfOrder"

/-- Write an indexing error. -/
def IndexerError.toJson (e : IndexerError) : Json :=
  .object (("class", .string e.errorClass.name) :: errorFields e.kind e.message)

end PoolKlines
