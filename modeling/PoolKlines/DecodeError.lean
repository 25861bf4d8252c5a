import PoolKlines.Bytes.Base64
import PoolKlines.Bytes.Reader

/-!
# Decoding errors

`DecodeError` says why an instruction or a log line cannot be decoded, and `DecodeError.message`
puts it into words.
-/

namespace PoolKlines

/-- Why an instruction or a log line cannot be decoded. -/
inductive DecodeError
  | read (cause : ReadError)
  | base64 (cause : Base64.DecodeError)
  | shortData (need got : Nat)
  | missingAccount (account : String) (position : Nat)
  | accountIndex (index : UInt8)
  | vaultMismatch (pool vault : String)
  | missingTransfer (side : String)
  deriving DecidableEq

/-- The wording of a decoding error. -/
def DecodeError.message : DecodeError → String
  | .read cause => "binary reader error: " ++ cause.message
  | .base64 cause => "invalid base64 payload: " ++ cause.message
  | .shortData need got =>
    "instruction data too short: need " ++ toString need ++ " bytes, got " ++ toString got
  | .missingAccount account position =>
    "missing account " ++ account ++ " at position " ++ toString position
  | .accountIndex index =>
    "account index " ++ toString index.toNat ++ " is outside the account key list"
  | .vaultMismatch pool vault => "vault " ++ vault ++ " does not belong to pool " ++ pool
  | .missingTransfer side => "missing settlement transfer: " ++ side

end PoolKlines
