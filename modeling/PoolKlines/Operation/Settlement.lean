import PoolKlines.DecodeError
import PoolKlines.Json.Basic
import PoolKlines.Sides
import PoolKlines.Transaction.Basic

/-!
# Settlements

What an operation moved is told by its token transfers; where a transfer is missing, by the
difference of the vault's balances.

* `VaultBalance` is a vault's balance before and after a transaction, `VaultBalance.change?` the
  difference;
* `Settlement.reconcile` settles both sides, or names the first side of which nothing is known.
-/

namespace PoolKlines

/-- The raw balance of a vault before and after a transaction. -/
structure VaultBalance where
  pre : Option UInt64
  post : Option UInt64
  deriving DecidableEq

namespace VaultBalance

/-- The balances of an account that a transaction reports. -/
def ofTransaction (t : Transaction) (account : UInt8) : VaultBalance where
  pre := (t.preBalance? account).bind TokenBalance.rawAmount?
  post := (t.postBalance? account).bind TokenBalance.rawAmount?

/-- The change of the balance. -/
def change? (v : VaultBalance) : Option Int :=
  match v.pre, v.post with
  | some pre, some post => some (post.toNat - pre.toNat)
  | _, _ => none

end VaultBalance

/-- The raw amounts an operation moved, with the vaults' balances after it and their changes. -/
structure Settlement where
  amounts : Sides UInt64
  balances : Sides (Option UInt64)
  changes : Sides (Option Int)
  deriving DecidableEq

namespace Settlement

/-- The amount moved on one side. -/
def settle (transfer : Option UInt64) (vault : VaultBalance) (side : String) :
    Except DecodeError UInt64 :=
  match transfer, vault.change? with
  | some amount, _ => .ok amount
  | none, some change => .ok (UInt64.ofNat change.natAbs)
  | none, none => .error (.missingTransfer side)

/-- Settle both sides, token A first. -/
def reconcile (transfers : Sides (Option UInt64)) (vaults : Sides VaultBalance) :
    Except DecodeError Settlement := do
  let a ← settle transfers.a vaults.a "token A"
  let b ← settle transfers.b vaults.b "token B"
  return {
    amounts := ⟨a, b⟩
    balances := vaults.map VaultBalance.post
    changes := vaults.map VaultBalance.change? }

/-- Write a settlement. -/
def toJson (s : Settlement) : Json :=
  .object [
    ("amountA", Json.ofUInt64 s.amounts.a),
    ("amountB", Json.ofUInt64 s.amounts.b),
    ("balanceA", Json.ofOption Json.ofUInt64 s.balances.a),
    ("balanceB", Json.ofOption Json.ofUInt64 s.balances.b),
    ("deltaA", Json.ofOption Json.integer s.changes.a),
    ("deltaB", Json.ofOption Json.integer s.changes.b)]

@[simp] theorem settle_some (amount : UInt64) (vault : VaultBalance) (side : String) :
    settle (some amount) vault side = .ok amount := by
  cases h : vault.change? <;> simp [settle]

end Settlement

end PoolKlines
