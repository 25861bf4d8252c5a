/-!
# Powers

`tenPow k` is ten to the power `k`, the number of units that `k` fractional digits make of one, and
`twoPow k` is two to the power `k`.
-/

namespace PoolKlines

/-- Ten to the power `k`. -/
def tenPow (k : Nat) : Nat := Nat.pow 10 k

/-- Two to the power `k`. -/
def twoPow (k : Nat) : Nat := Nat.pow 2 k

@[simp] theorem tenPow_zero : tenPow 0 = 1 := rfl

theorem tenPow_succ (k : Nat) : tenPow (k + 1) = tenPow k * 10 := rfl

theorem tenPow_pos (k : Nat) : 0 < tenPow k := Nat.pow_pos (by decide)

@[simp] theorem twoPow_zero : twoPow 0 = 1 := rfl

end PoolKlines
