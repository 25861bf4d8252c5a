/-!
# Rounding half to even

`divHalfEven` rounds a quotient of natural numbers.
-/

namespace PoolKlines

/-- The quotient of `n` by `d` rounded to the nearest integer, a half to the even one. -/
def divHalfEven (n d : Nat) : Nat :=
  let q := n / d
  let r := n % d
  if d < 2 * r ∨ (2 * r = d ∧ q % 2 = 1) then q + 1 else q

@[simp] theorem divHalfEven_one (n : Nat) : divHalfEven n 1 = n := by
  simp [divHalfEven, Nat.mod_one]

end PoolKlines
