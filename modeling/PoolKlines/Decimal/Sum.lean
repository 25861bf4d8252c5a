import PoolKlines.Decimal.Basic
import PoolKlines.Number.HalfEven

/-!
# Sums and products of decimals

A result is worked out exactly and then fitted: the fewest digits that bring the coefficient below
96 bits and the scale to 28 are dropped, a half going to the even neighbour.

* `Decimal.fitMagnitude` and `Decimal.fit` fit an exact value, or fail when no number of fractional
  digits is small enough;
* `Decimal.saturatingAdd` and `Decimal.saturatingMul` answer the nearest bound instead of failing.
-/

namespace PoolKlines.Decimal

/-- The least number of digits to drop from the coefficient `m` at scale `s`. -/
def droppedDigits? (m s : Nat) : Option Nat :=
  (List.range (s + 1)).find? fun k => decide (s ≤ 28 + k ∧ divHalfEven m (tenPow k) < bound)

theorem fits_of_droppedDigits? {m s k : Nat} (h : droppedDigits? m s = some k) :
    s ≤ 28 + k ∧ divHalfEven m (tenPow k) < bound := by
  simpa using List.find?_some h

/-- The value `m / 10 ^ s` with a sign as a decimal, rounded if it has too many digits. The sign
stays even if nothing else does. -/
def fitMagnitude (negative : Bool) (m s : Nat) : Option Decimal :=
  match h : droppedDigits? m s with
  | none => none
  | some k =>
    some {
      negative
      magnitude := divHalfEven m (tenPow k)
      scale := s - k
      magnitude_lt := (fits_of_droppedDigits? h).2
      scale_le := by
        have h₁ := (fits_of_droppedDigits? h).1
        omega }

/-- The value `v / 10 ^ s` as a decimal, rounded if it has too many digits. -/
def fit (v : Int) (s : Nat) : Option Decimal := fitMagnitude (decide (v < 0)) v.natAbs s

/-- The sum, unless it is too large; a zero summand leaves the other one in its own form. -/
def add? (a b : Decimal) : Option Decimal :=
  if a.IsZero then some b
  else if b.IsZero then some a
  else
    let s := max a.scale b.scale
    fit (a.coefficient * tenPow (s - a.scale) + b.coefficient * tenPow (s - b.scale)) s

/-- The sum, held at the bound on the side of the first summand. -/
def saturatingAdd (a b : Decimal) : Decimal :=
  (a.add? b).getD (if 0 < a.coefficient then largest else lowest)

/-- The product, unless it is too large. A product of two magnitudes of 32 bits is never minus zero,
and is taken to be zero if the scales add up to more than 47. -/
def mul? (a b : Decimal) : Option Decimal :=
  let negative := a.negative != b.negative
  let product := fitMagnitude negative (a.magnitude * b.magnitude) (a.scale + b.scale)
  if a.IsZero ∨ b.IsZero then some zero
  else if a.magnitude < UInt32.size ∧ b.magnitude < UInt32.size then
    if 47 < a.scale + b.scale then some zero else product.map unsignedZero
  else product

/-- The product, held at the bound on the side of its sign. -/
def saturatingMul (a b : Decimal) : Decimal :=
  (a.mul? b).getD (if 0 < a.coefficient * b.coefficient then largest else lowest)

theorem add?_of_isZero_left {a b : Decimal} (h : a.IsZero) : a.add? b = some b := by
  simp [add?, h]

@[simp] theorem zero_saturatingAdd (d : Decimal) : zero.saturatingAdd d = d := by
  simp [saturatingAdd, add?_of_isZero_left (a := zero) rfl]

end PoolKlines.Decimal
