import PoolKlines.Decimal.Sum

/-!
# Quotients of decimals

Long division in blocks of at most nine digits: the quotient of the coefficients is extended by
blocks of digits of the remainder until nothing remains or no further digit fits, and an inexact
quotient is then freed of some of its trailing zeros.

* `Decimal.headroom` is the size of the next block;
* `Decimal.extendQuotient` carries out the division;
* `Decimal.dropZeros` removes a group of trailing zeros, `Decimal.trimZeros` groups of eight, four,
  two and one;
* `Decimal.div?` is the quotient, absent for a zero divisor and for one out of range.
-/

namespace PoolKlines.Decimal

/-- A quotient of coefficients on the way: its digits, its scale, which may still be negative, and
whether a remainder was ever brought down. -/
structure PartialQuotient where
  digits : Nat
  scale : Int
  inexact : Bool
  deriving DecidableEq

/-- The most digits, up to `room`, that can be appended to `q` within 96 bits. -/
def headroom (q : Nat) : Nat → Nat
  | 0 => 0
  | room + 1 => if q * tenPow (room + 1) < bound then room + 1 else headroom q room

theorem headroom_le (q room : Nat) : headroom q room ≤ room := by
  induction room with
  | zero => exact Nat.le_refl 0
  | succ room ih =>
    unfold headroom
    split
    · exact Nat.le_refl _
    · exact Nat.le_succ_of_le ih

/-- A quotient of 97 bits gives up its last digit; a half also goes up when a remainder is left. -/
def dropLastDigit (q r : Nat) (s : Int) : Option PartialQuotient :=
  if s < 1 then none
  else
    let up := 5 < q % 10 ∨ (q % 10 = 5 ∧ (q / 10 % 2 = 1 ∨ r ≠ 0))
    some ⟨if up then q / 10 + 1 else q / 10, s - 1, true⟩

/-- A quotient that takes no further digit is rounded on its remainder, a half to the even one. -/
def roundLastDigit (d q r : Nat) (s : Int) : Option PartialQuotient :=
  let q := if d < 2 * r ∨ (2 * r = d ∧ q % 2 = 1) then q + 1 else q
  if q < bound then some ⟨q, s, true⟩ else dropLastDigit q r s

/-- Extend the quotient `q` with remainder `r` of a division by `d` at scale `s`. -/
def extendQuotient (d q r : Nat) (s : Int) (inexact : Bool) : Option PartialQuotient :=
  if r = 0 then
    if s < 0 then
      let block := min 9 (-s).toNat
      if q * tenPow block < bound then extendQuotient d (q * tenPow block) 0 (s + block) inexact
      else none
    else some ⟨q, s, inexact⟩
  else
    let block := headroom q (min 9 (28 - s).toNat)
    if block < 9 ∧ s + block < 0 then none
    else if block = 0 then roundLastDigit d q r s
    else
      let brought := r * tenPow block
      let q' := q * tenPow block + brought / d
      let r' := brought % d
      if q' < bound then extendQuotient d q' r' (s + block) true
      else dropLastDigit q' r' (s + block)
termination_by (28 - s).toNat
decreasing_by
  · have : block ≤ (-s).toNat := Nat.min_le_right _ _
    have : 1 ≤ block := by omega
    omega
  · have : block ≤ (28 - s).toNat := Nat.le_trans (headroom_le _ _) (Nat.min_le_right _ _)
    omega

/-- Remove `k` trailing zeros, provided that `m` divides the digits and that all `k` are there. -/
def dropZeros (k m : Nat) (digits : Nat × Nat) : Nat × Nat :=
  if digits.1 % m = 0 ∧ k ≤ digits.2 ∧ digits.1 % tenPow k = 0 then
    (digits.1 / tenPow k, digits.2 - k)
  else digits

/-- Remove trailing zeros from digits at a scale: groups of eight while there are any, which is at
most three times, and then one group of four, one of two and one of one. -/
def trimZeros (digits : Nat × Nat) : Nat × Nat :=
  let eight := dropZeros 8 UInt32.size
  dropZeros 1 2 (dropZeros 2 4 (dropZeros 4 16 (eight (eight (eight digits)))))

/-- The quotient, unless the divisor is zero or the quotient is out of range. It is never minus
zero. -/
def div? (a b : Decimal) : Option Decimal :=
  if b.IsZero then none
  else if a.IsZero then some zero
  else
    let m := a.magnitude
    let d := b.magnitude
    (extendQuotient d (m / d) (m % d) (a.scale - b.scale) false).bind fun q =>
      let (digits, scale) :=
        if q.inexact then trimZeros (q.digits, q.scale.toNat) else (q.digits, q.scale.toNat)
      ofParts? (a.coefficient.sign * b.coefficient.sign * digits) scale

@[simp] theorem div?_of_isZero {a b : Decimal} (h : b.IsZero) : a.div? b = none := by
  simp [div?, h]

end PoolKlines.Decimal
