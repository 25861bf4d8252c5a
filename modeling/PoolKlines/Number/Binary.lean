import PoolKlines.Number.HalfEven
import PoolKlines.Number.Power

/-!
# Binary numbers

* `Binary` is a natural number times a power of two;
* `BinaryFormat` limits the binary digits of the natural number and the power from below;
* `BinaryFormat.ofRatio`, `BinaryFormat.round` and `BinaryFormat.mul` round to a format, a half
  going to the even neighbour;
* `BinaryFraction` is an integer over a power of two, and `BinaryFraction.before` compares by value.
-/

namespace PoolKlines

/-- The number `significand * 2 ^ exponent`. -/
structure Binary where
  significand : Nat
  exponent : Int
  deriving DecidableEq

namespace Binary

/-- The number is `numerator / denominator`. -/
def numerator (b : Binary) : Nat := b.significand * twoPow b.exponent.toNat

/-- The denominator of the number, a power of two. -/
def denominator (b : Binary) : Nat := twoPow (-b.exponent).toNat

end Binary

/-- How many binary digits a number has, and the power of two of the last one at the least. -/
structure BinaryFormat where
  digits : Nat
  least : Int
  deriving DecidableEq

namespace BinaryFormat

/-- Numbers of 64 bits. -/
def double : BinaryFormat := ⟨53, -1074⟩

/-- Numbers of 80 bits, in which intermediate results are kept. -/
def extended : BinaryFormat := ⟨64, -16445⟩

/-- The exponent of the largest power of two that is at most `n / d`. -/
def leading (n d : Nat) : Int :=
  let k : Int := (n.log2 : Int) - d.log2
  if d * twoPow k.toNat ≤ n * twoPow (-k).toNat then k else k - 1

/-- The number nearest to `n / d`. -/
def ofRatio (f : BinaryFormat) (n d : Nat) : Binary :=
  let exponent := max f.least (leading n d + 1 - f.digits)
  ⟨divHalfEven (n * twoPow (-exponent).toNat) (d * twoPow exponent.toNat), exponent⟩

/-- The number nearest to `b`. -/
def round (f : BinaryFormat) (b : Binary) : Binary := f.ofRatio b.numerator b.denominator

/-- The number nearest to a product. -/
def mul (f : BinaryFormat) (a b : Binary) : Binary :=
  f.round ⟨a.significand * b.significand, a.exponent + b.exponent⟩

end BinaryFormat

/-! ### Fractions -/

/-- The number `numerator / 2 ^ places`. -/
structure BinaryFraction where
  numerator : Int
  places : Nat
  deriving DecidableEq

namespace BinaryFraction

/-- A whole number. -/
def ofInt (n : Int) : BinaryFraction := ⟨n, 0⟩

/-- The number, if it is whole. -/
def int? (x : BinaryFraction) : Option Int :=
  if x.numerator % (twoPow x.places : Int) = 0 then some (x.numerator / (twoPow x.places : Int))
  else none

/-- The lower of two numbers comes first. -/
def before (x y : BinaryFraction) : Bool :=
  x.numerator * twoPow y.places < y.numerator * twoPow x.places

@[simp] theorem before_ofInt (m n : Int) : (ofInt m).before (ofInt n) = decide (m < n) := by
  simp [before, ofInt]

end BinaryFraction

end PoolKlines
