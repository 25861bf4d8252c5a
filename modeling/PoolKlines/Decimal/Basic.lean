import PoolKlines.Number.Power

/-!
# Decimals

A decimal is a signed magnitude together with the number of its fractional digits.

* `Decimal`, with `Decimal.zero`, `Decimal.largest` and `Decimal.lowest`;
* `Decimal.coefficient` is the signed value of the digits;
* `Decimal.ofParts?` makes a decimal of a coefficient and a scale, `Decimal.ofMagnitude?` of a sign,
  a magnitude and a scale;
* `Decimal.ofRaw` reads a raw token amount at a token's number of decimals;
* `Decimal.Same` and `<` compare by value, so `1.0` and `1` are the same number in two forms;
* `max` and `min` keep their first argument on a tie, together with its form.

A zero can have a minus sign, when it is all that is left of a negative number. Only the written
form tells the two zeros apart.
-/

namespace PoolKlines

/-- The number of magnitudes, which is the number of values of 96 bits. -/
def Decimal.bound : Nat := 79228162514264337593543950336

/-- A sign and a magnitude of less than 96 bits over a power of ten with an exponent of at most
28. -/
@[ext] structure Decimal where
  negative : Bool
  magnitude : Nat
  scale : Nat
  magnitude_lt : magnitude < Decimal.bound
  scale_le : scale ≤ 28
  deriving DecidableEq

namespace Decimal

/-- The magnitude with its sign. -/
def coefficient (d : Decimal) : Int := if d.negative then -(d.magnitude : Int) else d.magnitude

/-- The number zero, written without fractional digits. -/
def zero : Decimal := ⟨false, 0, 0, by decide, by decide⟩

instance : Inhabited Decimal := ⟨zero⟩

/-- The largest decimal. -/
def largest : Decimal := ⟨false, bound - 1, 0, by decide, by decide⟩

/-- The decimal furthest below zero. -/
def lowest : Decimal := ⟨true, bound - 1, 0, by decide, by decide⟩

/-- The decimal with the given sign, magnitude and scale, when the latter two are in range. -/
def ofMagnitude? (negative : Bool) (magnitude scale : Nat) : Option Decimal :=
  if h : magnitude < bound ∧ scale ≤ 28 then some ⟨negative, magnitude, scale, h.1, h.2⟩ else none

/-- The decimal with the given coefficient and scale, when both are in range. -/
def ofParts? (coefficient : Int) (scale : Nat) : Option Decimal :=
  ofMagnitude? (decide (coefficient < 0)) coefficient.natAbs scale

/-- A whole number of units. -/
def ofCount (n : UInt64) : Decimal :=
  ⟨false, n.toNat, 0, by have := n.toNat_lt; simp only [bound]; omega, by decide⟩

/-- A raw token amount of a token with `decimals` decimals, of which at most 28 count. -/
def ofRaw (raw : UInt64) (decimals : UInt8) : Decimal :=
  ⟨false, raw.toNat, min decimals.toNat 28,
    by have := raw.toNat_lt; simp only [bound]; omega, Nat.min_le_right _ _⟩

/-- The value is zero. -/
def IsZero (d : Decimal) : Prop := d.magnitude = 0

instance (d : Decimal) : Decidable d.IsZero := inferInstanceAs (Decidable (d.magnitude = 0))

/-- A zero with a minus sign. -/
def IsMinusZero (d : Decimal) : Prop := d.negative = true ∧ d.IsZero

instance (d : Decimal) : Decidable d.IsMinusZero :=
  inferInstanceAs (Decidable (d.negative = true ∧ d.IsZero))

/-- The same number, without the minus sign if it is zero. -/
def unsignedZero (d : Decimal) : Decimal := { d with negative := d.negative && d.magnitude != 0 }

@[simp] theorem coefficient_zero : zero.coefficient = 0 := rfl

@[simp] theorem scale_zero : zero.scale = 0 := rfl

@[simp] theorem coefficient_ofCount (n : UInt64) : (ofCount n).coefficient = n.toNat := rfl

@[simp] theorem coefficient_ofRaw (raw : UInt64) (decimals : UInt8) :
    (ofRaw raw decimals).coefficient = raw.toNat := rfl

@[simp] theorem scale_ofRaw (raw : UInt64) (decimals : UInt8) :
    (ofRaw raw decimals).scale = min decimals.toNat 28 := rfl

@[simp] theorem natAbs_coefficient (d : Decimal) : d.coefficient.natAbs = d.magnitude := by
  unfold coefficient
  split <;> simp

theorem isZero_iff_coefficient (d : Decimal) : d.IsZero ↔ d.coefficient = 0 := by
  rw [← Int.natAbs_eq_zero, natAbs_coefficient, IsZero]

@[simp] theorem coefficient_unsignedZero (d : Decimal) :
    d.unsignedZero.coefficient = d.coefficient := by
  by_cases h : d.magnitude = 0 <;> simp [coefficient, unsignedZero, h]

theorem not_isMinusZero_unsignedZero (d : Decimal) : ¬ d.unsignedZero.IsMinusZero := by
  simp [IsMinusZero, IsZero, unsignedZero]

/-- The sign of a decimal that is no minus zero can be read off its coefficient. -/
theorem negative_eq_of_not_isMinusZero {d : Decimal} (h : ¬ d.IsMinusZero) :
    d.negative = decide (d.coefficient < 0) := by
  cases hn : d.negative
  · simp [coefficient, hn]
  · have : d.magnitude ≠ 0 := fun hz => h ⟨hn, hz⟩
    simp [coefficient, hn]
    omega

theorem ofParts?_eq_some {c : Int} {s : Nat} {d : Decimal} :
    ofParts? c s = some d ↔ d.coefficient = c ∧ d.scale = s ∧ ¬ d.IsMinusZero := by
  unfold ofParts? ofMagnitude?
  constructor
  · intro h
    split at h
    · cases h
      refine ⟨?_, rfl, fun hz => ?_⟩
      · simp only [coefficient, decide_eq_true_eq]
        split <;> omega
      · have h₁ : c < 0 := of_decide_eq_true hz.1
        have h₂ : c.natAbs = 0 := hz.2
        omega
    · simp at h
  · rintro ⟨rfl, rfl, hz⟩
    have hm : d.coefficient.natAbs < bound := (natAbs_coefficient d).symm ▸ d.magnitude_lt
    rw [dif_pos ⟨hm, d.scale_le⟩]
    exact congrArg some
      (Decimal.ext (negative_eq_of_not_isMinusZero hz).symm (natAbs_coefficient d) rfl)

/-! ### Order by value -/

/-- Two decimals have the same value. -/
def Same (a b : Decimal) : Prop := a.coefficient * tenPow b.scale = b.coefficient * tenPow a.scale

instance (a b : Decimal) : Decidable (a.Same b) :=
  inferInstanceAs (Decidable (a.coefficient * tenPow b.scale = b.coefficient * tenPow a.scale))

instance : LT Decimal where
  lt a b := a.coefficient * tenPow b.scale < b.coefficient * tenPow a.scale

instance (a b : Decimal) : Decidable (a < b) :=
  inferInstanceAs (Decidable (a.coefficient * tenPow b.scale < b.coefficient * tenPow a.scale))

instance : Max Decimal where
  max a b := if a < b then b else a

instance : Min Decimal where
  min a b := if b < a then b else a

theorem lt_def (a b : Decimal) :
    a < b ↔ a.coefficient * tenPow b.scale < b.coefficient * tenPow a.scale := Iff.rfl

theorem max_def (a b : Decimal) : max a b = if a < b then b else a := rfl

theorem min_def (a b : Decimal) : min a b = if b < a then b else a := rfl

/-- Optional decimals agree when both are absent or both have the same value. -/
def SameOption : Option Decimal → Option Decimal → Prop
  | none, none => True
  | some a, some b => a.Same b
  | _, _ => False

instance : (a b : Option Decimal) → Decidable (SameOption a b)
  | none, none => .isTrue trivial
  | some a, some b => inferInstanceAs (Decidable (a.Same b))
  | none, some _ => .isFalse id
  | some _, none => .isFalse id

end Decimal

end PoolKlines
