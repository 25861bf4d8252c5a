import PoolKlines.Decimal.Quotient
import PoolKlines.Kline.Rollup

/-!
# The sign of a zero

Decimals that differ only in the sign of a zero have the same coefficient and the same scale
(`unsignedZero_eq_iff`), and the operations on decimals do not tell them apart, up to the sign of
the result if it is zero in turn.

* products and quotients by such decimals are equal: `saturatingMul_unsignedZero`,
  `div?_unsignedZero`;
* sums, maxima and minima agree again up to the sign of a zero;
* `meanOf?_map_unsignedZero`: means are equal.
-/

namespace PoolKlines

namespace Decimal

/-- Decimals agree up to the sign of a zero when they have the same value at the same scale. -/
theorem unsignedZero_eq_iff {a b : Decimal} :
    a.unsignedZero = b.unsignedZero ↔ a.coefficient = b.coefficient ∧ a.scale = b.scale := by
  constructor
  · intro h
    have hs : a.unsignedZero.scale = b.unsignedZero.scale := by rw [h]
    rw [← coefficient_unsignedZero a, h, coefficient_unsignedZero]
    exact ⟨rfl, hs⟩
  · rintro ⟨hc, hs⟩
    have ha := ofParts?_eq_some.2
      ⟨a.coefficient_unsignedZero, rfl, a.not_isMinusZero_unsignedZero⟩
    have hb := ofParts?_eq_some.2
      ⟨b.coefficient_unsignedZero, rfl, b.not_isMinusZero_unsignedZero⟩
    have hsab : a.unsignedZero.scale = b.unsignedZero.scale := hs
    rw [hc, hsab] at ha
    exact Option.some.inj (ha.symm.trans hb)

@[simp] theorem scale_unsignedZero (d : Decimal) : d.unsignedZero.scale = d.scale := rfl

@[simp] theorem unsignedZero_unsignedZero (d : Decimal) :
    d.unsignedZero.unsignedZero = d.unsignedZero :=
  unsignedZero_eq_iff.2 ⟨d.coefficient_unsignedZero, rfl⟩

@[simp] theorem isZero_unsignedZero {d : Decimal} : d.unsignedZero.IsZero ↔ d.IsZero := Iff.rfl

theorem unsignedZero_of_not_isZero {d : Decimal} (h : ¬ d.IsZero) : d.unsignedZero = d := by
  have hm : (d.magnitude != 0) = true := by simpa [IsZero] using h
  exact Decimal.ext (by simp [unsignedZero, hm]) rfl rfl

theorem lt_unsignedZero {a b : Decimal} : a.unsignedZero < b.unsignedZero ↔ a < b := by
  simp only [lt_def, coefficient_unsignedZero, scale_unsignedZero]

theorem same_unsignedZero {a b : Decimal} : a.unsignedZero.Same b.unsignedZero ↔ a.Same b := by
  simp only [Same, coefficient_unsignedZero, scale_unsignedZero]

theorem sameOption_map_unsignedZero {a b : Option Decimal} :
    SameOption (a.map unsignedZero) (b.map unsignedZero) ↔ SameOption a b := by
  cases a <;> cases b <;> simp [SameOption, same_unsignedZero]

/-! ### Products and quotients -/

theorem mul?_unsignedZero (a b : Decimal) : a.unsignedZero.mul? b = a.mul? b := by
  by_cases h : a.IsZero
  · simp [mul?, h]
  · rw [unsignedZero_of_not_isZero h]

@[simp] theorem saturatingMul_unsignedZero (a b : Decimal) :
    a.unsignedZero.saturatingMul b = a.saturatingMul b := by
  rw [saturatingMul, mul?_unsignedZero, coefficient_unsignedZero, saturatingMul]

@[simp] theorem div?_unsignedZero (a b : Decimal) : a.unsignedZero.div? b = a.div? b := by
  by_cases h : a.IsZero
  · simp [div?, h]
  · rw [unsignedZero_of_not_isZero h]

theorem div?_congr {a a' : Decimal} (h : a.unsignedZero = a'.unsignedZero) (b : Decimal) :
    a.div? b = a'.div? b := by
  rw [← div?_unsignedZero a, h, div?_unsignedZero]

/-! ### Sums, maxima and minima -/

theorem saturatingAdd_congr {a a' b b' : Decimal} (ha : a.unsignedZero = a'.unsignedZero)
    (hb : b.unsignedZero = b'.unsignedZero) :
    (a.saturatingAdd b).unsignedZero = (a'.saturatingAdd b').unsignedZero := by
  have hunsigned (a b : Decimal) :
      (a.unsignedZero.saturatingAdd b.unsignedZero).unsignedZero =
        (a.saturatingAdd b).unsignedZero := by
    by_cases ha : a.IsZero
    · simp [saturatingAdd, add?, ha]
    rw [unsignedZero_of_not_isZero ha]
    by_cases hb : b.IsZero
    · simp [saturatingAdd, add?, ha, hb]
    · rw [unsignedZero_of_not_isZero hb]
  rw [← hunsigned, ha, hb, hunsigned]

@[simp] theorem unsignedZero_saturatingAdd (a b : Decimal) :
    (a.unsignedZero.saturatingAdd b).unsignedZero = (a.saturatingAdd b).unsignedZero :=
  saturatingAdd_congr a.unsignedZero_unsignedZero rfl

theorem unsignedZero_max (a b : Decimal) :
    (max a b).unsignedZero = max a.unsignedZero b.unsignedZero := by
  rw [max_def, max_def]
  by_cases h : a < b
  · rw [if_pos h, if_pos (lt_unsignedZero.2 h)]
  · rw [if_neg h, if_neg (mt lt_unsignedZero.1 h)]

theorem unsignedZero_min (a b : Decimal) :
    (min a b).unsignedZero = min a.unsignedZero b.unsignedZero := by
  rw [min_def, min_def]
  by_cases h : b < a
  · rw [if_pos h, if_pos (lt_unsignedZero.2 h)]
  · rw [if_neg h, if_neg (mt lt_unsignedZero.1 h)]

/-! ### Means -/

theorem foldl_saturatingAdd_map_unsignedZero (values : List Decimal) {a b : Decimal}
    (h : a.unsignedZero = b.unsignedZero) :
    ((values.map unsignedZero).foldl saturatingAdd a).unsignedZero =
      (values.foldl saturatingAdd b).unsignedZero := by
  induction values generalizing a b with
  | nil => exact h
  | cons d values ih => exact ih (saturatingAdd_congr h d.unsignedZero_unsignedZero)

end Decimal

@[simp] theorem meanOf?_map_unsignedZero (values : List Decimal) :
    meanOf? (values.map Decimal.unsignedZero) = meanOf? values := by
  rw [meanOf?, Decimal.div?_congr (Decimal.foldl_saturatingAdd_map_unsignedZero values rfl),
    List.length_map, meanOf?]

end PoolKlines
