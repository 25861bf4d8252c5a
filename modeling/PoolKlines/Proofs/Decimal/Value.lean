import Mathlib.Algebra.Order.Field.Rat
import Mathlib.Tactic.FieldSimp
import Mathlib.Tactic.Linarith
import Mathlib.Tactic.Ring
import PoolKlines.Decimal.Quotient

/-!
# Values of decimals

* `Decimal.value` is the rational number that a decimal stands for;
* `same_iff_value_eq` and `sameOption_iff`: decimals are the same when their values are;
* `IsExtreme` is the greatest or the least of some decimals by value, which does not depend on their
  order;
* `exists_fit` and `exists_saturatingAdd`: a sum that needs no more than 96 bits at the larger scale
  is exact;
* `Units` says that a decimal is so many units of one size, and `Units.saturatingAdd` that these add
  up.
-/

namespace PoolKlines.Decimal

/-- The number that a decimal stands for. -/
def value (d : Decimal) : ℚ := d.coefficient / tenPow d.scale

@[simp] theorem value_zero : zero.value = 0 := by
  simp [value]

theorem cast_tenPow_ne_zero (k : Nat) : (tenPow k : ℚ) ≠ 0 :=
  Nat.cast_ne_zero.2 (tenPow_pos k).ne'

theorem tenPow_add (m n : Nat) : tenPow (m + n) = tenPow m * tenPow n := Nat.pow_add 10 m n

theorem same_iff_value_eq {a b : Decimal} : a.Same b ↔ a.value = b.value := by
  rw [value, value, div_eq_div_iff (cast_tenPow_ne_zero _) (cast_tenPow_ne_zero _), Same]
  exact_mod_cast Iff.rfl

theorem sameOption_iff {a b : Option Decimal} : SameOption a b ↔ a.map value = b.map value := by
  cases a <;> cases b <;> simp [SameOption, same_iff_value_eq]

theorem isZero_iff_value {d : Decimal} : d.IsZero ↔ d.value = 0 := by
  rw [isZero_iff_coefficient, value, div_eq_zero_iff]
  simp [(tenPow_pos d.scale).ne']

theorem SameOption.trans {a b c : Option Decimal} (hab : SameOption a b) (hbc : SameOption b c) :
    SameOption a c :=
  sameOption_iff.2 ((sameOption_iff.1 hab).trans (sameOption_iff.1 hbc))

/-- Two forms of one number: that at the larger scale has further zeros. -/
theorem Same.coefficient_eq {a b : Decimal} (h : a.Same b) (hle : a.scale ≤ b.scale) :
    b.coefficient = a.coefficient * tenPow (b.scale - a.scale) := by
  have hsplit : tenPow b.scale = tenPow (b.scale - a.scale) * tenPow a.scale := by
    rw [← tenPow_add, Nat.sub_add_cancel hle]
  have hpos : (0 : Int) < tenPow a.scale := Int.natCast_pos.2 (tenPow_pos _)
  refine (Int.eq_of_mul_eq_mul_right hpos.ne' ?_).symm
  rw [Same, hsplit, Nat.cast_mul, ← Int.mul_assoc] at h
  exact h

@[simp] theorem value_unsignedZero (d : Decimal) : d.unsignedZero.value = d.value := by
  rw [value, coefficient_unsignedZero]
  rfl

theorem lt_iff_value_lt {a b : Decimal} : a < b ↔ a.value < b.value := by
  rw [value, value, div_lt_div_iff₀ (Nat.cast_pos.2 (tenPow_pos _)) (Nat.cast_pos.2 (tenPow_pos _)),
    lt_def]
  exact_mod_cast Iff.rfl

/-! ### The greatest and the least -/

/-- Among some decimals, one that all of them are related to by value: with `≤` the greatest, with
`≥` the least. There is none only if there is no decimal at all. -/
def IsExtreme (rel : ℚ → ℚ → Prop) (ds : List Decimal) : Option Decimal → Prop
  | none => ds = []
  | some m => m ∈ ds ∧ ∀ d ∈ ds, rel d.value m.value

section IsExtreme

variable {rel : ℚ → ℚ → Prop} {ds es : List Decimal}

theorem IsExtreme.eq_none {x : Option Decimal} (h : IsExtreme rel [] x) : x = none := by
  cases x with
  | none => rfl
  | some m => exact absurd h.1 List.not_mem_nil

theorem IsExtreme.exists_eq_some {x : Option Decimal} (h : IsExtreme rel ds x) (hne : ds ≠ []) :
    ∃ m, x = some m ∧ m ∈ ds ∧ ∀ d ∈ ds, rel d.value m.value := by
  cases x with
  | none => exact absurd h hne
  | some m => exact ⟨m, rfl, h⟩

theorem isExtreme_singleton [Std.Refl rel] (d : Decimal) : IsExtreme rel [d] (some d) :=
  ⟨List.mem_cons_self, fun _ he => List.mem_singleton.1 he ▸ refl _⟩

/-- With one more decimal, the extreme is that of the old one and the new one. -/
theorem IsExtreme.concat [IsTrans ℚ rel] {m d e : Decimal} (h : IsExtreme rel ds (some m))
    (he : e = m ∨ e = d) (hm : rel m.value e.value) (hd : rel d.value e.value) :
    IsExtreme rel (ds ++ [d]) (some e) := by
  refine ⟨?_, fun c hc => ?_⟩
  · rcases he with rfl | rfl
    · exact List.mem_append_left _ h.1
    · exact List.mem_append_right ds List.mem_cons_self
  · rcases List.mem_append.1 hc with hc | hc
    · exact IsTrans.trans _ _ _ (h.2 c hc) hm
    · rw [List.mem_singleton.1 hc]
      exact hd

theorem IsExtreme.concat_max {m : Decimal} (h : IsExtreme (· ≤ ·) ds (some m)) (d : Decimal) :
    IsExtreme (· ≤ ·) (ds ++ [d]) (some (max m d)) := by
  rw [max_def]
  by_cases hlt : m < d
  · rw [if_pos hlt]
    exact h.concat (.inr rfl) (lt_iff_value_lt.1 hlt).le le_rfl
  · rw [if_neg hlt]
    exact h.concat (.inl rfl) le_rfl (not_lt.1 (mt lt_iff_value_lt.2 hlt))

theorem IsExtreme.concat_min {m : Decimal} (h : IsExtreme (· ≥ ·) ds (some m)) (d : Decimal) :
    IsExtreme (· ≥ ·) (ds ++ [d]) (some (min m d)) := by
  rw [min_def]
  by_cases hlt : d < m
  · rw [if_pos hlt]
    exact h.concat (.inr rfl) (lt_iff_value_lt.1 hlt).le le_rfl
  · rw [if_neg hlt]
    exact h.concat (.inl rfl) le_rfl (not_lt.1 (mt lt_iff_value_lt.2 hlt))

/-- In whatever order the decimals come, the extreme has the same value. -/
theorem IsExtreme.sameOption_of_perm [Std.Antisymm rel] {x y : Option Decimal}
    (hx : IsExtreme rel ds x) (hy : IsExtreme rel es y) (h : ds.Perm es) : SameOption x y := by
  by_cases hnil : ds = []
  · subst hnil
    obtain rfl : es = [] := h.nil_eq.symm
    rw [hx.eq_none, hy.eq_none]
    trivial
  · obtain ⟨l, rfl, hl, hle⟩ := hx.exists_eq_some hnil
    obtain ⟨m, rfl, hm, hle'⟩ := hy.exists_eq_some fun hes => hnil (h.trans (hes ▸ .nil)).eq_nil
    exact same_iff_value_eq.2 (antisymm (hle' l (h.mem_iff.1 hl)) (hle m (h.mem_iff.2 hm)))

theorem IsExtreme.map {f : Decimal → Decimal} (hf : ∀ d, (f d).value = d.value)
    {x : Option Decimal} (h : IsExtreme rel ds x) : IsExtreme rel (ds.map f) (x.map f) := by
  cases x with
  | none => exact List.map_eq_nil_iff.2 h
  | some m =>
    refine ⟨List.mem_map_of_mem h.1, fun d hd => ?_⟩
    obtain ⟨e, he, rfl⟩ := List.mem_map.1 hd
    rw [hf, hf]
    exact h.2 e he

end IsExtreme

/-! ### Exact sums -/

/-- A number that needs no rounding is fitted as it is. -/
theorem exists_fit {c : Int} {s : Nat} (hc : c.natAbs < bound) (hs : s ≤ 28) :
    ∃ d, fit c s = some d ∧ d.coefficient = c ∧ d.scale = s ∧ ¬ d.IsMinusZero := by
  have hnone : droppedDigits? c.natAbs s = some 0 := by
    rw [droppedDigits?, List.range_succ_eq_map, List.find?_cons_of_pos]
    simpa using ⟨hs, hc⟩
  unfold fit fitMagnitude
  split
  · rename_i h
    rw [hnone] at h
    cases h
  · rename_i k h
    rw [hnone] at h
    cases h
    refine ⟨_, rfl, ?_, rfl, ?_⟩
    · by_cases hneg : c < 0
      · simp [coefficient, hneg, abs_of_neg]
      · simp [coefficient, hneg, abs_of_nonneg (not_lt.1 hneg)]
    · rintro ⟨hneg, hzero⟩
      have hneg : c < 0 := of_decide_eq_true hneg
      have hzero : divHalfEven c.natAbs (tenPow 0) = 0 := hzero
      rw [tenPow_zero, divHalfEven_one, Int.natAbs_eq_zero] at hzero
      omega

/-- A sum of two numbers other than zero that needs no rounding is exact. -/
theorem exists_saturatingAdd {a b : Decimal} {c : Int} (ha : ¬ a.IsZero) (hb : ¬ b.IsZero)
    (hsum : a.coefficient * tenPow (max a.scale b.scale - a.scale) +
      b.coefficient * tenPow (max a.scale b.scale - b.scale) = c) (hc : c.natAbs < bound) :
    (a.saturatingAdd b).coefficient = c ∧ (a.saturatingAdd b).scale = max a.scale b.scale ∧
      ¬ (a.saturatingAdd b).IsMinusZero := by
  obtain ⟨d, hd, hcoefficient, hscale, hsign⟩ := exists_fit hc (max_le a.scale_le b.scale_le)
  have hadd : a.saturatingAdd b = d := by
    simp only [saturatingAdd, add?, if_neg ha, if_neg hb, hsum]
    rw [hd, Option.getD_some]
  rw [hadd]
  exact ⟨hcoefficient, hscale, hsign⟩

/-! ### Units of one size -/

/-- `d` is `n` units of the size that has `s` fractional digits. A zero may be written at another
scale. -/
structure Units (d : Decimal) (n s : Nat) : Prop where
  coefficient_eq : d.coefficient = n
  scale_eq : n ≠ 0 → d.scale = s

theorem units_zero (s : Nat) : zero.Units 0 s := ⟨rfl, fun h => absurd rfl h⟩

theorem units_ofRaw (raw : UInt64) (decimals : UInt8) :
    (ofRaw raw decimals).Units raw.toNat (min decimals.toNat 28) := ⟨rfl, fun _ => rfl⟩

theorem Units.isZero_iff {d : Decimal} {n s : Nat} (h : d.Units n s) : d.IsZero ↔ n = 0 := by
  rw [isZero_iff_coefficient, h.coefficient_eq, Nat.cast_eq_zero]

theorem Units.value_eq {d : Decimal} {n s : Nat} (h : d.Units n s) : d.value = n / tenPow s := by
  by_cases hn : n = 0
  · subst hn
    rw [value, h.coefficient_eq, Nat.cast_zero, Int.cast_zero, zero_div, Nat.cast_zero, zero_div]
  · rw [value, h.coefficient_eq, h.scale_eq hn, Int.cast_natCast]

/-- Units of one size add up as long as their number has room in 96 bits. -/
theorem Units.saturatingAdd {d e : Decimal} {m n s : Nat} (hd : d.Units m s) (he : e.Units n s)
    (h : m + n < bound) : (d.saturatingAdd e).Units (m + n) s := by
  by_cases hm : m = 0
  · have hadd : d.saturatingAdd e = e := by
      rw [PoolKlines.Decimal.saturatingAdd, add?_of_isZero_left (hd.isZero_iff.2 hm),
        Option.getD_some]
    rwa [hadd, hm, Nat.zero_add]
  by_cases hn : n = 0
  · have hadd : d.saturatingAdd e = d := by
      rw [PoolKlines.Decimal.saturatingAdd, add?, if_neg (mt hd.isZero_iff.1 hm),
        if_pos (he.isZero_iff.2 hn), Option.getD_some]
    rwa [hadd, hn, Nat.add_zero]
  have hscale : max d.scale e.scale = s := by rw [hd.scale_eq hm, he.scale_eq hn, max_self]
  obtain ⟨hsum, hsumScale, -⟩ := exists_saturatingAdd (c := ((m + n : Nat) : Int))
    (mt hd.isZero_iff.1 hm) (mt he.isZero_iff.1 hn) (by
      rw [hscale, hd.scale_eq hm, he.scale_eq hn, Nat.sub_self, tenPow_zero, hd.coefficient_eq,
        he.coefficient_eq]
      push_cast
      ring) (by rwa [Int.natAbs_natCast])
  exact ⟨hsum, fun _ => hsumScale.trans hscale⟩

end PoolKlines.Decimal
