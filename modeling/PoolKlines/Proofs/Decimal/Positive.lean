import PoolKlines.Kline.Rollup
import PoolKlines.Proofs.Decimal.Quotient

/-!
# Means of positive decimals

Rounding and saturation never take a mean of positive decimals down to zero. A sum gives up digits
only when it is large, and so it is at least as many of the smallest decimal as there are summands,
up to the largest number that a counter holds.

* `value_saturatingAdd`: a sum of decimals that are not negative is exact or large;
* `Decimal.AtLeast` is kept by adding a positive decimal;
* `AtLeast.value_pos_of_div?` and `value_pos_of_meanOf?`: the means are positive.
-/

namespace PoolKlines

theorem div_le_divHalfEven (n d : Nat) : n / d ≤ divHalfEven n d := by
  unfold divHalfEven
  dsimp only
  split <;> omega

theorem divHalfEven_le (n d : Nat) : divHalfEven n d ≤ n / d + 1 := by
  unfold divHalfEven
  dsimp only
  split <;> omega

namespace Decimal

/-! ### Sums -/

/-- A decimal of so many digits that even a tenth of them is large. -/
theorem large_of_dropped {m k : Nat} (h : bound ≤ divHalfEven m (tenPow k)) :
    2 ^ 64 ≤ divHalfEven m (tenPow (k + 1)) := by
  have hle := h.trans (divHalfEven_le m (tenPow k))
  have htenth : m / tenPow (k + 1) = m / tenPow k / 10 := by
    rw [Nat.div_div_eq_div_mul, tenPow_succ, Nat.mul_comm]
  have hfew := div_le_divHalfEven m (tenPow (k + 1))
  simp only [bound] at hle
  omega

theorem value_of_not_negative {d : Decimal} (h : d.negative = false) :
    d.value = d.magnitude / tenPow d.scale := by
  rw [value, coefficient, h]
  rfl

theorem coefficient_nonneg {d : Decimal} (h : 0 ≤ d.value) : 0 ≤ d.coefficient := by
  rw [value, le_div_iff₀ (Nat.cast_pos.2 (tenPow_pos _)), zero_mul] at h
  exact_mod_cast h

/-- The sum of two decimals is that of their coefficients at the larger scale. -/
theorem value_add (a b : Decimal) :
    ((a.coefficient * tenPow (max a.scale b.scale - a.scale) +
      b.coefficient * tenPow (max a.scale b.scale - b.scale) : Int) : ℚ) /
        tenPow (max a.scale b.scale) = a.value + b.value := by
  have hsplit {d : Decimal} {s : Nat} (h : d.scale ≤ s) :
      ((d.coefficient * tenPow (s - d.scale) : Int) : ℚ) / tenPow s = d.value := by
    have hs : tenPow s = tenPow (s - d.scale) * tenPow d.scale := by
      rw [← tenPow_add, Nat.sub_add_cancel h]
    have hne := cast_tenPow_ne_zero (s - d.scale)
    rw [hs, value]
    push_cast
    field_simp
  rw [Int.cast_add, add_div, hsplit (le_max_left _ _), hsplit (le_max_right _ _)]

/-- A number that is not negative is fitted exactly, or as a large decimal. -/
theorem value_fitMagnitude {m s : Nat} (hs : s ≤ 28) {d : Decimal}
    (h : fitMagnitude false m s = some d) :
    d.value = m / tenPow s ∨ 2 ^ 64 ≤ d.value * 10 ^ 28 := by
  unfold fitMagnitude at h
  split at h
  · cases h
  · rename_i k hk
    cases h
    rw [value_of_not_negative rfl]
    dsimp only
    obtain _ | k := k
    · rw [tenPow_zero, divHalfEven_one, Nat.sub_zero]
      exact .inl rfl
    · -- one digit less was too little
      have hless : bound ≤ divHalfEven m (tenPow k) := by
        have hminimal := (List.find?_range_eq_some.1 hk).2.2 k (Nat.lt_succ_self k)
        simp only [Bool.not_eq_true', decide_eq_false_iff_not, not_and, not_lt] at hminimal
        exact hminimal (by omega)
      have hlarge : (2 : ℚ) ^ 64 ≤ divHalfEven m (tenPow (k + 1)) := by
        exact_mod_cast large_of_dropped hless
      have hscale : (tenPow (s - (k + 1)) : ℚ) ≤ 10 ^ 28 := by
        exact_mod_cast tenPow_le_tenPow (show s - (k + 1) ≤ 28 by omega)
      have hpos : (0 : ℚ) < tenPow (s - (k + 1)) := Nat.cast_pos.2 (tenPow_pos _)
      refine .inr (hlarge.trans ?_)
      rw [div_mul_eq_mul_div, le_div_iff₀ hpos]
      exact mul_le_mul_of_nonneg_left hscale (Nat.cast_nonneg _)

/-- A sum of decimals that are not negative is exact, or large since it has given up digits. -/
theorem value_saturatingAdd {a b : Decimal} (ha : 0 ≤ a.value) (hb : 0 ≤ b.value) :
    (a.saturatingAdd b).value = a.value + b.value ∨
      2 ^ 64 ≤ (a.saturatingAdd b).value * 10 ^ 28 := by
  by_cases hazero : a.IsZero
  · rw [saturatingAdd, add?_of_isZero_left hazero, isZero_iff_value.1 hazero, zero_add]
    exact .inl rfl
  by_cases hbzero : b.IsZero
  · rw [saturatingAdd, add?, if_neg hazero, if_pos hbzero, isZero_iff_value.1 hbzero, add_zero]
    exact .inl rfl
  have hadd := value_add a b
  have hscale : max a.scale b.scale ≤ 28 := max_le a.scale_le b.scale_le
  have hnonneg : 0 ≤ a.coefficient * tenPow (max a.scale b.scale - a.scale) +
      b.coefficient * tenPow (max a.scale b.scale - b.scale) :=
    Int.add_nonneg (Int.mul_nonneg (coefficient_nonneg ha) (Int.natCast_nonneg _))
      (Int.mul_nonneg (coefficient_nonneg hb) (Int.natCast_nonneg _))
  simp only [saturatingAdd, add?, if_neg hazero, if_neg hbzero]
  generalize a.coefficient * tenPow (max a.scale b.scale - a.scale) +
    b.coefficient * tenPow (max a.scale b.scale - b.scale) = c at hadd hnonneg
  obtain ⟨m, rfl⟩ := Int.eq_ofNat_of_zero_le hnonneg
  rw [fit, decide_eq_false (not_lt.2 hnonneg), Int.natAbs_natCast]
  cases hfit : fitMagnitude false m (max a.scale b.scale) with
  | none =>
    -- the sum is beyond all decimals
    have hpos : 0 < a.coefficient := value_pos_iff.1 (lt_of_le_of_ne ha fun h =>
      hazero (isZero_iff_value.2 h.symm))
    rw [Option.getD_none, if_pos hpos, value_of_not_negative rfl]
    exact .inr (by norm_num [largest, bound])
  | some d =>
    rw [Option.getD_some, ← hadd]
    exact value_fitMagnitude hscale hfit

/-! ### Counting the smallest decimal -/

/-- The decimal is at least so many times the smallest one, or at least as often as a counter can
count. -/
def AtLeast (d : Decimal) (n : Nat) : Prop := min (n : ℚ) (2 ^ 64) ≤ d.value * 10 ^ 28

theorem atLeast_zero : zero.AtLeast 0 := by
  simp [AtLeast]

/-- A positive decimal is at least the smallest one. -/
theorem one_le_of_value_pos {d : Decimal} (h : 0 < d.value) : 1 ≤ d.value * 10 ^ 28 := by
  have hone : (1 : ℚ) ≤ d.coefficient := by
    exact_mod_cast (value_pos_iff.1 h : 0 < d.coefficient)
  have hscale : (tenPow d.scale : ℚ) ≤ 10 ^ 28 := by
    exact_mod_cast tenPow_le_tenPow d.scale_le
  have hpos : (0 : ℚ) < tenPow d.scale := Nat.cast_pos.2 (tenPow_pos _)
  rw [value, div_mul_eq_mul_div, le_div_iff₀ hpos, one_mul]
  exact hscale.trans (le_mul_of_one_le_left (by norm_num) hone)

theorem AtLeast.nonneg {d : Decimal} {n : Nat} (h : d.AtLeast n) : 0 ≤ d.value := by
  have hmin : (0 : ℚ) ≤ min (n : ℚ) (2 ^ 64) := le_min (Nat.cast_nonneg n) (by norm_num)
  have := hmin.trans h
  linarith

/-- A positive decimal adds at least one. -/
theorem AtLeast.saturatingAdd {d e : Decimal} {n : Nat} (h : d.AtLeast n) (he : 0 < e.value) :
    (d.saturatingAdd e).AtLeast (n + 1) := by
  unfold AtLeast at h ⊢
  rcases value_saturatingAdd (AtLeast.nonneg h) he.le with hexact | hlarge
  · have hone := one_le_of_value_pos he
    rw [hexact, add_mul]
    push_cast
    rcases min_le_iff.1 h with hn | hfull
    · exact min_le_iff.2 (.inl (by linarith))
    · exact min_le_iff.2 (.inr (by linarith))
  · exact min_le_iff.2 (.inr hlarge)

theorem AtLeast.foldl_saturatingAdd {d : Decimal} {n : Nat} (h : d.AtLeast n) {ds : List Decimal}
    (hds : ∀ e ∈ ds, 0 < e.value) :
    (ds.foldl PoolKlines.Decimal.saturatingAdd d).AtLeast (n + ds.length) := by
  induction ds generalizing d n with
  | nil => exact h
  | cons e ds ih =>
    obtain ⟨he, hds⟩ := List.forall_mem_cons.1 hds
    rw [List.length_cons, ← Nat.add_assoc, Nat.add_right_comm]
    exact ih (h.saturatingAdd he) hds

/-- Divided by its number of summands, such a sum is positive. -/
theorem AtLeast.value_pos_of_div? {d q : Decimal} {n : Nat} (h : d.AtLeast n)
    (hq : d.div? (ofCount (UInt64.ofNat n)) = some q) : 0 < q.value := by
  have hzero : ¬ (ofCount (UInt64.ofNat n)).IsZero := by
    intro hzero
    rw [div?_of_isZero hzero] at hq
    cases hq
  have hcount : 0 < (UInt64.ofNat n).toNat := Nat.pos_of_ne_zero hzero
  have hpos : (0 : ℚ) < (UInt64.ofNat n).toNat := Nat.cast_pos.2 hcount
  have hle : ((UInt64.ofNat n).toNat : ℚ) ≤ d.value * 10 ^ 28 := by
    refine (le_min ?_ ?_).trans h
    · exact_mod_cast Nat.mod_le n (2 ^ 64)
    · exact_mod_cast (UInt64.ofNat n).toNat_lt.le
  have hdpos : 0 < d.value := by
    have := hpos.trans_le hle
    linarith
  have hcountPos : 0 < (ofCount (UInt64.ofNat n)).value := by rwa [value_ofCount]
  rw [value_pos_iff_of_div? hdpos hcountPos hq, value_ofCount, div_mul_eq_mul_div]
  have hone := (one_le_div hpos).2 hle
  linarith

end Decimal

/-- The mean of positive decimals is positive. -/
theorem value_pos_of_meanOf? {values : List Decimal} {mean : Decimal}
    (h : ∀ value ∈ values, 0 < value.value) (hmean : meanOf? values = some mean) :
    0 < mean.value := by
  have hsum := Decimal.atLeast_zero.foldl_saturatingAdd h
  rw [Nat.zero_add] at hsum
  exact hsum.value_pos_of_div? hmean

end PoolKlines
