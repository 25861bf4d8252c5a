import Mathlib.Algebra.Order.Field.Power
import Mathlib.Tactic.NormNum
import Mathlib.Tactic.Positivity
import PoolKlines.Proofs.Decimal.Value

/-!
# The range of quotients

Division brings digits down as long as they fit and then rounds once. So a quotient exists just if
the exact one is rounded to less than 96 bits, and it is other than zero just if the exact one is
more than half of the smallest decimal.

* `PartialQuotient.InRange`: the digits and the scale are those of a decimal;
* `exactQuotient` is the number that a division under way stands for. Bringing digits down does not
  change it (`exactQuotient_bringDown`);
* `Outcome` says what comes of a division by its exact quotient, with one lemma for each way in
  which it may end, and `outcome_extendQuotient` for the division as a whole;
* `isSome_div?_iff` and `value_pos_iff_of_div?` are about decimals. Division by whole numbers other
  than zero always gives a decimal (`isSome_div?_ofCount`), so that every mean of decimals exists.
-/

namespace PoolKlines.Decimal

/-- The digits and the scale of a decimal. -/
structure PartialQuotient.InRange (p : PartialQuotient) : Prop where
  digits_lt : p.digits < bound
  scale_nonneg : 0 ≤ p.scale
  scale_le : p.scale ≤ 28

theorem tenPow_le_tenPow {m n : Nat} (h : m ≤ n) : tenPow m ≤ tenPow n := by
  induction h with
  | refl => exact Nat.le_refl _
  | step _ ih => exact ih.trans (by rw [tenPow_succ]; omega)

/-- Appending as many digits as there is room for stays within 96 bits. -/
theorem mul_tenPow_headroom_lt {q : Nat} (hq : q < bound) (room : Nat) :
    q * tenPow (headroom q room) < bound := by
  induction room with
  | zero => simpa [headroom] using hq
  | succ room ih =>
    unfold headroom
    split
    · assumption
    · exact ih

theorem exists_dropLastDigit {q r : Nat} {s : Int} (hq : q < 2 * bound) (h1 : 1 ≤ s)
    (h28 : s ≤ 28) : ∃ p, dropLastDigit q r s = some p ∧ p.InRange := by
  rw [dropLastDigit, if_neg (by omega)]
  refine ⟨_, rfl, ?_, by simp only; omega, by simp only; omega⟩
  simp only
  split <;> simp only [bound] at hq ⊢ <;> omega

theorem cast_tenPow (k : Nat) : (tenPow k : ℚ) = 10 ^ k := by
  exact_mod_cast rfl

theorem cast_bound : (bound : ℚ) = 79228162514264337593543950336 := by
  norm_num [bound]

/-- If a digit more would still fit, then there is no room for it. -/
theorem bound_le_of_headroom_lt {q room : Nat} (h : headroom q room < room) :
    bound ≤ q * tenPow (headroom q room + 1) := by
  induction room with
  | zero => omega
  | succ room ih =>
    unfold headroom at h ⊢
    split
    · rename_i hfits
      rw [if_pos hfits] at h
      omega
    · rename_i hfull
      rw [if_neg hfull] at h
      rcases Nat.lt_succ_iff_lt_or_eq.1 h with hlt | heq
      · exact ih hlt
      · rw [heq]
        exact not_lt.1 hfull

/-- The number that the digits `q` with the remainder `r` by `d` stand for at a scale. -/
def exactQuotient (d q r : Nat) (s : Int) : ℚ := (q + r / d) * 10 ^ (-s)

/-- Bringing digits of the remainder down does not change the number. -/
theorem exactQuotient_bringDown {d : Nat} (hd : 0 < d) (q r block : Nat) (s : Int) :
    exactQuotient d (q * tenPow block + r * tenPow block / d) (r * tenPow block % d) (s + block) =
      exactQuotient d q r s := by
  have hd0 : (d : ℚ) ≠ 0 := Nat.cast_ne_zero.2 hd.ne'
  have hdivision : ((r * tenPow block / d : Nat) : ℚ) + ((r * tenPow block % d : Nat) : ℚ) / d =
      r * 10 ^ block / d := by
    rw [eq_div_iff hd0, add_mul, div_mul_cancel₀ _ hd0, ← cast_tenPow]
    exact_mod_cast Nat.div_add_mod' _ _
  calc
    exactQuotient d (q * tenPow block + r * tenPow block / d) (r * tenPow block % d) (s + block)
      = (q * 10 ^ block + (((r * tenPow block / d : Nat) : ℚ) +
          ((r * tenPow block % d : Nat) : ℚ) / d)) * 10 ^ (-(s + block)) := by
        rw [exactQuotient, ← cast_tenPow]
        push_cast
        ring
    _ = (q + r / d) * ((10 : ℚ) ^ block * 10 ^ (-(s + block))) := by
        rw [hdivision]
        ring
    _ = exactQuotient d q r s := by
        rw [exactQuotient, ← zpow_natCast, ← zpow_add₀ (by norm_num)]
        congr 2
        ring

/-- What comes of a division, by its exact quotient. -/
structure Outcome (exact : ℚ) (result : Option PartialQuotient) : Prop where
  isSome_iff : result.isSome ↔ exact < bound - 1 / 2
  inRange : ∀ p, result = some p → p.InRange
  pos_iff : ∀ p, result = some p → (0 < p.digits ↔ 1 / 2 < exact * 10 ^ 28)

theorem Outcome.of_none {exact : ℚ} (h : (bound : ℚ) - 1 / 2 ≤ exact) : Outcome exact none where
  isSome_iff := iff_of_false (by simp) (not_lt.2 h)
  inRange _ hp := nomatch hp
  pos_iff _ hp := nomatch hp

theorem Outcome.of_some {exact : ℚ} {p : PartialQuotient} (h : exact < bound - 1 / 2)
    (hrange : p.InRange) (hpos : 0 < p.digits ↔ 1 / 2 < exact * 10 ^ 28) :
    Outcome exact (some p) where
  isSome_iff := iff_of_true rfl h
  inRange _ hp := Option.some.inj hp ▸ hrange
  pos_iff _ hp := Option.some.inj hp ▸ hpos

/-! ### The ways in which a division ends -/

theorem zpow_neg_le_tenth {s : Int} (h : 1 ≤ s) : (10 : ℚ) ^ (-s) ≤ 1 / 10 := by
  have hle : (10 : ℚ) ^ (-s) ≤ 10 ^ (-1 : Int) := zpow_le_zpow_right₀ (by norm_num) (by omega)
  rwa [zpow_neg_one, ← one_div] at hle

/-- A number of at least one unit at a scale is no less than the smallest decimal. -/
theorem one_le_zpow_mul {s : Int} (h : s ≤ 28) : (1 : ℚ) ≤ 10 ^ (-s) * 10 ^ 28 := by
  rw [← zpow_natCast, ← zpow_add₀ (by norm_num)]
  exact one_le_zpow₀ (by norm_num) (by push_cast; omega)

/-- Digits of 97 bits give up the last one, if it is a fractional digit. -/
theorem outcome_dropLastDigit {q r : Nat} {s : Int} {exact : ℚ} (hq : bound ≤ q)
    (hq2 : q < 2 * bound) (h28 : s ≤ 28) (hle : ((bound : ℚ) - 1 / 2) * 10 ^ (-s) ≤ exact)
    (hlt : exact < 2 * bound * 10 ^ (-s)) : Outcome exact (dropLastDigit q r s) := by
  rw [cast_bound] at hle hlt
  by_cases hs : s < 1
  · rw [dropLastDigit, if_pos hs]
    refine .of_none ?_
    have hone : (1 : ℚ) ≤ 10 ^ (-s) := one_le_zpow₀ (by norm_num) (by omega)
    rw [cast_bound]
    linarith
  · obtain ⟨p, hp, hrange⟩ := exists_dropLastDigit (r := r) hq2 (not_lt.1 hs) h28
    have htenth := zpow_neg_le_tenth (not_lt.1 hs)
    have hunit := one_le_zpow_mul h28
    have hdigits : 0 < p.digits := by
      rw [dropLastDigit, if_neg hs] at hp
      cases hp
      simp only [bound] at hq ⊢
      split <;> omega
    rw [hp]
    refine .of_some ?_ hrange (iff_of_true hdigits ?_)
    · rw [cast_bound]
      linarith
    · linarith

/-- A number at a scale that needs no more than 96 bits is in range. -/
theorem outcome_of_lt {digits : Nat} {x : ℚ} {s : Int} (hx : 0 ≤ x) (hlt : x < bound - 1 / 2)
    (hdigits : digits < bound) (h0 : 0 ≤ s) (h28 : s ≤ 28)
    (hpos : 0 < digits ↔ 1 / 2 < x * (10 ^ (-s) * 10 ^ 28)) (inexact : Bool) :
    Outcome (x * 10 ^ (-s)) (some ⟨digits, s, inexact⟩) := by
  refine .of_some (lt_of_le_of_lt ?_ hlt) ⟨hdigits, h0, h28⟩ (by rwa [mul_assoc])
  exact mul_le_of_le_one_right hx (zpow_le_one_of_nonpos₀ (by norm_num) (by omega))

/-- Digits that take no further one are rounded on the remainder. -/
theorem outcome_roundLastDigit {d q r : Nat} {s : Int} (hr : r < d) (hq : q < bound) (h0 : 0 ≤ s)
    (h28 : s ≤ 28) (hfull : bound ≤ q * 10 ∨ s = 28) :
    Outcome (exactQuotient d q r s) (roundLastDigit d q r s) := by
  have hd : (0 : ℚ) < d := Nat.cast_pos.2 (by omega)
  have hfraction : (r : ℚ) / d < 1 := (div_lt_one hd).2 (Nat.cast_lt.2 hr)
  have hnonneg : (0 : ℚ) ≤ q + r / d := by positivity
  have hunit := one_le_zpow_mul h28
  have hpow : (0 : ℚ) < 10 ^ (-s) := zpow_pos (by norm_num) _
  unfold roundLastDigit exactQuotient
  by_cases hup : d < 2 * r ∨ (2 * r = d ∧ q % 2 = 1)
  · -- rounding up, and so from above one half
    have hhalf : (1 : ℚ) / 2 ≤ r / d := by
      rw [div_le_div_iff₀ (by norm_num) hd]
      exact_mod_cast (by omega : 1 * d ≤ r * 2)
    simp only [if_pos hup]
    by_cases hfit : q + 1 < bound
    · have hfit' : (q : ℚ) + 2 ≤ bound := by exact_mod_cast hfit
      rw [if_pos hfit]
      refine outcome_of_lt hnonneg (by linarith) hfit h0 h28 (iff_of_true (Nat.succ_pos q) ?_) true
      have hlarge : (1 : ℚ) / 2 < q + r / d := by
        rcases Nat.eq_zero_or_pos q with rfl | hq1
        · rw [Nat.cast_zero, zero_add, div_lt_div_iff₀ (by norm_num) hd]
          exact_mod_cast (by omega : 1 * d < r * 2)
        · have : (1 : ℚ) ≤ q := Nat.one_le_cast.2 hq1
          linarith
      exact hlarge.trans_le (le_mul_of_one_le_right hnonneg hunit)
    · have hlast : (q : ℚ) + 1 = bound := by exact_mod_cast (by omega : q + 1 = bound)
      rw [if_neg hfit]
      refine outcome_dropLastDigit (not_lt.1 hfit) (by simp only [bound] at hq ⊢; omega) h28 ?_ ?_
      · exact mul_le_mul_of_nonneg_right (by linarith) hpow.le
      · exact mul_lt_mul_of_pos_right (by linarith) hpow
  · -- rounding down, and so up to one half, which is left only by even digits
    have hhalf : (r : ℚ) / d ≤ 1 / 2 := by
      rw [div_le_div_iff₀ hd (by norm_num)]
      exact_mod_cast (by omega : r * 2 ≤ 1 * d)
    simp only [if_neg hup, if_pos hq]
    refine outcome_of_lt hnonneg ?_ hq h0 h28 ?_ true
    · rcases hhalf.lt_or_eq with hlt | heq
      · have : (q : ℚ) + 1 ≤ bound := by exact_mod_cast hq
        linarith
      · rw [div_eq_div_iff hd.ne' (by norm_num)] at heq
        have heven : r * 2 = 1 * d := by exact_mod_cast heq
        have : (q : ℚ) + 2 ≤ bound := by
          exact_mod_cast (by simp only [bound] at hq ⊢; omega : q + 2 ≤ bound)
        linarith
    · rcases Nat.eq_zero_or_pos q with rfl | hq1
      · -- no digit is left of a number below one unit at the last scale
        have hs : s = 28 := hfull.resolve_left (by decide)
        refine iff_of_false (lt_irrefl 0) (not_lt.2 ?_)
        rw [hs, Nat.cast_zero, zero_add]
        norm_num
        linarith
      · have : (1 : ℚ) ≤ q := Nat.one_le_cast.2 hq1
        have hlarge : (1 : ℚ) / 2 < q + r / d := by
          have : (0 : ℚ) ≤ r / d := by positivity
          linarith
        exact iff_of_true hq1 (hlarge.trans_le (le_mul_of_one_le_right hnonneg hunit))

/-- Digits whose scale would still be negative with more digits than fit are too many. -/
theorem bound_le_exactQuotient {d q r n : Nat} {s : Int} (h : bound ≤ q * tenPow n)
    (hn : s + n ≤ 0) : (bound : ℚ) ≤ exactQuotient d q r s := by
  have hn : (10 : ℚ) ^ n ≤ 10 ^ (-s) := by
    rw [← zpow_natCast]
    exact zpow_le_zpow_right₀ (by norm_num) (by omega)
  calc
    (bound : ℚ) ≤ q * 10 ^ n := by
      rw [← cast_tenPow]
      exact_mod_cast h
    _ ≤ q * 10 ^ (-s) := mul_le_mul_of_nonneg_left hn (Nat.cast_nonneg q)
    _ ≤ exactQuotient d q r s :=
      mul_le_mul_of_nonneg_right (le_add_of_nonneg_right (by positivity)) (by positivity)

/-! ### Division as a whole -/

/-- Digits brought down take no more than a bit beyond 96. -/
theorem bringDown_lt {d q r block : Nat} (hr : r < d) (hblock : block ≤ 9)
    (hfront : q * tenPow block < bound) :
    q * tenPow block + r * tenPow block / d < 2 * bound := by
  have hbrought : r * tenPow block / d < tenPow block := by
    rw [Nat.div_lt_iff_lt_mul (by omega), Nat.mul_comm (tenPow block)]
    exact Nat.mul_lt_mul_of_lt_of_le hr (Nat.le_refl _) (tenPow_pos _)
  have hfew : tenPow block ≤ tenPow 9 := tenPow_le_tenPow hblock
  have : tenPow 9 < bound := by decide
  omega

/-- What comes of long division from digits with a remainder. -/
theorem outcome_extendQuotient {d q r : Nat} {s : Int} (inexact : Bool) (hr : r < d)
    (hq : q < bound) (h28 : s ≤ 28) :
    Outcome (exactQuotient d q r s) (extendQuotient d q r s inexact) := by
  fun_induction extendQuotient d q r s inexact with
  | case1 q s inexact hneg block hfit ih =>
    have hsame := exactQuotient_bringDown hr q 0 block s
    rw [Nat.zero_mul, Nat.zero_div, Nat.zero_mod, Nat.add_zero] at hsame
    exact hsame ▸ ih hr hfit (by omega)
  | case2 q s inexact hneg block hfull =>
    refine .of_none ?_
    have := bound_le_exactQuotient (d := d) (r := 0) (s := s) (not_lt.1 hfull) (by omega)
    linarith
  | case3 q s inexact hnonneg =>
    have hzero : (q : ℚ) + ((0 : Nat) : ℚ) / d = q := by rw [Nat.cast_zero, zero_div, add_zero]
    have hfit : (q : ℚ) + 1 ≤ bound := by exact_mod_cast hq
    rw [exactQuotient, hzero]
    refine outcome_of_lt (Nat.cast_nonneg q) (by linarith) hq (not_lt.1 hnonneg) h28 ?_ inexact
    rcases Nat.eq_zero_or_pos q with rfl | hq1
    · exact iff_of_false (lt_irrefl 0) (by norm_num)
    · have hone : (1 : ℚ) ≤ q := Nat.one_le_cast.2 hq1
      have hunit := le_mul_of_one_le_right (Nat.cast_nonneg (α := ℚ) q) (one_le_zpow_mul h28)
      exact iff_of_true hq1 (by linarith)
  | case4 q r s inexact hr0 block htoo =>
    refine .of_none ?_
    have hfull : bound ≤ q * tenPow (block + 1) := bound_le_of_headroom_lt (by omega)
    have := bound_le_exactQuotient (d := d) (r := r) (s := s) hfull (by push_cast; omega)
    linarith
  | case5 q r s inexact hr0 block hroom hblock =>
    refine outcome_roundLastDigit hr hq (by omega) h28 ?_
    by_cases hs : s = 28
    · exact .inr hs
    · have hfull : bound ≤ q * tenPow (block + 1) := bound_le_of_headroom_lt (by omega)
      rw [hblock] at hfull
      exact .inl hfull
  | case6 q r s inexact hr0 block hroom hblock brought q' r' hq' ih =>
    have hle : block ≤ min 9 (28 - s).toNat := headroom_le _ _
    rw [← exactQuotient_bringDown (by omega) q r block s]
    exact ih (Nat.mod_lt _ (by omega)) hq' (by omega)
  | case7 q r s inexact hr0 block hroom hblock brought q' r' hq' =>
    have hle : block ≤ min 9 (28 - s).toNat := headroom_le _ _
    have hd : (0 : ℚ) < d := Nat.cast_pos.2 (by omega)
    have hpow : (0 : ℚ) < 10 ^ (-(s + block)) := zpow_pos (by norm_num) _
    have hfew := bringDown_lt hr (show block ≤ 9 by omega) (mul_tenPow_headroom_lt hq _)
    have hlow : (bound : ℚ) ≤ q' := by exact_mod_cast not_lt.1 hq'
    have hhigh : (q' : ℚ) + 1 ≤ 2 * bound := by exact_mod_cast hfew
    have hnonneg : (0 : ℚ) ≤ r' / d := by positivity
    have hfraction : (r' : ℚ) / d < 1 :=
      (div_lt_one hd).2 (Nat.cast_lt.2 (Nat.mod_lt _ (by omega)))
    rw [← exactQuotient_bringDown (by omega) q r block s]
    refine outcome_dropLastDigit (not_lt.1 hq') hfew (by omega) ?_ ?_
    · exact mul_le_mul_of_nonneg_right (by linarith) hpow.le
    · exact mul_lt_mul_of_pos_right (by linarith) hpow

/-! ### Trailing zeros -/

theorem dropZeros_le (k m : Nat) (digits : Nat × Nat) :
    (dropZeros k m digits).1 ≤ digits.1 ∧ (dropZeros k m digits).2 ≤ digits.2 := by
  unfold dropZeros
  split
  · exact ⟨Nat.div_le_self _ _, Nat.sub_le _ _⟩
  · exact ⟨Nat.le_refl _, Nat.le_refl _⟩

theorem trimZeros_le (digits : Nat × Nat) :
    (trimZeros digits).1 ≤ digits.1 ∧ (trimZeros digits).2 ≤ digits.2 := by
  have step : ∀ (k m : Nat) {e : Nat × Nat}, e.1 ≤ digits.1 ∧ e.2 ≤ digits.2 →
      (dropZeros k m e).1 ≤ digits.1 ∧ (dropZeros k m e).2 ≤ digits.2 := fun k m e he =>
    ⟨(dropZeros_le k m e).1.trans he.1, (dropZeros_le k m e).2.trans he.2⟩
  exact step _ _ (step _ _ (step _ _ (step _ _ (step _ _ (step _ _ ⟨le_rfl, le_rfl⟩)))))

theorem isSome_ofParts? {c : Int} {s : Nat} (hc : c.natAbs < bound) (hs : s ≤ 28) :
    (ofParts? c s).isSome := by
  rw [ofParts?, ofMagnitude?, dif_pos ⟨hc, hs⟩]
  rfl

theorem pos_dropZeros (k m : Nat) (digits : Nat × Nat) :
    0 < (dropZeros k m digits).1 ↔ 0 < digits.1 := by
  unfold dropZeros
  split
  · rename_i h
    rw [Nat.div_pos_iff]
    refine ⟨fun h => (tenPow_pos k).trans_le h.2, fun hpos => ⟨tenPow_pos k, ?_⟩⟩
    exact Nat.le_of_dvd hpos (Nat.dvd_of_mod_eq_zero h.2.2)
  · rfl

theorem pos_trimZeros (digits : Nat × Nat) : 0 < (trimZeros digits).1 ↔ 0 < digits.1 := by
  simp only [trimZeros, pos_dropZeros]

/-- The digits that are left without trailing zeros are still those of a decimal. -/
theorem PartialQuotient.InRange.trimmed {p : PartialQuotient} (h : p.InRange) :
    let digits :=
      if p.inexact then trimZeros (p.digits, p.scale.toNat) else (p.digits, p.scale.toNat)
    digits.1 < bound ∧ digits.2 ≤ 28 ∧ (0 < digits.1 ↔ 0 < p.digits) := by
  have hscale : p.scale.toNat ≤ 28 := by
    have := h.scale_le
    omega
  intro digits
  by_cases hinexact : p.inexact
  · have hle := trimZeros_le (p.digits, p.scale.toNat)
    rw [show digits = _ from if_pos hinexact]
    exact ⟨hle.1.trans_lt h.digits_lt, hle.2.trans hscale, pos_trimZeros _⟩
  · rw [show digits = _ from if_neg hinexact]
    exact ⟨h.digits_lt, hscale, Iff.rfl⟩

/-! ### Quotients of decimals -/

theorem abs_value (d : Decimal) : |d.value| = d.magnitude / tenPow d.scale := by
  rw [value, abs_div, Nat.abs_cast, ← natAbs_coefficient, Nat.cast_natAbs, Int.cast_abs]

/-- Division begins with the exact quotient. -/
theorem exactQuotient_eq {a b : Decimal} (hb : ¬ b.IsZero) :
    exactQuotient b.magnitude (a.magnitude / b.magnitude) (a.magnitude % b.magnitude)
      (a.scale - b.scale) = |a.value / b.value| := by
  have hd : (b.magnitude : ℚ) ≠ 0 := Nat.cast_ne_zero.2 hb
  have hdivision : ((a.magnitude / b.magnitude : Nat) : ℚ) +
      ((a.magnitude % b.magnitude : Nat) : ℚ) / b.magnitude = a.magnitude / b.magnitude := by
    rw [eq_div_iff hd, add_mul, div_mul_cancel₀ _ hd]
    exact_mod_cast Nat.div_add_mod' _ _
  rw [exactQuotient, hdivision, abs_div, abs_value, abs_value, cast_tenPow, cast_tenPow, neg_sub,
    zpow_sub₀ (by norm_num), zpow_natCast, zpow_natCast]
  field_simp

/-- What division by a decimal other than zero gives. -/
theorem div?_spec (a : Decimal) {b : Decimal} (hb : ¬ b.IsZero) :
    ((a.div? b).isSome ↔ |a.value / b.value| < bound - 1 / 2) ∧
      ∀ q, a.div? b = some q → ∃ digits : Nat,
        q.coefficient = a.coefficient.sign * b.coefficient.sign * digits ∧
          (0 < digits ↔ 1 / 2 < |a.value / b.value| * 10 ^ 28) := by
  unfold div?
  rw [if_neg hb]
  by_cases ha : a.IsZero
  · rw [if_pos ha, isZero_iff_value.1 ha, zero_div, abs_zero]
    refine ⟨iff_of_true rfl (by norm_num [cast_bound]), ?_⟩
    rintro q ⟨⟩
    exact ⟨0, by simp, iff_of_false (lt_irrefl 0) (by norm_num)⟩
  · rw [if_neg ha]
    have hdigits : a.magnitude / b.magnitude < bound :=
      (Nat.div_le_self _ _).trans_lt a.magnitude_lt
    have houtcome := outcome_extendQuotient false
      (Nat.mod_lt a.magnitude (Nat.pos_of_ne_zero hb)) hdigits
      (s := a.scale - b.scale) (by have := a.scale_le; omega)
    rw [exactQuotient_eq hb] at houtcome
    simp only
    cases hresult : extendQuotient b.magnitude (a.magnitude / b.magnitude)
        (a.magnitude % b.magnitude) (a.scale - b.scale) false with
    | none =>
      rw [hresult] at houtcome
      rw [Option.bind_none]
      exact ⟨houtcome.isSome_iff, fun q hq => nomatch hq⟩
    | some p =>
      rw [hresult] at houtcome
      obtain ⟨hlt, hle, hpos⟩ := (houtcome.inRange p rfl).trimmed
      have hsign : (a.coefficient.sign * b.coefficient.sign).natAbs ≤ 1 := by
        rw [← Int.sign_mul, Int.natAbs_sign]
        split <;> omega
      simp only [Option.bind_some]
      refine ⟨iff_of_true (isSome_ofParts? ?_ hle) (houtcome.isSome_iff.1 rfl), fun q hq => ?_⟩
      · rw [Int.natAbs_mul, Int.natAbs_natCast]
        exact ((Nat.mul_le_mul_right _ hsign).trans (Nat.one_mul _).le).trans_lt hlt
      · exact ⟨_, (ofParts?_eq_some.1 hq).1, hpos.trans (houtcome.pos_iff p rfl)⟩

theorem isSome_div?_iff (a : Decimal) {b : Decimal} (hb : ¬ b.IsZero) :
    (a.div? b).isSome ↔ |a.value / b.value| < bound - 1 / 2 :=
  (div?_spec a hb).1

theorem value_pos_iff {d : Decimal} : 0 < d.value ↔ 0 < d.coefficient := by
  rw [value, div_pos_iff_of_pos_right (Nat.cast_pos.2 (tenPow_pos _)), Int.cast_pos]

/-- A quotient of positive decimals has the digits that are left, and these are no digits at all
just if the exact quotient is no more than half of the smallest decimal. -/
theorem exists_digits_of_div? {a b q : Decimal} (ha : 0 < a.value) (hb : 0 < b.value)
    (hq : a.div? b = some q) :
    ∃ digits : Nat, q.coefficient = digits ∧
      (0 < digits ↔ 1 / 2 < a.value / b.value * 10 ^ 28) := by
  obtain ⟨digits, hdigits, hpos⟩ := (div?_spec a (mt isZero_iff_value.1 hb.ne')).2 q hq
  rw [Int.sign_eq_one_of_pos (value_pos_iff.1 ha), Int.sign_eq_one_of_pos (value_pos_iff.1 hb),
    one_mul, one_mul] at hdigits
  rw [abs_of_pos (div_pos ha hb)] at hpos
  exact ⟨digits, hdigits, hpos⟩

theorem value_nonneg_of_div? {a b q : Decimal} (ha : 0 < a.value) (hb : 0 < b.value)
    (hq : a.div? b = some q) : 0 ≤ q.value := by
  obtain ⟨digits, hdigits, -⟩ := exists_digits_of_div? ha hb hq
  rw [value, hdigits]
  positivity

/-- A quotient of positive decimals is positive, unless it is rounded to zero. -/
theorem value_pos_iff_of_div? {a b q : Decimal} (ha : 0 < a.value) (hb : 0 < b.value)
    (hq : a.div? b = some q) : 0 < q.value ↔ 1 / 2 < a.value / b.value * 10 ^ 28 := by
  obtain ⟨digits, hdigits, hpos⟩ := exists_digits_of_div? ha hb hq
  rw [value_pos_iff, hdigits, Int.natCast_pos, hpos]

theorem abs_value_le (d : Decimal) : |d.value| ≤ bound - 1 := by
  have hmagnitude : (d.magnitude : ℚ) + 1 ≤ bound := by exact_mod_cast d.magnitude_lt
  have hone : (1 : ℚ) ≤ tenPow d.scale := by exact_mod_cast tenPow_pos d.scale
  rw [abs_value]
  exact (div_le_self (Nat.cast_nonneg _) hone).trans (by linarith)

@[simp] theorem value_ofCount (n : UInt64) : (ofCount n).value = n.toNat := by
  simp [value, ofCount, coefficient]

/-- A quotient by a whole number other than zero exists. -/
theorem isSome_div?_ofCount (a : Decimal) {n : UInt64} (hn : n ≠ 0) :
    (a.div? (ofCount n)).isSome := by
  have hpos : 0 < n.toNat := Nat.pos_of_ne_zero fun h => hn (UInt64.toNat_inj.1 h)
  have hone : (1 : ℚ) ≤ n.toNat := Nat.one_le_cast.2 hpos
  have hzero : ¬ (ofCount n).IsZero := hpos.ne'
  rw [isSome_div?_iff a hzero, value_ofCount, abs_div, Nat.abs_cast]
  have hle := div_le_self (abs_nonneg a.value) hone
  have hbound := a.abs_value_le
  linarith

end PoolKlines.Decimal
