import PoolKlines.Kline.Rollup
import PoolKlines.Proofs.Decimal.Value

/-!
# Means of equal decimals

The mean of several forms of one number is that number, as long as so many times the digits of each
form have room in 96 bits. A longer sum is rounded, and then the mean may be another number.

* `Decimal.TimesForm` says that a sum is a multiple of a form in the list;
* `exists_div?_of_times`: dividing such a sum gives the number back;
* `sameOption_meanOf?`: the mean.
-/

namespace PoolKlines

namespace Decimal

/-- `d` is `n` times the number `f`, written at the scale of `f`. -/
structure TimesForm (n : Nat) (d f : Decimal) : Prop where
  coefficient_eq : d.coefficient = n * f.coefficient
  scale_eq : d.scale = f.scale

/-- Adding another form of a number to a multiple of it gives the next multiple, written at the
scale of one of the two forms. -/
theorem TimesForm.saturatingAdd {n : Nat} {d f g : Decimal} (hd : TimesForm n d f) (hn : 0 < n)
    (h : f.Same g) (hf : (n + 1) * f.magnitude < bound) (hg : (n + 1) * g.magnitude < bound) :
    TimesForm (n + 1) (d.saturatingAdd g) f ∨ TimesForm (n + 1) (d.saturatingAdd g) g := by
  obtain ⟨hc, hs⟩ := hd
  by_cases hzero : d.IsZero
  · -- then the number is zero
    have hf0 : f.coefficient = 0 := by
      rw [isZero_iff_coefficient, hc, mul_eq_zero] at hzero
      exact hzero.resolve_left (Int.natCast_pos.2 hn).ne'
    have hg0 : g.coefficient = 0 := by
      have hvalue := isZero_iff_value.1 ((isZero_iff_coefficient f).2 hf0)
      rw [same_iff_value_eq.1 h, ← isZero_iff_value, isZero_iff_coefficient] at hvalue
      exact hvalue
    have hadd : d.saturatingAdd g = g := by
      rw [PoolKlines.Decimal.saturatingAdd, add?_of_isZero_left hzero, Option.getD_some]
    exact .inr ⟨by rw [hadd, hg0, mul_zero], by rw [hadd]⟩
  · have hf0 : f.coefficient ≠ 0 := fun h0 => hzero <| by
      rw [isZero_iff_coefficient, hc, h0, mul_zero]
    have hg0 : ¬ g.IsZero := by
      rwa [isZero_iff_value, ← same_iff_value_eq.1 h, ← isZero_iff_value, isZero_iff_coefficient]
    have hroom : ∀ e : Decimal, (n + 1) * e.magnitude < bound →
        (((n + 1 : Nat) : Int) * e.coefficient).natAbs < bound := fun e he => by
      rwa [Int.natAbs_mul, natAbs_coefficient, Int.natAbs_natCast]
    rcases le_total f.scale g.scale with hle | hle
    · obtain ⟨hsum, hscale, -⟩ := exists_saturatingAdd (c := ((n + 1 : Nat) : Int) * g.coefficient)
        hzero hg0 (by
          rw [hs, max_eq_right hle, hc, Nat.sub_self, tenPow_zero, mul_assoc,
            ← h.coefficient_eq hle]
          push_cast
          ring) (hroom g hg)
      exact .inr ⟨hsum, by rw [hscale, hs, max_eq_right hle]⟩
    · have hsame : g.Same f := Eq.symm h
      obtain ⟨hsum, hscale, -⟩ := exists_saturatingAdd (c := ((n + 1 : Nat) : Int) * f.coefficient)
        hzero hg0 (by
          rw [hs, max_eq_left hle, hc, Nat.sub_self, tenPow_zero, ← hsame.coefficient_eq hle]
          push_cast
          ring) (hroom f hf)
      exact .inl ⟨hsum, by rw [hscale, hs, max_eq_left hle]⟩

/-- A sum of forms of one number is a multiple of one of them. -/
theorem exists_timesForm_foldl {f : Decimal} {forms : List Decimal} {n room : Nat} {d : Decimal}
    (hd : TimesForm n d f) (hn : 0 < n) (hsame : ∀ g ∈ forms, f.Same g)
    (hroom : n + forms.length ≤ room) (hf : room * f.magnitude < bound)
    (hforms : ∀ g ∈ forms, room * g.magnitude < bound) :
    ∃ g, f.Same g ∧ TimesForm (n + forms.length) (forms.foldl Decimal.saturatingAdd d) g := by
  induction forms generalizing n d f with
  | nil => exact ⟨f, Eq.refl _, hd⟩
  | cons g forms ih =>
    obtain ⟨hg, hsame⟩ := List.forall_mem_cons.1 hsame
    obtain ⟨hgroom, hforms⟩ := List.forall_mem_cons.1 hforms
    rw [List.length_cons] at hroom ⊢
    have hnext : ∀ e : Decimal, room * e.magnitude < bound → (n + 1) * e.magnitude < bound :=
      fun e he => (Nat.mul_le_mul_right _ (by omega)).trans_lt he
    have hcount : n + (forms.length + 1) = n + 1 + forms.length := by omega
    rw [hcount]
    rcases hd.saturatingAdd hn hg (hnext f hf) (hnext g hgroom) with hd | hd
    · exact ih hd (Nat.succ_pos n) hsame (by omega) hf hforms
    · have hother : ∀ e ∈ forms, g.Same e := fun e he =>
        same_iff_value_eq.2 ((same_iff_value_eq.1 hg).symm.trans (same_iff_value_eq.1 (hsame e he)))
      obtain ⟨e, he, htimes⟩ := ih hd (Nat.succ_pos n) hother (by omega) hgroom hforms
      exact ⟨e, same_iff_value_eq.2 ((same_iff_value_eq.1 hg).trans (same_iff_value_eq.1 he)),
        htimes⟩

/-- Dividing a multiple of a number gives the number back. -/
theorem TimesForm.exists_div? {n : UInt64} {d f : Decimal} (hd : TimesForm n.toNat d f)
    (hn : n ≠ 0) : ∃ q, d.div? (ofCount n) = some q ∧ q.Same f := by
  obtain ⟨hc, hs⟩ := hd
  have hpos : 0 < n.toNat := Nat.pos_of_ne_zero fun h => hn (UInt64.toNat_inj.1 h)
  unfold div?
  rw [if_neg (show ¬ (ofCount n).IsZero from hpos.ne')]
  by_cases hzero : d.IsZero
  · rw [if_pos hzero]
    refine ⟨zero, rfl, same_iff_value_eq.2 ?_⟩
    rw [isZero_iff_coefficient, hc, mul_eq_zero] at hzero
    have hf0 := hzero.resolve_left (Int.natCast_pos.2 hpos).ne'
    rw [value_zero, value, hf0, Int.cast_zero, zero_div]
  · rw [if_neg hzero]
    -- the division leaves no remainder
    have hmagnitude : d.magnitude = n.toNat * f.magnitude := by
      rw [← natAbs_coefficient d, hc, Int.natAbs_mul, natAbs_coefficient, Int.natAbs_natCast]
    have hcount : (ofCount n).magnitude = n.toNat := rfl
    have hone : (ofCount n).scale = 0 := rfl
    have hquotient : extendQuotient n.toNat f.magnitude 0 (f.scale : Int) false =
        some ⟨f.magnitude, f.scale, false⟩ := by
      unfold extendQuotient
      rw [if_pos rfl, if_neg (by omega)]
    have hsign : d.coefficient.sign * (ofCount n).coefficient.sign * f.magnitude =
        f.coefficient := by
      rw [hc, coefficient_ofCount, Int.sign_mul, Int.sign_natCast_of_ne_zero hpos.ne', one_mul,
        mul_one, ← natAbs_coefficient f, Int.sign_mul_natAbs]
    simp only [hmagnitude, hcount, hone, hs, Nat.mul_div_cancel_left _ hpos,
      Nat.mul_mod_right, Nat.cast_zero, sub_zero, hquotient, Option.bind_some, Bool.false_eq_true,
      if_false, Int.toNat_natCast, hsign]
    refine ⟨f.unsignedZero, ofParts?_eq_some.2 ⟨coefficient_unsignedZero f, rfl,
      not_isMinusZero_unsignedZero f⟩, ?_⟩
    rw [Same, coefficient_unsignedZero]
    rfl

end Decimal

/-- **The mean of equal numbers.** The mean of forms of one number is this number, if its digits in
each form have room in 96 bits when taken as often as there are forms. -/
theorem sameOption_meanOf? {forms : List Decimal} {d : Decimal} (hne : forms ≠ [])
    (hlength : forms.length < UInt64.size) (hsame : ∀ f ∈ forms, f.Same d)
    (hroom : ∀ f ∈ forms, forms.length * f.magnitude < Decimal.bound) :
    Decimal.SameOption (meanOf? forms) (some d) := by
  obtain ⟨f, forms, rfl⟩ := List.exists_cons_of_ne_nil hne
  obtain ⟨hf, hsame⟩ := List.forall_mem_cons.1 hsame
  obtain ⟨hfroom, hroom⟩ := List.forall_mem_cons.1 hroom
  have hothers : ∀ g ∈ forms, f.Same g := fun g hg => Decimal.same_iff_value_eq.2
    ((Decimal.same_iff_value_eq.1 hf).trans (Decimal.same_iff_value_eq.1 (hsame g hg)).symm)
  obtain ⟨g, hg, htimes⟩ := Decimal.exists_timesForm_foldl (n := 1) (d := f)
    ⟨by rw [Nat.cast_one, one_mul], rfl⟩ Nat.one_pos hothers (Nat.add_comm _ _).le hfroom hroom
  have hcount : (UInt64.ofNat (f :: forms).length).toNat = 1 + forms.length := by
    rw [UInt64.toNat_ofNat_of_lt' hlength, List.length_cons, Nat.add_comm]
  have hnonzero : UInt64.ofNat (f :: forms).length ≠ 0 := by
    intro h
    have hzero := congrArg UInt64.toNat h
    rw [hcount] at hzero
    simp at hzero
  rw [← hcount] at htimes
  obtain ⟨q, hq, hvalue⟩ := htimes.exists_div? hnonzero
  rw [meanOf?, List.foldl_cons, Decimal.zero_saturatingAdd, hq]
  exact Decimal.same_iff_value_eq.2 (((Decimal.same_iff_value_eq.1 hvalue).trans
    (Decimal.same_iff_value_eq.1 hg).symm).trans (Decimal.same_iff_value_eq.1 hf))

end PoolKlines
