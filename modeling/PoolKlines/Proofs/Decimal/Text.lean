import Mathlib.Data.List.TakeWhile
import PoolKlines.Decimal.Text

/-!
# Decimals read back from their text

* `scanDigits_whole` and `scanDigits_fraction`: digits in front of the point and behind it are read
  onto the coefficient, as long as it has room in 96 bits;
* `paddedDigits` has the value of the magnitude, and one digit more than the scale or more;
* `parse_toText`: the text of a decimal is read as the same number at the same scale, without the
  sign of a zero.
-/

namespace PoolKlines.Decimal

theorem digit?_of_isDigit {c : Char} (h : c.isDigit = true) :
    digit? c = some (c.toNat - '0'.toNat) := by
  rw [digit?, if_pos h]

theorem le_ofDigitChars (ds : List Char) (m : Nat) : m ≤ Nat.ofDigitChars 10 ds m := by
  rw [Nat.ofDigitChars_eq_ofDigitChars_zero]
  exact Nat.le_trans (Nat.le_mul_of_pos_left m (Nat.pow_pos (by decide))) (Nat.le_add_right _ _)

/-- One digit is read onto the coefficient, and the others follow unless the scale is full. -/
theorem scanDigits_cons {c : Char} (hc : c.isDigit = true) {m s : Nat} {point seen : Bool}
    {rest : List Char} (hbound : 10 * m + (c.toNat - '0'.toNat) < bound)
    (hroom : (if point then s + 1 else s) = 28 → rest = []) :
    scanDigits m s point seen (c :: rest) =
      scanDigits (10 * m + (c.toNat - '0'.toNat)) (if point then s + 1 else s) point true rest := by
  rw [Nat.mul_comm 10 m] at hbound ⊢
  rw [scanDigits, digit?_of_isDigit hc]
  simp only [if_pos hbound]
  by_cases hfull : (if point then s + 1 else s) = 28
  · rw [if_pos hfull, hroom hfull]
    simp [decidingRest, roundOnRest, scanDigits]
  · rw [if_neg hfull]

/-- The digits in front of the point. -/
theorem scanDigits_whole {ds : List Char} (hds : ∀ c ∈ ds, c.isDigit = true) {m : Nat}
    (hbound : Nat.ofDigitChars 10 ds m < bound) (seen : Bool) (rest : List Char) :
    scanDigits m 0 false seen (ds ++ rest) =
      scanDigits (Nat.ofDigitChars 10 ds m) 0 false (seen || !ds.isEmpty) rest := by
  induction ds generalizing m seen with
  | nil => simp
  | cons c ds ih =>
    obtain ⟨hc, hds⟩ := List.forall_mem_cons.1 hds
    rw [Nat.ofDigitChars_cons] at hbound ⊢
    have hstep : 10 * m + (c.toNat - '0'.toNat) < bound :=
      Nat.lt_of_le_of_lt (le_ofDigitChars ds _) hbound
    have hempty : (if false then 0 + 1 else 0) = 28 → ds ++ rest = [] := fun h => by simp at h
    rw [List.cons_append, scanDigits_cons hc hstep hempty]
    simpa using ih hds hbound true

/-- The digits behind the point, all of which have room in the scale. -/
theorem scanDigits_fraction {ds : List Char} (hds : ∀ c ∈ ds, c.isDigit = true) {m s : Nat}
    (hbound : Nat.ofDigitChars 10 ds m < bound) (hs : s + ds.length ≤ 28) :
    scanDigits m s true true ds = .ok (Nat.ofDigitChars 10 ds m, s + ds.length) := by
  induction ds generalizing m s with
  | nil => simp [scanDigits]
  | cons c ds ih =>
    obtain ⟨hc, hds⟩ := List.forall_mem_cons.1 hds
    rw [Nat.ofDigitChars_cons] at hbound ⊢
    have hstep : 10 * m + (c.toNat - '0'.toNat) < bound :=
      Nat.lt_of_le_of_lt (le_ofDigitChars ds _) hbound
    rw [List.length_cons] at hs ⊢
    have hroom : (if true then s + 1 else s) = 28 → ds = [] := by
      rw [if_pos rfl]
      exact fun h => List.eq_nil_of_length_eq_zero (by omega)
    rw [scanDigits_cons hc hstep hroom, if_pos rfl, ih hds hbound (by omega), Nat.add_assoc,
      Nat.add_comm 1]

/-! ### The written digits -/

theorem isDigit_of_mem_paddedDigits {d : Decimal} {c : Char} (h : c ∈ d.paddedDigits) :
    c.isDigit = true := by
  rw [paddedDigits, List.mem_append] at h
  rcases h with h | h
  · rw [List.eq_of_mem_replicate h]
    rfl
  · exact Nat.isDigit_of_mem_toDigits (by decide) (by decide) h

theorem ofDigitChars_paddedDigits (d : Decimal) :
    Nat.ofDigitChars 10 d.paddedDigits 0 = d.magnitude := by
  rw [paddedDigits, Nat.ofDigitChars_append, Nat.ofDigitChars_replicate_zero, Nat.mul_zero,
    Nat.ofDigitChars_ten_toDigits]

theorem scale_lt_length_paddedDigits (d : Decimal) : d.scale < d.paddedDigits.length := by
  simp only [paddedDigits, List.length_append, List.length_replicate]
  omega

/-- The digits in front of the point. -/
def wholeDigits (d : Decimal) : List Char :=
  d.paddedDigits.take (d.paddedDigits.length - d.scale)

/-- The digits behind the point. -/
def fractionDigits (d : Decimal) : List Char :=
  d.paddedDigits.drop (d.paddedDigits.length - d.scale)

/-- The written form without the sign. -/
def unsignedChars (d : Decimal) : List Char :=
  if d.scale = 0 then d.wholeDigits else d.wholeDigits ++ '.' :: d.fractionDigits

theorem toList_toText (d : Decimal) :
    d.toText.toList = if d.negative then '-' :: d.unsignedChars else d.unsignedChars := by
  rw [toText, String.toList_ofList]
  rfl

theorem isDigit_of_mem_wholeDigits {d : Decimal} : ∀ c ∈ d.wholeDigits, c.isDigit = true :=
  fun _ h => isDigit_of_mem_paddedDigits (List.mem_of_mem_take h)

theorem isDigit_of_mem_fractionDigits {d : Decimal} : ∀ c ∈ d.fractionDigits, c.isDigit = true :=
  fun _ h => isDigit_of_mem_paddedDigits (List.mem_of_mem_drop h)

theorem wholeDigits_ne_nil (d : Decimal) : d.wholeDigits ≠ [] := by
  have hlength := d.scale_lt_length_paddedDigits
  intro h
  have hzero := congrArg List.length h
  rw [wholeDigits, List.length_take, List.length_nil] at hzero
  omega

theorem length_fractionDigits (d : Decimal) : d.fractionDigits.length = d.scale := by
  have hlength := d.scale_lt_length_paddedDigits
  rw [fractionDigits, List.length_drop]
  omega

theorem ofDigitChars_fractionDigits (d : Decimal) :
    Nat.ofDigitChars 10 d.fractionDigits (Nat.ofDigitChars 10 d.wholeDigits 0) = d.magnitude := by
  rw [← Nat.ofDigitChars_append, wholeDigits, fractionDigits, List.take_append_drop,
    ofDigitChars_paddedDigits]

/-! ### Reading the written form -/

theorem scanDigits_unsignedChars (d : Decimal) :
    scanDigits 0 0 false false d.unsignedChars = .ok (d.magnitude, d.scale) := by
  have hvalue :
      Nat.ofDigitChars 10 d.fractionDigits (Nat.ofDigitChars 10 d.wholeDigits 0) < bound :=
    d.ofDigitChars_fractionDigits ▸ d.magnitude_lt
  have hwhole : Nat.ofDigitChars 10 d.wholeDigits 0 < bound :=
    Nat.lt_of_le_of_lt (le_ofDigitChars _ _) hvalue
  have hseen : (false || !d.wholeDigits.isEmpty) = true := by simp [d.wholeDigits_ne_nil]
  have hfraction := scanDigits_fraction isDigit_of_mem_fractionDigits (s := 0) hvalue
    (by rw [length_fractionDigits, Nat.zero_add]; exact d.scale_le)
  rw [ofDigitChars_fractionDigits, length_fractionDigits, Nat.zero_add] at hfraction
  unfold unsignedChars
  split
  next hscale =>
    have hnil : d.fractionDigits = [] :=
      List.eq_nil_of_length_eq_zero (d.length_fractionDigits.trans hscale)
    have hmagnitude := d.ofDigitChars_fractionDigits
    rw [hnil, Nat.ofDigitChars_nil] at hmagnitude
    have hread := scanDigits_whole isDigit_of_mem_wholeDigits hwhole false []
    rw [List.append_nil, hseen, hmagnitude] at hread
    rw [hread, hscale]
    rfl
  next =>
    have hpoint : digit? '.' = none := rfl
    rw [scanDigits_whole isDigit_of_mem_wholeDigits hwhole, hseen, scanDigits, hpoint]
    simpa using hfraction

/-- A text that begins with a digit has no sign. -/
theorem scanSigned_of_isDigit {c : Char} (hc : c.isDigit = true) (rest : List Char) :
    scanSigned (c :: rest) =
      (scanDigits 0 0 false false (c :: rest)).map fun (m, s) => ((m : Int), s) := by
  rw [scanSigned]
  · exact List.cons_ne_nil c rest
  · rintro _ ⟨⟩
    exact absurd hc (by decide)
  · rintro _ ⟨⟩
    exact absurd hc (by decide)

theorem exists_unsignedChars_eq_cons (d : Decimal) :
    ∃ c rest, d.unsignedChars = c :: rest ∧ c.isDigit = true := by
  obtain ⟨c, rest, hwhole⟩ := List.exists_cons_of_ne_nil d.wholeDigits_ne_nil
  have hc : c.isDigit = true := isDigit_of_mem_wholeDigits c (hwhole ▸ List.mem_cons_self)
  unfold unsignedChars
  rw [hwhole]
  split
  · exact ⟨c, rest, rfl, hc⟩
  · exact ⟨c, _, rfl, hc⟩

theorem scanSigned_toText (d : Decimal) :
    scanSigned d.toText.toList = .ok (d.coefficient, d.scale) := by
  rw [toList_toText, coefficient]
  split
  · rw [scanSigned, scanDigits_unsignedChars]
    rfl
  · obtain ⟨c, rest, hchars, hc⟩ := d.exists_unsignedChars_eq_cons
    rw [hchars, scanSigned_of_isDigit hc, ← hchars, scanDigits_unsignedChars]
    rfl

theorem parsePlain_toText (d : Decimal) : parsePlain d.toText.toList = .ok d.unsignedZero := by
  have hparts : ofParts? d.coefficient d.scale = some d.unsignedZero :=
    ofParts?_eq_some.2 ⟨d.coefficient_unsignedZero, rfl, d.not_isMinusZero_unsignedZero⟩
  rw [parsePlain, scanSigned_toText]
  simp only [bind, Except.bind, hparts]
  rfl

theorem ne_exponentMark_of_isDigit {c : Char} (hc : c.isDigit = true) : c ≠ 'e' ∧ c ≠ 'E' :=
  ⟨by rintro rfl; exact absurd hc (by decide), by rintro rfl; exact absurd hc (by decide)⟩

/-- No exponent is written. -/
theorem ne_exponentMark_of_mem_toText {d : Decimal} {c : Char} (h : c ∈ d.toText.toList) :
    c ≠ 'e' ∧ c ≠ 'E' := by
  have hunsigned : ∀ c ∈ d.unsignedChars, c ≠ 'e' ∧ c ≠ 'E' := by
    intro c hc
    unfold unsignedChars at hc
    split at hc
    · exact ne_exponentMark_of_isDigit (isDigit_of_mem_wholeDigits c hc)
    · rcases List.mem_append.1 hc with hc | hc
      · exact ne_exponentMark_of_isDigit (isDigit_of_mem_wholeDigits c hc)
      · rcases List.mem_cons.1 hc with rfl | hc
        · decide
        · exact ne_exponentMark_of_isDigit (isDigit_of_mem_fractionDigits c hc)
  rw [toList_toText] at h
  split at h
  · rcases List.mem_cons.1 h with rfl | h
    · decide
    · exact hunsigned c h
  · exact hunsigned c h

/-- The text of a decimal is read as the same number at the same scale. -/
theorem parse_toText (d : Decimal) : parse d.toText = .ok d.unsignedZero := by
  have hplain : ∀ c ∈ d.toText.toList, (!(c == 'e' || c == 'E')) = true := by
    intro c hc
    obtain ⟨he, hE⟩ := ne_exponentMark_of_mem_toText hc
    simp [he, hE]
  rw [parse, parseChars, List.takeWhile_eq_self_iff.2 hplain, List.dropWhile_eq_nil_iff.2 hplain,
    parsePlain_toText]
  rfl

end PoolKlines.Decimal
