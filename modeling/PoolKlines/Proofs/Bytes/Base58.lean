import Mathlib.Data.List.Induction
import Mathlib.Data.List.TakeWhile
import PoolKlines.Bytes.Base58

/-!
# Reading base58 is the inverse of writing

* `digitsOf_ofDigits`: the digits of a number are those that it was made of, without leading zeros;
* `rebase` carries digits to another base, each leading zero to a zero, and `rebase_rebase` carries
  them back;
* `decode?_encode` and `encode_of_decode?`: bytes are read back from their text, and a text is
  written as it was read.
-/

namespace PoolKlines

theorem dropWhile_concat {α : Type} (p : α → Bool) (l : List α) (a : α) :
    (l ++ [a]).dropWhile p =
      if l.dropWhile p = [] then [a].dropWhile p else l.dropWhile p ++ [a] := by
  rw [List.dropWhile_append]
  cases l.dropWhile p <;> rfl

section Digits

variable {base other : Nat} {digits : List Nat}

theorem ofDigits_eq_zero_iff (hbase : 2 ≤ base) :
    ofDigits base digits = 0 ↔ digits.dropWhile (· == 0) = [] := by
  induction digits using List.reverseRecOn with
  | nil => simp
  | append_singleton digits d ih =>
    rw [ofDigits_concat, dropWhile_concat, Nat.add_eq_zero_iff, Nat.mul_eq_zero, ih]
    by_cases hzero : digits.dropWhile (· == 0) = []
    · by_cases hd : d = 0 <;> simp [hzero, hd]
    · simp [hzero]
      omega

/-- The digits of a number are those that it was made of, without leading zeros. -/
theorem digitsOf_ofDigits (hbase : 2 ≤ base) (hlt : ∀ d ∈ digits, d < base) :
    digitsOf base (ofDigits base digits) = digits.dropWhile (· == 0) := by
  induction digits using List.reverseRecOn with
  | nil => simp
  | append_singleton digits d ih =>
    have hd : d < base := hlt d (by simp)
    have ih := ih fun e he => hlt e (List.mem_append_left _ he)
    rw [ofDigits_concat, dropWhile_concat]
    unfold digitsOf
    have hdiv : (ofDigits base digits * base + d) / base = ofDigits base digits := by
      rw [Nat.mul_comm, Nat.mul_add_div (by omega), Nat.div_eq_of_lt hd, Nat.add_zero]
    have hmod : (ofDigits base digits * base + d) % base = d := by
      rw [Nat.mul_comm, Nat.mul_add_mod, Nat.mod_eq_of_lt hd]
    rw [hdiv, hmod, ih]
    by_cases hzero : digits.dropWhile (· == 0) = []
    · have hnumber := (ofDigits_eq_zero_iff hbase).2 hzero
      by_cases hd0 : d = 0 <;> simp [hzero, hnumber, hd0]
      omega
    · have hnumber := mt (ofDigits_eq_zero_iff hbase).1 hzero
      have hsum : ofDigits base digits * base + d ≠ 0 := by
        rw [Ne, Nat.add_eq_zero_iff, Nat.mul_eq_zero]
        omega
      rw [if_neg (by omega), if_neg hzero]

theorem digitsOf_lt (hbase : 2 ≤ base) (n : Nat) : ∀ d ∈ digitsOf base n, d < base := by
  induction n using Nat.strongRecOn with
  | ind n ih =>
    unfold digitsOf
    split
    · simp
    · intro d hd
      rcases List.mem_append.1 hd with hd | hd
      · exact ih (n / base) (Nat.div_lt_self (by omega) (by omega)) d hd
      · rw [List.mem_singleton.1 hd]
        exact Nat.mod_lt n (by omega)

/-- The digits of a number have no leading zeros. -/
theorem takeWhile_digitsOf (hbase : 2 ≤ base) (n : Nat) :
    (digitsOf base n).takeWhile (· == 0) = [] := by
  have hdrop := digitsOf_ofDigits hbase (digitsOf_lt hbase n)
  rw [ofDigits_digitsOf hbase] at hdrop
  have hsplit := List.takeWhile_append_dropWhile (p := (· == 0)) (l := digitsOf base n)
  rwa [← hdrop, List.append_left_eq_self] at hsplit

/-- Digits in another base, where each leading zero becomes a zero. -/
def rebase (base other : Nat) (digits : List Nat) : List Nat :=
  digits.takeWhile (· == 0) ++ digitsOf other (ofDigits base digits)

theorem ofDigits_append_of_zeros {zeros : List Nat} (h : ∀ d ∈ zeros, d = 0) :
    ofDigits base (zeros ++ digits) = ofDigits base digits := by
  induction zeros with
  | nil => rfl
  | cons d zeros ih =>
    obtain ⟨rfl, hzeros⟩ := List.forall_mem_cons.1 h
    rw [← ih hzeros]
    simp [ofDigits]

/-- Digits are carried back from another base. -/
theorem rebase_rebase (hbase : 2 ≤ base) (hother : 2 ≤ other) (hlt : ∀ d ∈ digits, d < base) :
    rebase other base (rebase base other digits) = digits := by
  have hzeros : ∀ d ∈ digits.takeWhile (· == 0), d = 0 := fun d hd => by
    simpa using List.mem_takeWhile_imp hd
  have hleading : (rebase base other digits).takeWhile (· == 0) = digits.takeWhile (· == 0) := by
    rw [rebase, List.takeWhile_append_of_pos fun d hd => by simp [hzeros d hd],
      takeWhile_digitsOf hother, List.append_nil]
  have hnumber : ofDigits other (rebase base other digits) = ofDigits base digits := by
    rw [rebase, ofDigits_append_of_zeros hzeros, ofDigits_digitsOf hother]
  rw [rebase, hleading, hnumber, digitsOf_ofDigits hbase hlt, List.takeWhile_append_dropWhile]

theorem rebase_lt (hother : 2 ≤ other) (base : Nat) (digits : List Nat) :
    ∀ d ∈ rebase base other digits, d < other := by
  intro d hd
  rcases List.mem_append.1 hd with hd | hd
  · have hzero : d = 0 := by simpa using List.mem_takeWhile_imp hd
    omega
  · exact digitsOf_lt hother _ d hd

end Digits

namespace Base58

theorem value?_symbol {n : Nat} (h : n < 58) : value? (symbol n) = some n := by
  revert n
  decide

theorem value?_eq_some {c : Char} {n : Nat} : value? c = some n ↔ n < 58 ∧ c = symbol n := by
  constructor
  · intro h
    obtain ⟨hn, hc, -⟩ := List.idxOf?_eq_some_iff.1 h
    have hlt : n < 58 := hn
    refine ⟨hlt, ?_⟩
    rw [symbol, List.getD_eq_getElem?_getD, List.getElem?_eq_getElem hn, Option.getD_some, hc]
  · rintro ⟨hn, rfl⟩
    exact value?_symbol hn

theorem symbol_eq_one_iff {n : Nat} (h : n < 58) : symbol n = '1' ↔ n = 0 := by
  revert n
  decide

/-- A text is read as some values just if it is written in their symbols. -/
theorem mapM_value?_eq_some {text : List Char} {values : List Nat} :
    text.mapM value? = some values ↔ (∀ v ∈ values, v < 58) ∧ text = values.map symbol := by
  induction text generalizing values with
  | nil =>
    cases values <;> simp
  | cons c text ih =>
    simp only [List.mapM_cons, Option.bind_eq_bind, Option.bind_eq_some_iff, value?_eq_some, ih,
      Option.pure_def, Option.some.injEq]
    constructor
    · rintro ⟨v, ⟨hv, rfl⟩, rest, ⟨hrest, rfl⟩, rfl⟩
      exact ⟨List.forall_mem_cons.2 ⟨hv, hrest⟩, rfl⟩
    · rintro ⟨hlt, htext⟩
      obtain ⟨v, rest, rfl, rfl, rfl⟩ := List.map_eq_cons_iff.1 htext.symm
      obtain ⟨hv, hrest⟩ := List.forall_mem_cons.1 hlt
      exact ⟨v, ⟨hv, rfl⟩, rest, ⟨hrest, rfl⟩, rfl⟩

theorem encode_eq (bytes : List UInt8) :
    encode bytes = String.ofList ((rebase 256 58 (bytes.map UInt8.toNat)).map symbol) := by
  have hzeros : ∀ l : List UInt8, (l.takeWhile (· == 0)).map (fun _ => '1') =
      ((l.map UInt8.toNat).takeWhile (· == 0)).map symbol := by
    intro l
    induction l with
    | nil => rfl
    | cons b l ih =>
      by_cases hb : b = 0
      · subst hb
        exact congrArg ('1' :: ·) ih
      · have hnat : b.toNat ≠ 0 := fun h => hb (UInt8.toNat_inj.1 h)
        simp [hb, hnat]
  simp only [encode, rebase, List.map_append, hzeros]

theorem decode?_eq_some {text : String} {bytes : List UInt8} :
    decode? text = some bytes ↔ ∃ values, (∀ v ∈ values, v < 58) ∧
      text = String.ofList (values.map symbol) ∧
      bytes = (rebase 58 256 values).map UInt8.ofNat := by
  have hzeros : ∀ {values : List Nat}, (∀ v ∈ values, v < 58) →
      ((values.map symbol).takeWhile (· == '1')).map (fun _ => (0 : UInt8)) =
        (values.takeWhile (· == 0)).map UInt8.ofNat := by
    intro values hlt
    induction values with
    | nil => rfl
    | cons v values ih =>
      obtain ⟨hv, hrest⟩ := List.forall_mem_cons.1 hlt
      by_cases hzero : v = 0
      · subst hzero
        exact congrArg ((0 : UInt8) :: ·) (ih hrest)
      · simp [hzero, mt (symbol_eq_one_iff hv).1 hzero]
  simp only [decode?, Option.bind_eq_bind, Option.bind_eq_some_iff, mapM_value?_eq_some,
    Option.pure_def, Option.some.injEq]
  constructor
  · rintro ⟨values, ⟨hlt, htext⟩, rfl⟩
    refine ⟨values, hlt, ?_, ?_⟩
    · rw [← htext, String.ofList_toList]
    · rw [htext, hzeros hlt, rebase, List.map_append]
  · rintro ⟨values, hlt, rfl, rfl⟩
    refine ⟨values, ⟨hlt, String.toList_ofList⟩, ?_⟩
    rw [String.toList_ofList, hzeros hlt, rebase, List.map_append]

/-- Bytes are read back from their text. -/
theorem decode?_encode (bytes : List UInt8) : decode? (encode bytes) = some bytes := by
  have hlt : ∀ d ∈ bytes.map UInt8.toNat, d < 256 := fun d hd => by
    obtain ⟨b, -, rfl⟩ := List.mem_map.1 hd
    exact b.toNat_lt
  refine decode?_eq_some.2 ⟨_, rebase_lt (by decide) 256 _, encode_eq bytes, ?_⟩
  rw [rebase_rebase (by decide) (by decide) hlt, List.map_map]
  exact (List.map_id' bytes).symm.trans (List.map_congr_left fun b _ => UInt8.ofNat_toNat.symm)

/-- A text is written as it was read. -/
theorem encode_of_decode? {text : String} {bytes : List UInt8} (h : decode? text = some bytes) :
    encode bytes = text := by
  obtain ⟨values, hlt, rfl, rfl⟩ := decode?_eq_some.1 h
  have hbytes : ((rebase 58 256 values).map UInt8.ofNat).map UInt8.toNat =
      rebase 58 256 values := by
    rw [List.map_map]
    refine (List.map_congr_left fun d hd => ?_).trans (List.map_id' _)
    exact UInt8.toNat_ofNat_of_lt' (rebase_lt (by decide) 58 _ d hd)
  rw [encode_eq, hbytes, rebase_rebase (by decide) (by decide) hlt]

end Base58

end PoolKlines
