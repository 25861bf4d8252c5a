import Mathlib.Data.List.TakeWhile
import PoolKlines.Json.Parser

/-!
# JSON values read back from their text

* `readString_quote`: a string in quotes is read back, whatever characters it holds;
* `readNumber_renderInt`: a whole number is read back, if the text after it does not go on as a
  number;
* `Plain` holds of values without fractions and half surrogate pairs, which are all that records are
  written with;
* `parse_render`: a plain value is read back from its text.
-/

namespace PoolKlines.Json

/-! ### Strings -/

theorem hexValue?_hexDigit {n : Nat} (h : n < 16) : hexValue? (hexDigit n) = some n := by
  have hall : ∀ n < 16, hexValue? (hexDigit n) = some n := by decide
  exact hall n h

theorem hexUnit?_escape {n : Nat} (h : n < 32) :
    hexUnit? '0' '0' (hexDigit (n / 16)) (hexDigit (n % 16)) = some n := by
  have hzero : hexValue? '0' = some 0 := by decide
  rw [hexUnit?, hzero, hexValue?_hexDigit (by omega), hexValue?_hexDigit (by omega)]
  simp only [Option.bind_eq_bind, Option.bind_some, Option.pure_def, Option.some.injEq]
  omega

/-- What an escaped character is read as: a code unit if it is written as one. -/
def piece (c : Char) : Piece :=
  if c.toNat < 32 ∧ c ≠ '\n' ∧ c ≠ '\r' ∧ c ≠ '\t' ∧ c.toNat ≠ 8 ∧ c.toNat ≠ 12 then .unit c.toNat
  else .char c

/-- A character that needs no escape is read as it stands. -/
theorem readPieces_cons {c : Char} (hquote : c ≠ '"') (hslash : c ≠ '\\') (h : 32 ≤ c.toNat)
    (rest : List Char) :
    readPieces (c :: rest) =
      (readPieces rest).map fun (pieces, rest) => (.char c :: pieces, rest) := by
  rw [readPieces]
  · exact if_neg (by omega)
  all_goals simp_all

/-- A one-letter escape is read as the character it stands for. -/
theorem readPieces_short {letter c : Char} (h : shortEscape? letter = some c) (rest : List Char) :
    readPieces ('\\' :: letter :: rest) =
      (readPieces rest).map fun (pieces, rest) => (.char c :: pieces, rest) := by
  rw [readPieces, h]
  rintro _ _ _ _ _ rfl
  cases h

theorem readPieces_escape (c : Char) (rest : List Char) :
    readPieces (escape c ++ rest) =
      (readPieces rest).map fun (pieces, rest) => (piece c :: pieces, rest) := by
  have hofNat {n : Nat} (h : c.toNat = n) : Char.ofNat n = c := h ▸ Char.ofNat_toNat c
  unfold escape
  split
  next h => subst h; exact readPieces_short rfl rest
  split
  next h => subst h; exact readPieces_short rfl rest
  split
  next h => subst h; exact readPieces_short rfl rest
  split
  next h => subst h; exact readPieces_short rfl rest
  split
  next h => subst h; exact readPieces_short rfl rest
  split
  next h => rw [← hofNat h]; exact readPieces_short rfl rest
  split
  next h => rw [← hofNat h]; exact readPieces_short rfl rest
  split
  next h =>
    have hpiece : piece c = .unit c.toNat := if_pos (by simp_all)
    rw [List.cons_append, List.cons_append, List.cons_append, List.cons_append, List.cons_append,
      List.cons_append, List.nil_append, readPieces, hexUnit?_escape h, hpiece]
  next hquote hslash _ _ _ _ _ h =>
    have hpiece : piece c = .char c := if_neg (by omega)
    rw [hpiece]
    exact readPieces_cons hquote hslash (by omega) rest

theorem readPieces_flatMap (text rest : List Char) :
    readPieces (text.flatMap escape ++ '"' :: rest) = some (text.map piece, rest) := by
  induction text with
  | nil => rfl
  | cons c text ih =>
    rw [List.flatMap_cons, List.append_assoc, readPieces_escape, ih]
    rfl

/-- A code unit outside the halves of surrogate pairs stands for a character. -/
theorem joinPieces?_unit {unit : Nat} (h : unit < 0xd800) (rest : List Piece) :
    joinPieces? (.unit unit :: rest) = (joinPieces? rest).map (Char.ofNat unit :: ·) := by
  have hhigh : isHighHalf unit = false := by simp [isHighHalf]; omega
  have hlow : isLowHalf unit = false := by simp [isLowHalf]; omega
  rcases rest with _ | ⟨_ | _, rest⟩ <;> simp [joinPieces?, hhigh, hlow]

theorem joinPieces?_map (text : List Char) : joinPieces? (text.map piece) = some text := by
  induction text with
  | nil => rfl
  | cons c text ih =>
    rw [List.map_cons, piece]
    split
    next hunit =>
      rw [joinPieces?_unit (by omega), ih, Char.ofNat_toNat]
      rfl
    next => rw [joinPieces?, ih]; rfl

/-- A string in quotes is read back. -/
theorem readString_quote (text : String) (rest : List Char) :
    ∃ inner, quote text ++ rest = '"' :: inner ∧ readString inner = some (some text, rest) := by
  refine ⟨text.toList.flatMap escape ++ '"' :: rest, by simp [quote], ?_⟩
  rw [readString, readPieces_flatMap]
  simp only [Option.map_some, joinPieces?_map, String.ofList_toList]

/-! ### Whole numbers -/

/-- The text does not go on as a number. -/
def EndsNumber (text : List Char) : Prop :=
  ∀ c ∈ text.head?, c.isDigit = false ∧ c ≠ '.' ∧ c ≠ 'e' ∧ c ≠ 'E'

theorem digitsValue_eq_ofDigitChars (digits : List Char) :
    digitsValue digits = Nat.ofDigitChars 10 digits 0 := by
  simp only [digitsValue, Nat.ofDigitChars, Nat.mul_comm]

theorem toDigits_eq_cons (n : Nat) :
    ∃ c digits, Nat.toDigits 10 n = c :: digits ∧ c.isDigit = true := by
  obtain ⟨c, digits, h⟩ := List.exists_cons_of_ne_nil (Nat.toDigits_ne_nil : Nat.toDigits 10 n ≠ [])
  have hc : c ∈ Nat.toDigits 10 n := h ▸ List.mem_cons_self
  exact ⟨c, digits, h, Nat.isDigit_of_mem_toDigits (by decide) (by decide) hc⟩

theorem eq_zero_of_head?_toDigits {n : Nat} (h : (Nat.toDigits 10 n).head? = some '0') : n = 0 := by
  induction n using Nat.strongRecOn with
  | ind n ih =>
    by_cases hn : n < 10
    · have hall : ∀ n < 10, n.digitChar = '0' → n = 0 := by decide
      rw [Nat.toDigits_of_lt_base hn] at h
      exact hall n hn (Option.some.inj h)
    · obtain ⟨c, digits, hdigits, -⟩ := toDigits_eq_cons (n / 10)
      rw [Nat.toDigits_of_base_le (by decide) (by omega), hdigits] at h
      have hzero : n / 10 = 0 := ih (n / 10) (by omega) (by rw [hdigits]; exact h)
      omega

theorem readDigits_append {digits rest : List Char} (hdigits : ∀ c ∈ digits, c.isDigit = true)
    (hne : digits ≠ []) (hrest : ∀ c ∈ rest.head?, c.isDigit = false) :
    readDigits (digits ++ rest) = some (digits, rest) := by
  have htake : (digits ++ rest).takeWhile Char.isDigit = digits := by
    rw [List.takeWhile_append_of_pos hdigits]
    cases rest with
    | nil => simp
    | cons c rest => simp [hrest c rfl]
  have hdrop : (digits ++ rest).dropWhile Char.isDigit = rest := by
    rw [List.dropWhile_append_of_pos hdigits]
    cases rest with
    | nil => rfl
    | cons c rest => simp [hrest c rfl]
  rw [readDigits, htake, hdrop, if_neg hne]

theorem readWhole_toDigits (n : Nat) {rest : List Char}
    (hrest : ∀ c ∈ rest.head?, c.isDigit = false) :
    readWhole (Nat.toDigits 10 n ++ rest) = some (Nat.toDigits 10 n, rest) := by
  have hdigits : ∀ c ∈ Nat.toDigits 10 n, c.isDigit = true := fun c hc =>
    Nat.isDigit_of_mem_toDigits (by decide) (by decide) hc
  rw [readWhole, readDigits_append hdigits Nat.toDigits_ne_nil hrest]
  refine if_neg ?_
  rintro ⟨hhead, hlength⟩
  exact hlength (by rw [eq_zero_of_head?_toDigits hhead]; rfl)

theorem EndsNumber.readFraction {rest : List Char} (h : EndsNumber rest) :
    readFraction rest = some ([], rest) := by
  cases rest with
  | nil => rfl
  | cons c rest =>
    obtain ⟨-, hpoint, -⟩ := h c rfl
    rw [Json.readFraction]
    rintro rest hcons
    exact hpoint (List.cons.inj hcons).1

theorem EndsNumber.readExponent {rest : List Char} (h : EndsNumber rest) :
    readExponent rest = some ([], rest) := by
  cases rest with
  | nil => rfl
  | cons c rest =>
    obtain ⟨-, -, he, hE⟩ := h c rfl
    exact if_neg (by simp [he, hE])

/-- A whole number is read back. -/
theorem readNumber_renderInt (n : Int) {rest : List Char} (hrest : EndsNumber rest) :
    readNumber (renderInt n ++ rest) = some (.integer n, rest) := by
  have hwhole := readWhole_toDigits n.natAbs fun c hc => (hrest c hc).1
  have hvalue : digitsValue (Nat.toDigits 10 n.natAbs) = n.natAbs := by
    rw [digitsValue_eq_ofDigitChars, Nat.ofDigitChars_ten_toDigits]
  rw [renderInt]
  by_cases hneg : n < 0
  · have hminus : Nat.toDigits 10 n.natAbs ≠ ['0'] := fun h => by
      have hzero : n.natAbs = 0 := eq_zero_of_head?_toDigits (by rw [h]; rfl)
      omega
    have hint : -(n.natAbs : Int) = n := by omega
    rw [if_pos hneg, List.cons_append]
    generalize n.natAbs = m at *
    simp [readNumber, hwhole, hrest.readFraction, hrest.readExponent, hvalue, hminus, hint]
  · have hint : (n.natAbs : Int) = n := by omega
    rw [if_neg hneg, readNumber]
    · generalize n.natAbs = m at *
      simp [hwhole, hrest.readFraction, hrest.readExponent, hvalue, hint]
    · -- the first digit is no sign
      intro digits hsign
      obtain ⟨c, others, hcons, hc⟩ := toDigits_eq_cons n.natAbs
      rw [hcons, List.cons_append, List.cons.injEq] at hsign
      rw [hsign.1] at hc
      cases hc

/-! ### Values -/

/-- The value holds no fraction and no half of a surrogate pair. -/
inductive Plain : Json → Prop
  | null : Plain null
  | bool (value : Bool) : Plain (bool value)
  | integer (n : Int) : Plain (integer n)
  | string (text : String) : Plain (string text)
  | array {items : List Json} (h : ∀ item ∈ items, Plain item) : Plain (array items)
  | object {fields : List (String × Json)} (h : ∀ field ∈ fields, Plain field.2) :
      Plain (object fields)

/-- The value is read back from its text with any other text after it, if the bound exceeds the
length. -/
def ReadsBack (j : Json) : Prop :=
  ∀ (bound : Nat) (rest : List Char), j.renderChars.length < bound → EndsNumber rest →
    readValue bound (j.renderChars ++ rest) = some (j, rest)

/-- A text whose first character is no blank has no blanks to skip. -/
theorem skipBlanks_cons {c : Char} (h : c ≠ ' ' ∧ c ≠ '\n' ∧ c ≠ '\t' ∧ c ≠ '\r')
    (rest : List Char) : skipBlanks (c :: rest) = c :: rest := by
  simp [skipBlanks, h]

theorem endsNumber_renderItems (items : List Json) (rest : List Char) :
    EndsNumber (renderItems items ++ rest) := by
  cases items <;> simp [EndsNumber, renderItems]

theorem endsNumber_renderFields (fields : List (String × Json)) (rest : List Char) :
    EndsNumber (renderFields fields ++ rest) := by
  cases fields <;> simp [EndsNumber, renderFields]

/-- A whole number begins with its sign or a digit. -/
theorem renderInt_eq_cons (n : Int) :
    ∃ c rest, renderInt n = c :: rest ∧ (c = '-' ∨ c.isDigit = true) := by
  rw [renderInt]
  split
  · exact ⟨'-', _, rfl, .inl rfl⟩
  · obtain ⟨c, digits, h, hc⟩ := toDigits_eq_cons n.natAbs
    exact ⟨c, digits, h, .inr hc⟩

/-- A value begins with neither a blank nor a closing bracket. -/
theorem Plain.renderChars_eq_cons {j : Json} (h : j.Plain) :
    ∃ c rest, j.renderChars = c :: rest ∧ (c ≠ ' ' ∧ c ≠ '\n' ∧ c ≠ '\t' ∧ c ≠ '\r') ∧ c ≠ ']' := by
  cases h with
  | null => exact ⟨'n', _, rfl, by decide, by decide⟩
  | bool value => cases value <;> exact ⟨_, _, rfl, by decide, by decide⟩
  | integer n =>
    obtain ⟨c, rest, h, hc⟩ := renderInt_eq_cons n
    refine ⟨c, rest, h, ⟨?_, ?_, ?_, ?_⟩, ?_⟩ <;> (rintro rfl; revert hc; decide)
  | string text => exact ⟨'"', _, rfl, by decide, by decide⟩
  | @array items h => cases items <;> exact ⟨'[', _, rfl, by decide, by decide⟩
  | @object fields h => cases fields <;> exact ⟨'\x7b', _, rfl, by decide, by decide⟩

/-- A text that begins with a sign or a digit is read as a number. -/
theorem readValue_number {c : Char} (hc : c = '-' ∨ c.isDigit = true) (bound : Nat)
    (rest : List Char) : readValue (bound + 1) (c :: rest) = readNumber (c :: rest) := by
  have hnone : [' ', '\n', '\t', '\r', 'n', 't', 'f', '"', '[', '\x7b'].any
      (fun d => d == '-' || d.isDigit) = false := by decide
  have hne (d : Char) (hd : d ∈ [' ', '\n', '\t', '\r', 'n', 't', 'f', '"', '[', '\x7b']) :
      c ≠ d := by
    rintro rfl
    exact List.any_eq_false.1 hnone c hd (by simpa using hc)
  simp only [List.mem_cons] at hne
  rw [readValue, skipBlanks_cons (by simp [hne])]
  split
  all_goals simp_all

/-- A bracket with an item after it opens an array. -/
theorem readValue_array {c : Char} (hblank : c ≠ ' ' ∧ c ≠ '\n' ∧ c ≠ '\t' ∧ c ≠ '\r')
    (hclose : c ≠ ']') (bound : Nat) (rest : List Char) :
    readValue (bound + 1) ('[' :: c :: rest) =
      (readItems bound (c :: rest)).map fun (items, rest) => (array items, rest) := by
  rw [readValue, skipBlanks_cons (by decide)]
  simp only [skipBlanks_cons hblank]
  split
  next h => exact absurd (List.cons.inj h).1 hclose
  next => rfl

/-- A brace with a name after it opens an object. -/
theorem readValue_object (bound : Nat) (rest : List Char) :
    readValue (bound + 1) ('\x7b' :: '"' :: rest) =
      (readFields bound ('"' :: rest)).map fun (fields, rest) =>
        (match fields with
          | some fields => object fields
          | none => unpaired, rest) := by
  rw [readValue, skipBlanks_cons (by decide)]
  have hquote : skipBlanks ('"' :: rest) = '"' :: rest := skipBlanks_cons (by decide) rest
  simp only [hquote]
  rfl

theorem readsBack_integer (n : Int) : ReadsBack (integer n) := by
  intro bound rest hbound hrest
  obtain ⟨bound, rfl⟩ : ∃ n, bound = n + 1 := ⟨bound - 1, by omega⟩
  obtain ⟨c, digits, hcons, hc⟩ := renderInt_eq_cons n
  have hread := readNumber_renderInt n hrest
  rw [renderChars]
  rw [hcons, List.cons_append] at hread ⊢
  rw [readValue_number hc, hread]

theorem readsBack_string (text : String) : ReadsBack (string text) := by
  intro bound rest hbound _
  obtain ⟨bound, rfl⟩ := Nat.exists_eq_succ_of_ne_zero (Nat.ne_of_gt (Nat.zero_lt_of_lt hbound))
  obtain ⟨inner, hquote, hread⟩ := readString_quote text rest
  rw [renderChars, hquote, readValue, skipBlanks_cons (by decide)]
  simp only [hread, Option.map_some]

theorem readItems_render {item : Json} {items : List Json} (hitem : ReadsBack item)
    (hitems : ∀ item ∈ items, ReadsBack item) {bound : Nat} (rest : List Char)
    (hbound : (item.renderChars ++ renderItems items).length < bound) :
    readItems bound (item.renderChars ++ (renderItems items ++ rest)) =
      some (item :: items, rest) := by
  induction items generalizing item bound with
  | nil =>
    obtain ⟨bound, rfl⟩ : ∃ n, bound = n + 1 := ⟨bound - 1, by omega⟩
    rw [List.length_append, renderItems, List.length_singleton] at hbound
    have hread := hitem bound (renderItems [] ++ rest) (by omega) (endsNumber_renderItems [] rest)
    rw [readItems, hread]
    simp [renderItems, skipBlanks_cons]
  | cons next items ih =>
    obtain ⟨bound, rfl⟩ : ∃ n, bound = n + 1 := ⟨bound - 1, by omega⟩
    obtain ⟨hnext, hitems⟩ := List.forall_mem_cons.1 hitems
    rw [List.length_append, renderItems, List.length_cons] at hbound
    have hread := hitem bound (renderItems (next :: items) ++ rest) (by omega)
      (endsNumber_renderItems _ rest)
    have hrest : readItems bound (next.renderChars ++ (renderItems items ++ rest)) =
        some (next :: items, rest) :=
      ih hnext hitems (by rw [List.length_append] at hbound ⊢; omega)
    rw [readItems, hread]
    simp [renderItems, skipBlanks_cons, hrest]

/-- The name of a field is read back. -/
theorem readName_quote (name : String) (rest : List Char) :
    ∃ inner, quote name ++ ':' :: rest = '"' :: inner ∧
      readName inner = some (some name, rest) := by
  obtain ⟨inner, hquote, hread⟩ := readString_quote name (':' :: rest)
  refine ⟨inner, hquote, ?_⟩
  rw [readName, hread]
  simp [skipBlanks_cons]

theorem readFields_render {name : String} {value : Json} {fields : List (String × Json)}
    (hvalue : ReadsBack value) (hfields : ∀ field ∈ fields, ReadsBack field.2) {bound : Nat}
    (rest : List Char)
    (hbound : (quote name ++ ':' :: (value.renderChars ++ renderFields fields)).length < bound) :
    readFields bound (quote name ++ ':' :: (value.renderChars ++ (renderFields fields ++ rest))) =
      some (some ((name, value) :: fields), rest) := by
  induction fields generalizing name value bound with
  | nil =>
    obtain ⟨bound, rfl⟩ : ∃ n, bound = n + 1 := ⟨bound - 1, by omega⟩
    simp only [List.length_append, List.length_cons] at hbound
    have hread := hvalue bound (renderFields [] ++ rest) (by omega)
      (endsNumber_renderFields [] rest)
    obtain ⟨inner, hquote, hname⟩ := readName_quote name
      (value.renderChars ++ (renderFields [] ++ rest))
    rw [hquote, readFields, skipBlanks_cons (by decide)]
    simp only [hname, hread, Option.bind_eq_bind, Option.bind_some]
    simp [renderFields, skipBlanks_cons]
  | cons next fields ih =>
    obtain ⟨bound, rfl⟩ : ∃ n, bound = n + 1 := ⟨bound - 1, by omega⟩
    obtain ⟨hnext, hfields⟩ := List.forall_mem_cons.1 hfields
    simp only [List.length_append, List.length_cons, renderFields] at hbound
    have hread := hvalue bound (renderFields (next :: fields) ++ rest) (by omega)
      (endsNumber_renderFields _ rest)
    obtain ⟨inner, hquote, hname⟩ := readName_quote name
      (value.renderChars ++ (renderFields (next :: fields) ++ rest))
    have hrest : readFields bound
        (quote next.1 ++ ':' :: (next.2.renderChars ++ (renderFields fields ++ rest))) =
          some (some (next :: fields), rest) :=
      ih hnext hfields (by simp only [List.length_append, List.length_cons]; omega)
    rw [hquote, readFields, skipBlanks_cons (by decide)]
    simp only [hname, hread, Option.bind_eq_bind, Option.bind_some]
    simp [renderFields, skipBlanks_cons, hrest]

/-- Every plain value is read back. -/
theorem Plain.readsBack {j : Json} (h : j.Plain) : ReadsBack j := by
  induction h with
  | null =>
    intro bound rest hbound _
    obtain ⟨bound, rfl⟩ : ∃ n, bound = n + 1 := ⟨bound - 1, by omega⟩
    simp [renderChars, readValue, skipBlanks_cons]
  | bool value =>
    intro bound rest hbound _
    obtain ⟨bound, rfl⟩ : ∃ n, bound = n + 1 := ⟨bound - 1, by omega⟩
    cases value <;> simp [renderChars, readValue, skipBlanks_cons]
  | integer n => exact readsBack_integer n
  | string text => exact readsBack_string text
  | @array items hplain ih =>
    intro bound rest hbound _
    obtain ⟨bound, rfl⟩ : ∃ n, bound = n + 1 := ⟨bound - 1, by omega⟩
    cases items with
    | nil => simp [renderChars, readValue, skipBlanks_cons]
    | cons item items =>
      obtain ⟨hitem, hitems⟩ := List.forall_mem_cons.1 ih
      rw [renderChars, List.length_cons] at hbound
      have hread := readItems_render hitem hitems rest (Nat.lt_of_succ_lt_succ hbound)
      -- the first item tells the array from an empty one
      obtain ⟨c, others, hcons, hblank, hclose⟩ :=
        (hplain item List.mem_cons_self).renderChars_eq_cons
      rw [hcons, List.cons_append] at hread
      rw [renderChars, hcons, List.cons_append, List.append_assoc, List.cons_append,
        readValue_array hblank hclose, hread]
      rfl
  | @object fields hplain ih =>
    intro bound rest hbound _
    obtain ⟨bound, rfl⟩ : ∃ n, bound = n + 1 := ⟨bound - 1, by omega⟩
    cases fields with
    | nil => simp [renderChars, readValue, skipBlanks_cons]
    | cons field fields =>
      obtain ⟨hfield, hfields⟩ := List.forall_mem_cons.1 ih
      rw [renderChars, List.length_cons] at hbound
      have hread := readFields_render hfield hfields rest (Nat.lt_of_succ_lt_succ hbound)
      obtain ⟨inner, hquote, -⟩ := readName_quote field.1
        (field.2.renderChars ++ (renderFields fields ++ rest))
      rw [hquote] at hread
      rw [renderChars, List.cons_append, List.append_assoc, List.cons_append, List.append_assoc,
        hquote, readValue_object, hread]
      rfl

/-- A plain value is read back from its text. -/
theorem Plain.parse_render {j : Json} (h : j.Plain) : parse j.render = some j := by
  have hread := h.readsBack (j.renderChars.length + 1) [] (Nat.lt_succ_self _)
    (by simp [EndsNumber])
  rw [List.append_nil] at hread
  rw [parse, render, String.toList_ofList, parseChars, hread]
  rfl

end PoolKlines.Json
