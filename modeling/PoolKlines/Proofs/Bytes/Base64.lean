import PoolKlines.Bytes.Base64
import PoolKlines.Proofs.Computation

/-!
# Reading base64 is the inverse of writing

Every sequence of bytes has one text, and this text is the only one that is read as the bytes.

* `symbolByte` is the byte for a six-bit value, and `value?_eq_some` says which bytes have a value;
* `sextets` are the six-bit values of some bytes, and `eq_sextets_of_joinValues?` says that no other
  values join to these bytes;
* `valuesFrom_eq_ok` and `lastValuesFrom_eq_ok` say what text is read as which values;
* `eq_of_toUTF8_toList` and `toUTF8_encode` carry this over from bytes to texts;
* `decodeBytes_eq_ok_iff` and `decode_eq_ok_iff`: a text is read as some bytes just if it is what
  these are written as.
-/

namespace PoolKlines.Base64

/-- The byte for a six-bit value. -/
def symbolByte (n : Nat) : UInt8 := UInt8.ofNat (symbol n).toNat

theorem value?_symbolByte {n : Nat} (h : n < 64) : value? (symbolByte n) = some n := by
  revert n
  decide

theorem symbolByte_ne_padding {n : Nat} (h : n < 64) : symbolByte n ≠ padding := by
  revert n
  decide

theorem utf8EncodeChar_symbol {n : Nat} (h : n < 64) :
    String.utf8EncodeChar (symbol n) = [symbolByte n] := by
  revert n
  decide

theorem value?_eq_some {b : UInt8} {n : Nat} : value? b = some n ↔ n < 64 ∧ b = symbolByte n := by
  constructor
  · have hall : ∀ m < 256, ∀ v ∈ value? (UInt8.ofNat m), v < 64 ∧ UInt8.ofNat m = symbolByte v := by
      decide +kernel
    intro h
    rw [← UInt8.ofNat_toNat (x := b)] at h ⊢
    exact hall b.toNat b.toNat_lt n h
  · rintro ⟨hn, rfl⟩
    exact value?_symbolByte hn

/-- The six-bit values of some bytes, three bytes at a time. -/
def sextets : List UInt8 → List Nat
  | a :: b :: c :: rest =>
    let n := a.toNat * 65536 + b.toNat * 256 + c.toNat
    n / 262144 :: n / 4096 % 64 :: n / 64 % 64 :: n % 64 :: sextets rest
  | [a, b] =>
    let n := a.toNat * 1024 + b.toNat * 4
    [n / 4096, n / 64 % 64, n % 64]
  | [a] =>
    let n := a.toNat * 16
    [n / 64, n % 64]
  | [] => []

/-- The number of padding characters behind the text of some bytes. -/
def paddingCount (bytes : List UInt8) : Nat := (3 - bytes.length % 3) % 3

theorem encodeChars_eq (bytes : List UInt8) :
    encodeChars bytes = (sextets bytes).map symbol ++ List.replicate (paddingCount bytes) '=' := by
  induction bytes using encodeChars.induct with
  | case1 a b c rest ih =>
    have hcount : paddingCount (a :: b :: c :: rest) = paddingCount rest := by
      simp only [paddingCount, List.length_cons]
      omega
    rw [encodeChars, sextets, ih, hcount]
    rfl
  | case2 a b => rfl
  | case3 a => rfl
  | case4 => rfl

theorem sextets_lt (bytes : List UInt8) : ∀ v ∈ sextets bytes, v < 64 := by
  induction bytes using encodeChars.induct with
  | case1 a b c rest ih =>
    have ha := a.toNat_lt
    have hb := b.toNat_lt
    have hc := c.toNat_lt
    simp only [sextets, List.forall_mem_cons]
    exact ⟨by omega, by omega, by omega, by omega, ih⟩
  | case2 a b =>
    have ha := a.toNat_lt
    have hb := b.toNat_lt
    simp only [sextets, List.forall_mem_cons]
    exact ⟨by omega, by omega, by omega, by simp⟩
  | case3 a =>
    have ha := a.toNat_lt
    simp only [sextets, List.forall_mem_cons]
    exact ⟨by omega, by omega, by simp⟩
  | case4 => simp [sextets]

theorem length_sextets (bytes : List UInt8) :
    ((sextets bytes).length + paddingCount bytes) % 4 = 0 := by
  induction bytes using encodeChars.induct with
  | case1 a b c rest ih =>
    simp only [sextets, paddingCount, List.length_cons] at ih ⊢
    omega
  | case2 a b => simp [sextets, paddingCount]
  | case3 a => simp [sextets, paddingCount]
  | case4 => rfl

/-- Joining the values of some bytes gives them back. -/
theorem joinValues?_sextets (bytes : List UInt8) : joinValues? (sextets bytes) = some bytes := by
  induction bytes using encodeChars.induct with
  | case1 a b c rest ih =>
    have ha := a.toNat_lt
    have hb := b.toNat_lt
    have hc := c.toNat_lt
    simp only [sextets, joinValues?, ih, Option.map_some, Option.some.injEq, List.cons.injEq,
      and_true]
    refine ⟨?_, ?_, ?_⟩ <;> apply UInt8.toNat_inj.1 <;> rw [UInt8.toNat_ofNat'] <;> omega
  | case2 a b =>
    have ha := a.toNat_lt
    have hb := b.toNat_lt
    simp only [sextets, joinValues?]
    rw [if_pos (by omega)]
    simp only [Option.some.injEq, List.cons.injEq, and_true]
    refine ⟨?_, ?_⟩ <;> apply UInt8.toNat_inj.1 <;> rw [UInt8.toNat_ofNat'] <;> omega
  | case3 a =>
    have ha := a.toNat_lt
    simp only [sextets, joinValues?]
    rw [if_pos (by omega)]
    simp only [Option.some.injEq, List.cons.injEq, and_true]
    apply UInt8.toNat_inj.1
    rw [UInt8.toNat_ofNat']
    omega
  | case4 => rfl

/-- Values can be joined to some bytes only if they are the values of these bytes. -/
theorem eq_sextets_of_joinValues? {values : List Nat} {bytes : List UInt8}
    (hlt : ∀ v ∈ values, v < 64) (hlength : values.length % 4 ≠ 1)
    (h : joinValues? values = some bytes) : values = sextets bytes := by
  induction values using joinValues?.induct generalizing bytes with
  | case1 a b c d rest ih =>
    simp only [List.forall_mem_cons] at hlt
    obtain ⟨ha, hb, hc, hd, hrest⟩ := hlt
    rw [joinValues?] at h
    obtain ⟨bytes, hbytes, rfl⟩ := Option.map_eq_some_iff.1 h
    have hih := ih hrest (by simp only [List.length_cons] at hlength; omega) hbytes
    simp only [sextets, ← hih, List.cons.injEq, and_true, UInt8.toNat_ofNat']
    omega
  | case2 a b c =>
    simp only [List.forall_mem_cons] at hlt
    obtain ⟨ha, hb, hc, -⟩ := hlt
    simp only [joinValues?, Option.ite_none_right_eq_some, Option.some.injEq] at h
    obtain ⟨hunused, rfl⟩ := h
    simp only [sextets, List.cons.injEq, and_true, UInt8.toNat_ofNat']
    omega
  | case3 a b c =>
    simp only [joinValues?, Option.ite_none_right_eq_some] at h
    exact absurd h.1 (by assumption)
  | case4 a b =>
    simp only [List.forall_mem_cons] at hlt
    obtain ⟨ha, hb, -⟩ := hlt
    simp only [joinValues?, Option.ite_none_right_eq_some, Option.some.injEq] at h
    obtain ⟨hunused, rfl⟩ := h
    simp only [sextets, List.cons.injEq, and_true, UInt8.toNat_ofNat']
    omega
  | case5 a b =>
    simp only [joinValues?, Option.ite_none_right_eq_some] at h
    exact absurd h.1 (by assumption)
  | case6 values hfour hthree htwo =>
    rcases values with _ | ⟨a, _ | ⟨b, _ | ⟨c, _ | ⟨d, rest⟩⟩⟩⟩
    · obtain rfl := Option.some.inj h
      rfl
    · exact absurd rfl hlength
    · exact absurd rfl (htwo a b)
    · exact absurd rfl (hthree a b c)
    · exact absurd rfl (hfour a b c d rest)

/-! ### What is read as which values -/

theorem cons_eq_map_symbolByte {b : UInt8} {text : List UInt8} {values : List Nat}
    (hlt : ∀ v ∈ values, v < 64) (h : b :: text = values.map symbolByte) :
    ∃ v rest, values = v :: rest ∧ v < 64 ∧ value? b = some v ∧ text = rest.map symbolByte := by
  obtain ⟨v, rest, rfl, rfl, rfl⟩ := List.map_eq_cons_iff.1 h.symm
  have hv : v < 64 := hlt v List.mem_cons_self
  exact ⟨v, rest, rfl, hv, value?_symbolByte hv, rfl⟩

/-- A text is read as some values just if it is written in their symbols. -/
theorem valuesFrom_eq_ok {offset : Nat} {text : List UInt8} {values : List Nat} :
    valuesFrom offset text = .ok values ↔
      (∀ v ∈ values, v < 64) ∧ text = values.map symbolByte := by
  induction text generalizing offset values with
  | nil =>
    simp only [valuesFrom, Except.ok.injEq]
    constructor
    · rintro rfl
      exact ⟨by simp, rfl⟩
    · rintro ⟨-, h⟩
      exact (List.map_eq_nil_iff.1 h.symm).symm
  | cons b text ih =>
    rw [valuesFrom]
    cases hb : value? b with
    | none =>
      refine iff_of_false (by simp) ?_
      rintro ⟨hlt, h⟩
      obtain ⟨v, rest, -, -, hv, -⟩ := cons_eq_map_symbolByte hlt h
      rw [hb] at hv
      cases hv
    | some v =>
      simp only [map_eq_ok, ih]
      constructor
      · rintro ⟨rest, ⟨hlt, rfl⟩, rfl⟩
        obtain ⟨hv, rfl⟩ := value?_eq_some.1 hb
        exact ⟨List.forall_mem_cons.2 ⟨hv, hlt⟩, rfl⟩
      · rintro ⟨hlt, h⟩
        obtain ⟨w, rest, rfl, -, hw, rfl⟩ := cons_eq_map_symbolByte hlt h
        obtain rfl := Option.some.inj (hb.symm.trans hw)
        exact ⟨rest, ⟨(List.forall_mem_cons.1 hlt).2, rfl⟩, rfl⟩

theorem checkPadding_eq_ok {first offset : Nat} {text : List UInt8} :
    checkPadding first offset text = .ok () ↔
      ∃ count, text = List.replicate count padding ∧
        ∀ i < count, 2 ≤ (offset + i) % 4 := by
  induction text generalizing offset with
  | nil =>
    refine iff_of_true rfl ⟨0, rfl, fun i hi => absurd hi (Nat.not_lt_zero i)⟩
  | cons b text ih =>
    rw [checkPadding]
    by_cases hb : b = padding ∧ 2 ≤ offset % 4
    · obtain ⟨rfl, hoffset⟩ := hb
      rw [if_pos ⟨rfl, hoffset⟩, ih]
      constructor
      · rintro ⟨count, rfl, hcount⟩
        refine ⟨count + 1, rfl, fun i hi => ?_⟩
        cases i with
        | zero => exact hoffset
        | succ i =>
          have hplace := hcount i (by omega)
          rwa [Nat.add_right_comm] at hplace
      · rintro ⟨count, htext, hcount⟩
        obtain ⟨count, rfl⟩ := Nat.exists_eq_add_one_of_ne_zero (n := count) (by
          rintro rfl
          cases htext)
        refine ⟨count, (List.cons.inj htext).2, fun i hi => ?_⟩
        have hplace := hcount (i + 1) (by omega)
        rwa [Nat.add_right_comm]
    · rw [if_neg hb]
      refine iff_of_false (by simp) ?_
      rintro ⟨count, htext, hcount⟩
      obtain ⟨count, rfl⟩ := Nat.exists_eq_add_one_of_ne_zero (n := count) (by
        rintro rfl
        cases htext)
      exact hb ⟨(List.cons.inj htext).1, hcount 0 (Nat.succ_pos count)⟩

/-- What is read as some values in the last chunk: their symbols, and padding in the second half of
a group of four. -/
def EndsIn (offset : Nat) (text : List UInt8) (values : List Nat) : Prop :=
  (∀ v ∈ values, v < 64) ∧ ∃ count,
    text = values.map symbolByte ++ List.replicate count padding ∧
      ∀ i < count, 2 ≤ (offset + values.length + i) % 4

theorem endsIn_nil (first : Nat) {offset : Nat} {text : List UInt8} :
    EndsIn offset text [] ↔ checkPadding first offset text = .ok () := by
  rw [checkPadding_eq_ok, EndsIn]
  simp

theorem EndsIn.eq_nil {offset : Nat} {text : List UInt8} {values : List Nat}
    (h : EndsIn offset (padding :: text) values) : values = [] := by
  obtain ⟨hlt, count, htext, -⟩ := h
  cases values with
  | nil => rfl
  | cons v rest =>
    exact absurd (List.cons.inj htext).1.symm (symbolByte_ne_padding (hlt v List.mem_cons_self))

theorem endsIn_cons {offset : Nat} {b : UInt8} {text : List UInt8} {values : List Nat}
    (hb : b ≠ padding) : EndsIn offset (b :: text) values ↔
      ∃ v rest, value? b = some v ∧ EndsIn (offset + 1) text rest ∧ v :: rest = values := by
  constructor
  · rintro ⟨hlt, count, htext, hcount⟩
    cases values with
    | nil =>
      cases count with
      | zero => cases htext
      | succ count => exact absurd (List.cons.inj htext).1 hb
    | cons v rest =>
      obtain ⟨hv, hrest⟩ := List.forall_mem_cons.1 hlt
      obtain ⟨rfl, rfl⟩ := List.cons.inj htext
      refine ⟨v, rest, value?_symbolByte hv, ⟨hrest, count, rfl, fun i hi => ?_⟩, rfl⟩
      have hplace := hcount i hi
      rwa [List.length_cons, Nat.add_comm rest.length, ← Nat.add_assoc] at hplace
  · rintro ⟨v, rest, hv, ⟨hrest, count, rfl, hcount⟩, rfl⟩
    obtain ⟨hlt, rfl⟩ := value?_eq_some.1 hv
    refine ⟨List.forall_mem_cons.2 ⟨hlt, hrest⟩, count, rfl, fun i hi => ?_⟩
    rw [List.length_cons, Nat.add_comm rest.length, ← Nat.add_assoc]
    exact hcount i hi

theorem lastValuesFrom_eq_ok {offset : Nat} {text : List UInt8} {values : List Nat} :
    lastValuesFrom offset text = .ok values ↔ EndsIn offset text values := by
  induction text generalizing offset values with
  | nil =>
    simp only [lastValuesFrom, Except.ok.injEq]
    constructor
    · rintro rfl
      exact ⟨by simp, 0, rfl, fun i hi => absurd hi (Nat.not_lt_zero i)⟩
    · rintro ⟨-, count, h, -⟩
      exact (List.map_eq_nil_iff.1 (List.append_eq_nil_iff.1 h.symm).1).symm
  | cons b text ih =>
    rw [lastValuesFrom]
    by_cases hb : b = padding
    · subst hb
      have hnil : EndsIn offset (padding :: text) values ↔
          values = [] ∧ 2 ≤ offset % 4 ∧ checkPadding offset (offset + 1) text = .ok () := by
        constructor
        · intro h
          obtain rfl := h.eq_nil
          have hcheck := (endsIn_nil offset).1 h
          rw [checkPadding] at hcheck
          split at hcheck
          · rename_i hplace
            exact ⟨rfl, hplace.2, hcheck⟩
          · cases hcheck
        · rintro ⟨rfl, hplace, hcheck⟩
          rw [endsIn_nil offset, checkPadding, if_pos ⟨rfl, hplace⟩]
          exact hcheck
      rw [if_pos rfl, hnil]
      split
      · exact iff_of_false (by simp) fun h => by omega
      · simp only [map_eq_ok]
        constructor
        · rintro ⟨u, hcheck, rfl⟩
          exact ⟨rfl, by omega, hcheck⟩
        · rintro ⟨rfl, -, hcheck⟩
          exact ⟨(), hcheck, rfl⟩
    · rw [if_neg hb, endsIn_cons hb]
      cases hv : value? b with
      | none => exact iff_of_false (by simp) (by simp)
      | some v => simp only [map_eq_ok, ih, Option.some.injEq, exists_and_left, exists_eq_left']

/-- A text is read in two parts: the first chunks, and the last one. -/
theorem decodeBytes_eq_ok {text bytes : List UInt8} :
    decodeBytes text = .ok bytes ↔ text.length % 4 = 0 ∧ ∃ front back,
      valuesFrom 0 (text.take (8 * ((text.length - 1) / 8))) = .ok front ∧
        lastValuesFrom (8 * ((text.length - 1) / 8)) (text.drop (8 * ((text.length - 1) / 8))) =
          .ok back ∧
        joinValues? (front ++ back) = some bytes := by
  unfold decodeBytes
  dsimp only
  generalize 8 * ((text.length - 1) / 8) = start
  by_cases hone : text.length % 4 = 1
  · rw [if_pos hone]
    refine iff_of_false ?_ fun h => by omega
    intro h
    split at h
    · split at h <;>
      · obtain ⟨u, hthrow, -⟩ := bind_eq_ok.1 h
        exact throw_ne_ok _ _ hthrow
    · obtain ⟨u, hthrow, -⟩ := bind_eq_ok.1 h
      exact throw_ne_ok _ _ hthrow
  · rw [if_neg hone]
    simp only [bind_eq_ok]
    by_cases hsize : text.length % 4 = 0
    · simp only [hsize, ne_eq, not_true_eq_false, if_false, true_and]
      constructor
      · rintro ⟨front, hfront, back, hback, h⟩
        refine ⟨front, back, hfront, hback, ?_⟩
        split at h
        · rename_i joined hjoined
          rw [hjoined, Except.ok.inj h]
        · exact absurd h (throw_ne_ok _ _)
      · rintro ⟨front, back, hfront, hback, h⟩
        exact ⟨front, hfront, back, hback, by rw [h]; rfl⟩
    · refine iff_of_false ?_ fun h => hsize h.1
      rintro ⟨front, -, back, -, h⟩
      rw [if_pos hsize] at h
      obtain ⟨u, hthrow, -⟩ := bind_eq_ok.1 h
      exact throw_ne_ok _ _ hthrow

/-! ### Writing and reading -/

/-- The text for some bytes, as bytes. -/
def encodeBytes (bytes : List UInt8) : List UInt8 :=
  (sextets bytes).map symbolByte ++ List.replicate (paddingCount bytes) padding

theorem decodeBytes_encodeBytes (bytes : List UInt8) :
    decodeBytes (encodeBytes bytes) = .ok bytes := by
  have hlt := sextets_lt bytes
  have hlength := length_sextets bytes
  have hpadding : paddingCount bytes ≤ 2 := by
    unfold paddingCount
    omega
  have hsize : (encodeBytes bytes).length = (sextets bytes).length + paddingCount bytes := by
    simp [encodeBytes]
  -- the first chunks end before the padding
  generalize hstart : 8 * (((encodeBytes bytes).length - 1) / 8) = start
  have hle : start ≤ (sextets bytes).length := by omega
  have htake : (encodeBytes bytes).take start = ((sextets bytes).take start).map symbolByte := by
    rw [encodeBytes, List.take_append_of_le_length (by rwa [List.length_map]), List.map_take]
  have hdrop : (encodeBytes bytes).drop start = ((sextets bytes).drop start).map symbolByte ++
      List.replicate (paddingCount bytes) padding := by
    rw [encodeBytes, List.drop_append_of_le_length (by rwa [List.length_map]), List.map_drop]
  rw [decodeBytes_eq_ok, hstart, htake, hdrop]
  refine ⟨by omega, (sextets bytes).take start, (sextets bytes).drop start, ?_, ?_, ?_⟩
  · exact valuesFrom_eq_ok.2 ⟨fun v hv => hlt v (List.mem_of_mem_take hv), rfl⟩
  · refine lastValuesFrom_eq_ok.2
      ⟨fun v hv => hlt v (List.mem_of_mem_drop hv), paddingCount bytes, rfl, fun i hi => ?_⟩
    rw [List.length_drop]
    omega
  · rw [List.take_append_drop]
    exact joinValues?_sextets bytes

/-- A text is read as some bytes just if it is what these are written as. -/
theorem decodeBytes_eq_ok_iff {text bytes : List UInt8} :
    decodeBytes text = .ok bytes ↔ text = encodeBytes bytes := by
  constructor
  · intro h
    obtain ⟨hsize, front, back, hfront, hback, hjoin⟩ := decodeBytes_eq_ok.1 h
    generalize hstart : 8 * ((text.length - 1) / 8) = start at hfront hback
    obtain ⟨hltFront, htake⟩ := valuesFrom_eq_ok.1 hfront
    obtain ⟨hltBack, count, hdrop, hplace⟩ := lastValuesFrom_eq_ok.1 hback
    have htext : text = (front ++ back).map symbolByte ++ List.replicate count padding := by
      rw [← List.take_append_drop start text, htake, hdrop, List.map_append, List.append_assoc]
    have hfrontLength : front.length = start := by
      have hlength := congrArg List.length htake
      rw [List.length_take, List.length_map] at hlength
      omega
    have hlength : text.length = front.length + back.length + count := by
      rw [htext]
      simp [Nat.add_assoc]
    -- three paddings in a row would reach into the first half of a group
    have hcount : count ≤ 2 := by
      refine Nat.le_of_not_lt fun hmany => ?_
      have h₀ := hplace 0 (by omega)
      have h₁ := hplace 1 (by omega)
      have h₂ := hplace 2 (by omega)
      omega
    have hvalues : front ++ back = sextets bytes := by
      refine eq_sextets_of_joinValues? (fun v hv => ?_) ?_ hjoin
      · exact (List.mem_append.1 hv).elim (hltFront v) (hltBack v)
      · rw [List.length_append]
        omega
    have hpadding : count = paddingCount bytes := by
      have hsum := length_sextets bytes
      have htotal : (sextets bytes).length = front.length + back.length := by
        rw [← hvalues, List.length_append]
      have hfew : paddingCount bytes ≤ 2 := by
        unfold paddingCount
        omega
      omega
    rw [htext, hvalues, hpadding, encodeBytes]
  · rintro rfl
    exact decodeBytes_encodeBytes bytes

/-! ### Texts as bytes -/

theorem toList_loop_eq (bytes : ByteArray) (i : Nat) (seen : List UInt8) :
    ByteArray.toList.loop bytes i seen = seen.reverse ++ bytes.data.toList.drop i := by
  fun_induction ByteArray.toList.loop bytes i seen with
  | case1 i seen hlt ih =>
    have hsize : i < bytes.data.toList.length := hlt
    have hget : bytes.get! i = bytes.data.toList[i] := by
      show bytes.data[i]! = _
      rw [getElem!_pos bytes.data i hlt]
      rfl
    rw [ih, List.drop_eq_getElem_cons hsize, List.reverse_cons, List.append_assoc, hget]
    rfl
  | case2 i seen hle =>
    have hsize : bytes.data.toList.length ≤ i := Nat.le_of_not_lt hle
    rw [List.drop_eq_nil_of_le hsize, List.append_nil]

theorem toList_eq_data (bytes : ByteArray) : bytes.toList = bytes.data.toList := by
  rw [ByteArray.toList, toList_loop_eq]
  rfl

/-- A text is determined by its bytes. -/
theorem eq_of_toUTF8_toList {s t : String} (h : s.toUTF8.toList = t.toUTF8.toList) : s = t := by
  rw [toList_eq_data, toList_eq_data] at h
  exact String.toByteArray_inj.1 (ByteArray.ext (Array.toList_inj.1 h))

theorem toUTF8_encode (bytes : List UInt8) : (encode bytes).toUTF8.toList = encodeBytes bytes := by
  have hsymbols : ∀ {values : List Nat}, (∀ v ∈ values, v < 64) →
      (values.map symbol).flatMap String.utf8EncodeChar = values.map symbolByte := by
    intro values hlt
    induction values with
    | nil => rfl
    | cons v values ih =>
      obtain ⟨hv, hlt⟩ := List.forall_mem_cons.1 hlt
      rw [List.map_cons, List.flatMap_cons, utf8EncodeChar_symbol hv, ih hlt]
      rfl
  have hpadding : ∀ count, (List.replicate count '=').flatMap String.utf8EncodeChar =
      List.replicate count padding := by
    intro count
    induction count with
    | zero => rfl
    | succ count ih =>
      rw [List.replicate_succ, List.flatMap_cons, ih]
      rfl
  have hencode : (encode bytes).toUTF8 = (encodeChars bytes).utf8Encode := String.toByteArray_ofList
  rw [hencode, toList_eq_data, List.utf8Encode, List.toList_data_toByteArray, encodeChars_eq,
    List.flatMap_append, hsymbols (sextets_lt bytes), hpadding, encodeBytes]

/-- **Base64 is read strictly.** A text is read as some bytes just if these are written as the
text. -/
theorem decode_eq_ok_iff {text : String} {bytes : List UInt8} :
    decode text = .ok bytes ↔ text = encode bytes := by
  rw [decode, decodeBytes_eq_ok_iff, ← toUTF8_encode]
  exact ⟨eq_of_toUTF8_toList, fun h => h ▸ rfl⟩

theorem encode_injective {a b : List UInt8} (h : encode a = encode b) : a = b :=
  Except.ok.inj ((decode_eq_ok_iff.2 rfl).symm.trans (decode_eq_ok_iff.2 h))

end PoolKlines.Base64
