import PoolKlines.Bytes.Reader
import PoolKlines.Proofs.Computation

/-!
# Reading what was written

* `ReadsBack` says of a read that it makes a value of given bytes, whatever follows, and takes just
  these; it is closed under sequencing (`ReadsBack.bind`, `ReadsBack.mapM`), and every number is
  read back from its bytes;
* `ReadOp` is an operation of a reader, and `ReadOp.run_eq` says that it takes its bytes and makes
  something of them (`ReadOp.interpret`), or runs past the end and does not move;
* `Field` is a value that an operation reads, with its bytes;
* `Reader.StandsIn` ties a reader to its buffer, and `Reader.StandsIn.after` says that no operations
  lead out of it, whether they fail or not;
* `fields_read_back_within_buffer` is the statement about fields and operations.

Offsets and lengths are natural numbers, so that no sum of them wraps.
-/

namespace PoolKlines

variable {α β ι : Type}

/-! ### Reading back -/

/-- A read makes a value of some bytes, whatever follows, and takes just these. -/
def ReadsBack (read : Read α) (a : α) (bytes : List UInt8) : Prop :=
  ∀ (offset : Nat) (rest : List UInt8),
    read ⟨offset, bytes ++ rest⟩ = .ok a ⟨offset + bytes.length, rest⟩

theorem readsBack_take (bytes : List UInt8) :
    ReadsBack (Reader.take bytes.length) bytes bytes := by
  intro offset rest
  rw [Reader.take_of_le (by simp [Reader.remaining])]
  simp

theorem readsBack_pure (a : α) : ReadsBack (pure a) a [] := fun _ _ => rfl

theorem ReadsBack.bind {x : Read α} {f : α → Read β} {a : α} {b : β} {first second : List UInt8}
    (hx : ReadsBack x a first) (hf : ReadsBack (f a) b second) :
    ReadsBack (x >>= f) b (first ++ second) := by
  intro offset rest
  rw [List.append_assoc, List.length_append, ← Nat.add_assoc]
  exact (bind_of_ok (hx offset (second ++ rest)) f).trans (hf (offset + first.length) rest)

theorem ReadsBack.map {x : Read α} {a : α} {bytes : List UInt8} (hx : ReadsBack x a bytes)
    (f : α → β) : ReadsBack (do return f (← x)) (f a) bytes := by
  have hread := hx.bind (f := fun a => pure (f a)) (readsBack_pure _)
  rwa [List.append_nil] at hread

/-- Values are read back one after the other. -/
theorem ReadsBack.mapM {items : List ι} {read : ι → Read α} {value : ι → α}
    {bytes : ι → List UInt8} (h : ∀ i ∈ items, ReadsBack (read i) (value i) (bytes i)) :
    ReadsBack (items.mapM read) (items.map value) (items.flatMap bytes) := by
  induction items with
  | nil => exact readsBack_pure []
  | cons i items ih =>
    obtain ⟨hi, hrest⟩ := List.forall_mem_cons.1 h
    rw [List.mapM_cons, List.flatMap_cons]
    exact hi.bind ((ih hrest).map (value i :: ·))

/-- The bytes of a value are taken and made the value again. -/
theorem readsBack_of_take {bytes : List UInt8} {width : Nat} (hwidth : bytes.length = width)
    {a : α} (f : List UInt8 → α) (h : f bytes = a) :
    ReadsBack (do return f (← Reader.take width)) a bytes := by
  subst hwidth h
  exact (readsBack_take bytes).map f

theorem littleEndian_toLittleEndian_of_lt (width : Nat) {n : Nat} (h : n < Nat.pow 256 width) :
    littleEndian (toLittleEndian width n) = n := by
  rw [littleEndian_toLittleEndian, Nat.mod_eq_of_lt h]

theorem readsBack_uint8 (b : UInt8) : ReadsBack Reader.uint8 b [b] :=
  readsBack_of_take (show [b].length = 1 from rfl) (·.headD 0) rfl

theorem readsBack_bool (b : Bool) : ReadsBack Reader.bool b [if b then 1 else 0] := by
  cases b
  · exact (readsBack_uint8 0).bind (readsBack_pure false)
  · exact (readsBack_uint8 1).bind (readsBack_pure true)

theorem readsBack_int32 (n : Int32) :
    ReadsBack Reader.int32 n (toLittleEndian 4 n.toUInt32.toNat) :=
  readsBack_of_take (length_toLittleEndian 4 n.toUInt32.toNat)
    (fun bytes => (UInt32.ofNat (littleEndian bytes)).toInt32) (by
      rw [littleEndian_toLittleEndian_of_lt 4 n.toUInt32.toNat_lt, UInt32.ofNat_toNat]
      exact Int32.toInt32_toUInt32 n)

theorem readsBack_uint64 (n : UInt64) : ReadsBack Reader.uint64 n (toLittleEndian 8 n.toNat) :=
  readsBack_of_take (length_toLittleEndian 8 n.toNat)
    (fun bytes => UInt64.ofNat (littleEndian bytes)) (by
      rw [littleEndian_toLittleEndian_of_lt 8 n.toNat_lt, UInt64.ofNat_toNat])

theorem readsBack_uint128 (n : BitVec 128) :
    ReadsBack Reader.uint128 n (toLittleEndian 16 n.toNat) :=
  readsBack_of_take (length_toLittleEndian 16 n.toNat)
    (fun bytes => BitVec.ofNat 128 (littleEndian bytes)) (by
      rw [littleEndian_toLittleEndian_of_lt 16 n.isLt, BitVec.ofNat_toNat, BitVec.setWidth_eq])

theorem readsBack_encode {bytes : List UInt8} (h : bytes.length = 32) :
    ReadsBack Reader.key (Base58.encode bytes) bytes :=
  readsBack_of_take h Base58.encode rfl

/-! ### Operations -/

/-- An operation of a reader. -/
inductive ReadOp
  | uint8
  | bool
  | int32
  | uint64
  | uint128
  | key
  | bytes (length : Nat)
  | skip (length : Nat)
  deriving DecidableEq

/-- What an operation gives. -/
inductive ReadValue
  | uint8 (n : UInt8)
  | bool (b : Bool)
  | int32 (n : Int32)
  | uint64 (n : UInt64)
  | uint128 (n : BitVec 128)
  | key (text : String)
  | bytes (bytes : List UInt8)
  | skipped
  deriving DecidableEq

namespace ReadOp

/-- The number of bytes that an operation takes. -/
def width : ReadOp → Nat
  | uint8 => 1
  | bool => 1
  | int32 => 4
  | uint64 => 8
  | uint128 => 16
  | key => 32
  | bytes length => length
  | skip length => length

/-- Carry out an operation. -/
def run : ReadOp → Read ReadValue
  | uint8 => return .uint8 (← Reader.uint8)
  | bool => return .bool (← Reader.bool)
  | int32 => return .int32 (← Reader.int32)
  | uint64 => return .uint64 (← Reader.uint64)
  | uint128 => return .uint128 (← Reader.uint128)
  | key => return .key (← Reader.key)
  | bytes length => return .bytes (← Reader.take length)
  | skip length => do
    Reader.skip length
    return .skipped

/-- What an operation makes of the bytes that it took. -/
def interpret : ReadOp → List UInt8 → Except ReadError ReadValue
  | uint8, taken => .ok (.uint8 (taken.headD 0))
  | bool, taken =>
    match taken.headD 0 with
    | 0 => .ok (.bool false)
    | 1 => .ok (.bool true)
    | b => .error (.invalidBool b)
  | int32, taken => .ok (.int32 (UInt32.ofNat (littleEndian taken)).toInt32)
  | uint64, taken => .ok (.uint64 (UInt64.ofNat (littleEndian taken)))
  | uint128, taken => .ok (.uint128 (BitVec.ofNat 128 (littleEndian taken)))
  | key, taken => .ok (.key (Base58.encode taken))
  | bytes _, taken => .ok (.bytes taken)
  | skip _, _ => .ok .skipped

end ReadOp

/-- The reader behind the next so many bytes. -/
def Reader.advance (r : Reader) (n : Nat) : Reader := ⟨r.offset + n, r.rest.drop n⟩

namespace ReadOp

variable {op : ReadOp} {r r' : Reader}

/-- An operation takes its bytes and then only looks at these. -/
theorem run_eq_take (op : ReadOp) :
    op.run = Reader.take op.width >>= fun taken =>
      match op.interpret taken with
      | .ok value => pure value
      | .error e => throw e := by
  cases op with
  | bool =>
    simp only [run, Reader.bool, Reader.uint8, bind_assoc, pure_bind, width, interpret]
    refine congrArg _ (funext fun taken => ?_)
    generalize taken.headD 0 = b
    split
    · rfl
    · rfl
    · simp only
      rfl
  | skip length =>
    simp only [run, Reader.skip, discard, LawfulFunctor.map_const, Function.comp_apply,
      map_eq_pure_bind, bind_assoc, pure_bind, width, interpret]
  | _ =>
    simp only [run, Reader.uint8, Reader.int32, Reader.uint64, Reader.uint128, Reader.key,
      bind_assoc, pure_bind, width, interpret]

/-- An operation takes its bytes and makes something of them, or runs past the end. -/
theorem run_eq (op : ReadOp) (r : Reader) :
    op.run r =
      if op.width ≤ r.remaining then
        match op.interpret (r.rest.take op.width) with
        | .ok value => .ok value (r.advance op.width)
        | .error e => .error e (r.advance op.width)
      else .error (.overflow op.width r.offset r.size) r := by
  rw [run_eq_take]
  split
  next h =>
    rw [bind_of_ok (Reader.take_of_le h)]
    cases op.interpret (r.rest.take op.width) <;> rfl
  next h => rw [bind_of_error (Reader.take_of_lt (Nat.lt_of_not_le h))]

/-- The only bytes of which an operation makes nothing are those that are no truth value. -/
theorem interpret_eq_error_iff {taken : List UInt8} {e : ReadError} :
    op.interpret taken = .error e ↔
      op = bool ∧ ∃ b, taken.headD 0 = b ∧ b ≠ 0 ∧ b ≠ 1 ∧ .invalidBool b = e := by
  cases op with
  | bool =>
    simp only [interpret]
    split <;> simp_all
  | _ => simp [interpret]

theorem run_eq_ok_iff {value : ReadValue} :
    op.run r = .ok value r' ↔
      op.width ≤ r.remaining ∧ op.interpret (r.rest.take op.width) = .ok value ∧
        r.advance op.width = r' := by
  rw [run_eq]
  split
  next h => cases op.interpret (r.rest.take op.width) <;> simp [h]
  next h => simp [h]

/-- An operation fails on a byte that is no truth value, which it takes, or past the end, where it
does not move. -/
theorem run_eq_error_iff {e : ReadError} :
    op.run r = .error e r' ↔
      (op = bool ∧ ∃ b, r.rest.head? = some b ∧ b ≠ 0 ∧ b ≠ 1 ∧ .invalidBool b = e ∧
        r.advance 1 = r') ∨
      (r.remaining < op.width ∧ .overflow op.width r.offset r.size = e ∧ r = r') := by
  rw [run_eq]
  by_cases hle : op.width ≤ r.remaining
  · have hinner : (match op.interpret (r.rest.take op.width) with
        | .ok value => EStateM.Result.ok value (r.advance op.width)
        | .error e => .error e (r.advance op.width)) = .error e r' ↔
        op.interpret (r.rest.take op.width) = .error e ∧ r.advance op.width = r' := by
      cases op.interpret (r.rest.take op.width) <;> simp
    rw [if_pos hle, hinner, interpret_eq_error_iff]
    simp only [Nat.not_lt.2 hle, false_and, or_false, and_assoc]
    refine and_congr_right fun hop => ?_
    subst hop
    obtain ⟨first, rest, hrest⟩ := List.exists_cons_of_length_pos (l := r.rest) hle
    simp [hrest, width, and_assoc]
  · have hnone : op = bool → r.rest.head? = none := by
      rintro rfl
      rw [List.head?_eq_none_iff, ← List.length_eq_zero_iff]
      exact Nat.lt_one_iff.1 (Nat.lt_of_not_le hle)
    rw [if_neg hle, EStateM.Result.error.injEq, or_iff_right]
    · simp only [Nat.lt_of_not_le hle, true_and]
    · rintro ⟨hop, b, hb, -⟩
      cases (hnone hop).symm.trans hb

end ReadOp

/-! ### Fields -/

/-- A value that is written into a buffer, or bytes that are passed over. -/
inductive Field
  | uint8 (n : UInt8)
  | bool (b : Bool)
  | int32 (n : Int32)
  | uint64 (n : UInt64)
  | uint128 (n : BitVec 128)
  | key (content : Vector UInt8 32)
  | bytes (content : List UInt8)
  | skipped (content : List UInt8)

namespace Field

/-- The bytes of a field. -/
def encode : Field → List UInt8
  | uint8 n => [n]
  | bool b => [if b then 1 else 0]
  | int32 n => toLittleEndian 4 n.toUInt32.toNat
  | uint64 n => toLittleEndian 8 n.toNat
  | uint128 n => toLittleEndian 16 n.toNat
  | key content => content.toList
  | bytes content => content
  | skipped content => content

/-- The operation that reads a field. -/
def op : Field → ReadOp
  | uint8 _ => .uint8
  | bool _ => .bool
  | int32 _ => .int32
  | uint64 _ => .uint64
  | uint128 _ => .uint128
  | key _ => .key
  | bytes content => .bytes content.length
  | skipped content => .skip content.length

/-- What is read of a field. -/
def value : Field → ReadValue
  | uint8 n => .uint8 n
  | bool b => .bool b
  | int32 n => .int32 n
  | uint64 n => .uint64 n
  | uint128 n => .uint128 n
  | key content => .key (Base58.encode content.toList)
  | bytes content => .bytes content
  | skipped _ => .skipped

theorem readsBack (field : Field) : ReadsBack field.op.run field.value field.encode := by
  cases field with
  | uint8 n => exact (readsBack_uint8 n).map ReadValue.uint8
  | bool b => exact (readsBack_bool b).map ReadValue.bool
  | int32 n => exact (readsBack_int32 n).map ReadValue.int32
  | uint64 n => exact (readsBack_uint64 n).map ReadValue.uint64
  | uint128 n => exact (readsBack_uint128 n).map ReadValue.uint128
  | key content => exact (readsBack_encode content.length_toList).map ReadValue.key
  | bytes content => exact (readsBack_take content).map ReadValue.bytes
  | skipped content =>
    rw [op, ReadOp.run_eq_take]
    exact (readsBack_take content).map fun _ => ReadValue.skipped

/-- Read some fields, one after the other, with the operations that match. -/
def readAll (fields : List Field) : Read (List ReadValue) :=
  fields.mapM fun field => field.op.run

theorem readsBack_readAll (fields : List Field) :
    ReadsBack (readAll fields) (fields.map value) (fields.flatMap encode) :=
  .mapM fun field _ => field.readsBack

end Field

/-! ### Readers in a buffer -/

namespace Reader

/-- A reader stands in a buffer: what is to come is what the buffer holds from the offset on. -/
structure StandsIn (r : Reader) (buffer : List UInt8) : Prop where
  rest_eq : r.rest = buffer.drop r.offset
  offset_add_remaining : r.offset + r.remaining = buffer.length

variable {r : Reader} {buffer : List UInt8}

theorem standsIn_ofBytes (buffer : List UInt8) : (ofBytes buffer).StandsIn buffer :=
  ⟨rfl, Nat.zero_add _⟩

theorem StandsIn.advance (h : r.StandsIn buffer) {n : Nat} (hn : n ≤ r.remaining) :
    (r.advance n).StandsIn buffer where
  rest_eq := by rw [Reader.advance, h.rest_eq, List.drop_drop]
  offset_add_remaining := by
    have hlength := h.offset_add_remaining
    simp only [Reader.advance, remaining, List.length_drop] at hn hlength ⊢
    omega

theorem StandsIn.lastState_run (h : r.StandsIn buffer) (op : ReadOp) :
    (lastState (op.run r)).StandsIn buffer := by
  rw [op.run_eq]
  split
  next hle => split <;> exact h.advance hle
  next => exact h

/-- The reader after some operations, each carried out where the one before left it, whether that
failed or not. -/
def after (ops : List ReadOp) (r : Reader) : Reader :=
  ops.foldl (fun r op => lastState (op.run r)) r

/-- No operations lead out of the buffer. -/
theorem StandsIn.after (h : r.StandsIn buffer) (ops : List ReadOp) :
    (r.after ops).StandsIn buffer := by
  induction ops generalizing r with
  | nil => exact h
  | cons op ops ih => exact ih (h.lastState_run op)

end Reader

/-- What an operation does to a reader in a buffer. -/
structure ReadOp.KeepsTo (op : ReadOp) (buffer : List UInt8) (r : Reader) : Prop where
  /-- The reader stands in the buffer before the operation. -/
  before : r.StandsIn buffer
  /-- The reader stands in the buffer after the operation. -/
  after : (lastState (op.run r)).StandsIn buffer
  /-- A successful operation takes just its width, and its value is made of these bytes. -/
  advances : ∀ {value r'}, op.run r = .ok value r' →
    r'.offset = r.offset + op.width ∧
      op.interpret ((buffer.drop r.offset).take op.width) = .ok value
  /-- An operation runs past the end exactly when its width exceeds what remains. -/
  overflow_iff : (∃ length offset size r', op.run r = .error (.overflow length offset size) r') ↔
    r.remaining < op.width
  /-- An operation that runs past the end says where it was and moves nothing. -/
  overflow_eq : r.remaining < op.width →
    op.run r = .error (.overflow op.width r.offset buffer.length) r
  /-- A failing operation that moves has read a byte that is no truth value. -/
  moves_iff : (∃ e r', op.run r = .error e r' ∧ r' ≠ r) ↔
    op = .bool ∧ ∃ b, buffer[r.offset]? = some b ∧ b ≠ 0 ∧ b ≠ 1
  /-- A byte that is no truth value is consumed. -/
  consumes : ∀ {b}, op = .bool → buffer[r.offset]? = some b → b ≠ 0 → b ≠ 1 →
    ∃ r', op.run r = .error (.invalidBool b) r' ∧ r'.offset = r.offset + 1

theorem ReadOp.keepsTo {r : Reader} {buffer : List UInt8} (h : r.StandsIn buffer) (op : ReadOp) :
    op.KeepsTo buffer r where
  before := h
  after := h.lastState_run op
  advances hrun := by
    obtain ⟨-, hvalue, rfl⟩ := run_eq_ok_iff.1 hrun
    rw [h.rest_eq] at hvalue
    exact ⟨rfl, hvalue⟩
  overflow_iff := by
    constructor
    · rintro ⟨length, offset, size, r', hrun⟩
      rcases run_eq_error_iff.1 hrun with ⟨-, b, -, -, -, herror, -⟩ | ⟨hlt, -⟩
      · cases herror
      · exact hlt
    · intro hlt
      exact ⟨_, _, _, _, run_eq_error_iff.2 (.inr ⟨hlt, rfl, rfl⟩)⟩
  overflow_eq hlt :=
    run_eq_error_iff.2 (.inr ⟨hlt, by rw [Reader.size, h.offset_add_remaining], rfl⟩)
  moves_iff := by
    rw [← List.head?_drop, ← h.rest_eq]
    constructor
    · rintro ⟨e, r', hrun, hmoved⟩
      rcases run_eq_error_iff.1 hrun with ⟨hop, b, hb, hzero, hone, -⟩ | ⟨-, -, rfl⟩
      · exact ⟨hop, b, hb, hzero, hone⟩
      · exact absurd rfl hmoved
    · rintro ⟨hop, b, hb, hzero, hone⟩
      refine ⟨_, _, run_eq_error_iff.2 (.inl ⟨hop, b, hb, hzero, hone, rfl, rfl⟩), fun heq => ?_⟩
      exact absurd (congrArg Reader.offset heq) (Nat.succ_ne_self _)
  consumes hop hb hzero hone := by
    rw [← List.head?_drop, ← h.rest_eq] at hb
    exact ⟨_, run_eq_error_iff.2 (.inl ⟨hop, _, hb, hzero, hone, rfl, rfl⟩), rfl⟩

/-- Fields are read back from their bytes, whatever follows, and the reader ends behind them. From
the start of any buffer, any operations, whether they succeed or not, leave a reader with which any
further operation keeps to the buffer. -/
theorem fields_read_back_within_buffer :
    (∀ (fields : List Field) (trailing : List UInt8),
      Field.readAll fields (.ofBytes (fields.flatMap Field.encode ++ trailing)) =
        .ok (fields.map Field.value) ⟨(fields.flatMap Field.encode).length, trailing⟩) ∧
    ∀ (buffer : List UInt8) (done : List ReadOp) (op : ReadOp),
      op.KeepsTo buffer ((Reader.ofBytes buffer).after done) := by
  constructor
  · intro fields trailing
    have hread := Field.readsBack_readAll fields 0 trailing
    rwa [Nat.zero_add] at hread
  · intro buffer done op
    exact op.keepsTo ((Reader.standsIn_ofBytes buffer).after done)

end PoolKlines
