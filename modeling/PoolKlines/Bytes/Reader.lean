import PoolKlines.Bytes.Base58
import PoolKlines.Bytes.LittleEndian

/-!
# Reading fixed-width fields

* `Reader` is what has been read, by length, and what is still to come;
* `Read α` is a read of an `α`, which may fail and says where the reader stands afterwards;
* `Reader.take` is the one operation that moves; the others interpret what it takes.

A read that runs past the end does not move the reader. A byte that is no truth value is consumed.
-/

namespace PoolKlines

/-- A position in a buffer: the number of bytes before it and the bytes after it. -/
structure Reader where
  offset : Nat
  rest : List UInt8
  deriving DecidableEq

/-- Why a read failed. -/
inductive ReadError
  | overflow (length offset bufferLength : Nat)
  | invalidBool (byte : UInt8)
  deriving DecidableEq

/-- The wording of a read error. -/
def ReadError.message : ReadError → String
  | .overflow length offset bufferLength =>
    "buffer overflow: trying to read " ++ toString length ++ " bytes at offset " ++
      toString offset ++ " from buffer of length " ++ toString bufferLength
  | .invalidBool byte => "invalid bool byte " ++ toString byte.toNat

/-- A read of an `α`. -/
abbrev Read (α : Type) := EStateM ReadError Reader α

namespace Reader

/-- A reader at the start of a buffer. -/
def ofBytes (bytes : List UInt8) : Reader := ⟨0, bytes⟩

/-- The number of bytes still to come. -/
def remaining (r : Reader) : Nat := r.rest.length

/-- The length of the whole buffer. -/
def size (r : Reader) : Nat := r.offset + r.remaining

/-- The next `n` bytes. -/
def take (n : Nat) : Read (List UInt8) := fun r =>
  if n ≤ r.remaining then .ok (r.rest.take n) ⟨r.offset + n, r.rest.drop n⟩
  else .error (.overflow n r.offset r.size) r

/-- One byte. -/
def uint8 : Read UInt8 := do return (← take 1).headD 0

/-- One byte that is zero or one. -/
def bool : Read Bool := do
  match ← uint8 with
  | 0 => return false
  | 1 => return true
  | b => throw (.invalidBool b)

/-- A signed number of four bytes. -/
def int32 : Read Int32 := do return (UInt32.ofNat (littleEndian (← take 4))).toInt32

/-- An unsigned number of eight bytes. -/
def uint64 : Read UInt64 := do return UInt64.ofNat (littleEndian (← take 8))

/-- An unsigned number of sixteen bytes. -/
def uint128 : Read (BitVec 128) := do return BitVec.ofNat 128 (littleEndian (← take 16))

/-- A key of 32 bytes, as base58 text. -/
def key : Read String := do return Base58.encode (← take 32)

/-- Pass over `n` bytes. -/
def skip (n : Nat) : Read Unit := do discard (take n)

@[simp] theorem size_ofBytes (bytes : List UInt8) : (ofBytes bytes).size = bytes.length := by
  simp [size, ofBytes, remaining]

theorem take_of_le {n : Nat} {r : Reader} (h : n ≤ r.remaining) :
    take n r = .ok (r.rest.take n) ⟨r.offset + n, r.rest.drop n⟩ := by
  simp [take, h]

theorem take_of_lt {n : Nat} {r : Reader} (h : r.remaining < n) :
    take n r = .error (.overflow n r.offset r.size) r := by
  simp [take, Nat.not_le.2 h]

end Reader

/-- What a read gives for a whole buffer. -/
def Read.run? {α : Type} (read : Read α) (bytes : List UInt8) : Except ReadError α :=
  match read (.ofBytes bytes) with
  | .ok value _ => .ok value
  | .error e _ => .error e

end PoolKlines
