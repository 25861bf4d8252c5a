/-!
# Little-endian numbers

* `littleEndian` is the number of some bytes, the first being the least significant;
* `toLittleEndian` writes a number in a given number of bytes;
* `uint64At?` reads eight bytes at an offset.
-/

namespace PoolKlines

/-- The number whose bytes are given, least significant first. -/
def littleEndian : List UInt8 → Nat
  | [] => 0
  | b :: bs => b.toNat + 256 * littleEndian bs

/-- The `width` lowest bytes of a number, least significant first. -/
def toLittleEndian : Nat → Nat → List UInt8
  | 0, _ => []
  | width + 1, n => UInt8.ofNat (n % 256) :: toLittleEndian width (n / 256)

@[simp] theorem littleEndian_nil : littleEndian [] = 0 := rfl

@[simp] theorem littleEndian_cons (b : UInt8) (bs : List UInt8) :
    littleEndian (b :: bs) = b.toNat + 256 * littleEndian bs := rfl

@[simp] theorem toLittleEndian_zero (n : Nat) : toLittleEndian 0 n = [] := rfl

@[simp] theorem length_toLittleEndian (width n : Nat) :
    (toLittleEndian width n).length = width := by
  induction width generalizing n with
  | zero => rfl
  | succ width ih => simp [toLittleEndian, ih]

theorem littleEndian_toLittleEndian (width n : Nat) :
    littleEndian (toLittleEndian width n) = n % Nat.pow 256 width := by
  induction width generalizing n with
  | zero => exact (Nat.mod_one n).symm
  | succ width ih =>
    have hp : Nat.pow 256 (width + 1) = 256 * Nat.pow 256 width := Nat.mul_comm _ _
    rw [toLittleEndian, littleEndian_cons, ih, hp, Nat.mod_mul, UInt8.toNat_ofNat']
    simp

/-- The unsigned 64-bit number at an offset, if eight bytes are there. -/
def uint64At? (bytes : List UInt8) (offset : Nat) : Option UInt64 :=
  if offset + 8 ≤ bytes.length then
    some (UInt64.ofNat (littleEndian ((bytes.drop offset).take 8)))
  else none

end PoolKlines
