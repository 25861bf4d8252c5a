/-!
# Base58

Bytes read as one big-endian number and written in base 58, with a `1` for every leading zero byte.

* `digitsOf` and `ofDigits` convert between numbers and their digits in any base;
* `Base58.encode` and `Base58.decode?`.
-/

namespace PoolKlines

/-- The digits of a number in a base of at least two, most significant first; zero has none. -/
def digitsOf (base n : Nat) : List Nat :=
  if n = 0 ∨ base < 2 then [] else digitsOf base (n / base) ++ [n % base]
termination_by n
decreasing_by exact Nat.div_lt_self (by omega) (by omega)

/-- The number with the given digits. -/
def ofDigits (base : Nat) (digits : List Nat) : Nat :=
  digits.foldl (fun n d => n * base + d) 0

@[simp] theorem digitsOf_zero (base : Nat) : digitsOf base 0 = [] := by
  unfold digitsOf
  simp

@[simp] theorem ofDigits_nil (base : Nat) : ofDigits base [] = 0 := rfl

theorem ofDigits_concat (base : Nat) (ds : List Nat) (d : Nat) :
    ofDigits base (ds ++ [d]) = ofDigits base ds * base + d := by
  simp [ofDigits]

theorem ofDigits_digitsOf {base : Nat} (h : 2 ≤ base) (n : Nat) :
    ofDigits base (digitsOf base n) = n := by
  induction n using Nat.strongRecOn with
  | ind n ih =>
    unfold digitsOf
    by_cases hn : n = 0
    · simp [hn]
    · rw [if_neg (by omega), ofDigits_concat, ih (n / base) (Nat.div_lt_self (by omega) (by omega))]
      exact Nat.div_add_mod' n base

namespace Base58

/-- The alphabet: digits and letters without `0`, `O`, `I` and `l`. -/
def alphabet : List Char :=
  "123456789ABCDEFGHJKLMNPQRSTUVWXYZabcdefghijkmnopqrstuvwxyz".toList

/-- The character for a value below 58. -/
def symbol (n : Nat) : Char := alphabet.getD n '1'

/-- The value of a character of the alphabet. -/
def value? (c : Char) : Option Nat := alphabet.idxOf? c

/-- The text for some bytes. -/
def encode (bytes : List UInt8) : String :=
  let zeros := bytes.takeWhile (· == 0)
  let number := ofDigits 256 (bytes.map UInt8.toNat)
  String.ofList (zeros.map (fun _ => '1') ++ (digitsOf 58 number).map symbol)

/-- The bytes of a text, unless it has a character outside the alphabet. -/
def decode? (text : String) : Option (List UInt8) := do
  let zeros := text.toList.takeWhile (· == '1')
  let values ← text.toList.mapM value?
  return zeros.map (fun _ => 0) ++ (digitsOf 256 (ofDigits 58 values)).map UInt8.ofNat

end Base58

end PoolKlines
