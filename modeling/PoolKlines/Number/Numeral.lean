import PoolKlines.Number.Binary
import PoolKlines.Text.Count

/-!
# Numerals

A numeral is a sign, digits with at most one point among them, and a power of ten. Blanks around it
do not count.

* `Numeral.ofChars?` reads a numeral;
* `Numeral.int?` is the value of a numeral without a point and a power of ten;
* `Numeral.real` is the value of any numeral as a number of 64 bits. The digits that fit into 64
  bits are taken exactly, and then multiplied by powers of ten in steps that are rounded one by one.
-/

namespace PoolKlines

/-- A sign, the digits before and after the point, and the power of ten. -/
structure Numeral where
  negative : Bool
  whole : List Char
  fraction : Option (List Char)
  exponent : Option Int
  deriving DecidableEq

namespace Numeral

/-! ### Reading -/

/-- The character may stand before and after a numeral: a space, or one of the five characters from
tab to carriage return. -/
def isPadding (c : Char) : Bool := c == ' ' || (9 ≤ c.toNat && c.toNat ≤ 13)

/-- The text without the padding on both sides. -/
def trim (text : List Char) : List Char :=
  ((text.dropWhile isPadding).reverse.dropWhile isPadding).reverse

/-- Split an optional sign from a text. -/
def splitSign : List Char → Bool × List Char
  | '-' :: rest => (true, rest)
  | '+' :: rest => (false, rest)
  | text => (false, text)

/-- Split the digits after a point from a text. -/
def splitFraction : List Char → Option (List Char) × List Char
  | '.' :: rest => (some (rest.takeWhile Char.isDigit), rest.dropWhile Char.isDigit)
  | text => (none, text)

/-- The value of the digits of a power of ten, of which those after the first five do not count. -/
def exponentValue (digits : List Char) : Nat :=
  digits.foldl (fun e c => if e < 10000 then e * 10 + (c.toNat - '0'.toNat) else 10000) 0

/-- Read the power of ten after the digits, if there is one. -/
def exponent? : List Char → Option (Option Int)
  | [] => some none
  | c :: rest =>
    let (negative, digits) := splitSign rest
    if (c = 'e' ∨ c = 'E') ∧ digits ≠ [] ∧ digits.all Char.isDigit then
      some (some (if negative then -(exponentValue digits : Int) else exponentValue digits))
    else none

/-- Read a numeral, which has at least one digit. -/
def ofChars? (text : List Char) : Option Numeral := do
  let (negative, text) := splitSign (trim text)
  let whole := text.takeWhile Char.isDigit
  let (fraction, rest) := splitFraction (text.dropWhile Char.isDigit)
  if whole = [] ∧ fraction.getD [] = [] then none
  return ⟨negative, whole, fraction, ← exponent? rest⟩

/-! ### Values -/

/-- A magnitude with the sign of the numeral. -/
def signed (n : Numeral) (magnitude : Nat) : Int :=
  if n.negative then -(magnitude : Int) else magnitude

/-- The value of a numeral of digits alone. -/
def int? (n : Numeral) : Option Int :=
  if n.fraction = none ∧ n.exponent = none then some (n.signed (digitsValue n.whole)) else none

/-- Append digits to a significand as long as there is certainly room for one in 64 bits, and count
those that are left out. -/
def append (s : Nat) : List Char → Nat × Nat
  | [] => (s, 0)
  | c :: rest =>
    if s < (UInt64.size - 10) / 10 then append (s * 10 + (c.toNat - '0'.toNat)) rest
    else (s, rest.length + 1)

/-- The significand and the power of ten that the digits and the exponent make up. -/
def parts (n : Numeral) : Nat × Int :=
  let fraction := n.fraction.getD []
  let (s, left) := append 0 n.whole
  let (s, left') := append s fraction
  (s, left + left' - fraction.length + n.exponent.getD 0)

/-- Move a power of ten into a significand, as far as 64 bits allow. -/
def absorb (s : Nat) : Nat → Nat × Nat
  | 0 => (s, 0)
  | e + 1 => if s < (UInt64.size - 1) / 10 then absorb (s * 10) e else (s, e + 1)

/-- Cancel a negative power of ten against the zeros at the end of a significand. -/
def cancel (s : Nat) : Nat → Nat × Nat
  | 0 => (s, 0)
  | e + 1 => if s % 10 = 0 then cancel (s / 10) e else (s, e + 1)

/-- Multiply by a power of ten in steps of 100, of 10 and of 1, as often as each goes into what is
left of `e`; `unit k` is the factor for a step of `k`, and every product is rounded. -/
def scaleBy (unit : Nat → Binary) (e : Nat) (b : Binary) : Binary :=
  let times (k count : Nat) : Binary → Binary :=
    Nat.repeat (BinaryFormat.extended.mul · (unit k)) count
  times 1 (e % 10) (times 10 (e / 10 % 10) (times 100 (e / 100) b))

/-- The number of 64 bits for a significand times a power of ten. -/
def scaled (s : Nat) (e : Int) : Binary :=
  let extended := BinaryFormat.extended
  BinaryFormat.double.round <|
    if 0 ≤ e then
      let (s, e) := absorb s e.toNat
      scaleBy (fun k => extended.ofRatio (tenPow k) 1) e ⟨s, 0⟩
    else
      let (s, e) := cancel s (-e).toNat
      scaleBy (fun k => extended.ofRatio 1 (tenPow k)) e ⟨s, 0⟩

/-- The value as a number of 64 bits. Two to the power 1024 stands for everything from there on. -/
def real (n : Numeral) : BinaryFraction :=
  let (s, e) := n.parts
  if s = 0 then .ofInt 0
  else
    let b := scaled s e
    ⟨n.signed (min b.numerator (twoPow 1024)), (-b.exponent).toNat⟩

end Numeral

end PoolKlines
