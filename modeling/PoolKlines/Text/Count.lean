/-!
# Written counts

`parseCount` reads an unsigned number the way amounts and levels are written: ASCII digits, at most
one plus sign before them, and a value below a limit.
-/

namespace PoolKlines

/-- The value of ASCII digits. -/
def digitsValue (digits : List Char) : Nat :=
  digits.foldl (fun n c => n * 10 + (c.toNat - '0'.toNat)) 0

/-- The number below `limit` that a text stands for. -/
def parseCount (limit : Nat) (text : String) : Option Nat :=
  let digits := match text.toList with
    | '+' :: rest => rest
    | digits => digits
  if digits ≠ [] ∧ digits.all Char.isDigit ∧ digitsValue digits < limit then
    some (digitsValue digits)
  else none

/-- An unsigned 64-bit number. -/
def parseUInt64 (text : String) : Option UInt64 := (parseCount UInt64.size text).map UInt64.ofNat

end PoolKlines
