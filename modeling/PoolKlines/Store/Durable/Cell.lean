import PoolKlines.Number.Numeral
import PoolKlines.Store.Basic

/-!
# Cells of numbers

A column of whole numbers keeps a number that is not whole, and a text that is no numeral, as they
are. They take part in comparisons, but cannot be read as whole numbers.

* `NumberCell` is a cell of such a column, `NumberCell.ofText` what the column keeps of a text;
* `NumberCell.before` orders cells: numbers by value, and texts after them by their characters;
* `NumberCell.int` and `NumberCell.count` read a cell.
-/

namespace PoolKlines

/-- A cell of a column of whole numbers. -/
inductive NumberCell
  | integer (value : Int)
  | real (value : BinaryFraction)
  | text (value : String)
  deriving DecidableEq

namespace NumberCell

/-! ### Writing -/

/-- A signed number. -/
def ofInt64 (n : Int64) : NumberCell := integer n.toInt

/-- An unsigned number, as the signed number with the same bits. -/
def ofUInt64 (n : UInt64) : NumberCell := ofInt64 n.toInt64

/-- A number that is not written as a whole one is whole if its value is, strictly within the limits
of 64 bits. -/
def ofReal (x : BinaryFraction) : NumberCell :=
  match x.int? with
  | some n => if n.natAbs < Int64.maxValue.toInt.natAbs + 1 then integer n else real x
  | none => real x

/-- A numeral. Digits alone are exact within 64 bits. -/
def ofNumeral (n : Numeral) : NumberCell :=
  match n.int?.filter fun v => (Int64.ofInt v).toInt = v with
  | some v => integer v
  | none => ofReal n.real

/-- What a column of whole numbers keeps of a text. -/
def ofText (value : String) : NumberCell :=
  match Numeral.ofChars? value.toList with
  | some n => ofNumeral n
  | none => text value

/-! ### Order -/

/-- The value of a number. -/
def number? : NumberCell → Option BinaryFraction
  | integer n => some (.ofInt n)
  | real x => some x
  | text _ => none

/-- The lower of two cells comes first. -/
def before (a b : NumberCell) : Bool :=
  match a, b with
  | text s, text t => (compare s t).isLT
  | a, b =>
    match a.number?, b.number? with
    | some x, some y => x.before y
    | some _, none => true
    | none, _ => false

instance : Max NumberCell where
  max a b := if a.before b then b else a

@[simp] theorem before_integer (m n : Int) :
    (integer m).before (integer n) = decide (m < n) := by
  simp [before, number?]

theorem max_def (a b : NumberCell) : max a b = if a.before b then b else a := rfl

/-! ### Reading -/

/-- The whole number in a column. -/
def int (column : Nat) (name : String) : NumberCell → Except DatabaseFault Int
  | integer n => .ok n
  | real _ => .error (.columnType column name .real)
  | text _ => .error (.columnType column name .text)

/-- The signed number in a column. -/
def int64 (column : Nat) (name : String) (c : NumberCell) : Except DatabaseFault Int64 :=
  (c.int column name).map Int64.ofInt

/-- The unsigned number in a column. -/
def count (column : Nat) (name : String) (c : NumberCell) : Except DatabaseFault UInt64 :=
  (c.int64 column name).map Int64.toUInt64

@[simp] theorem int64_ofInt64 (column : Nat) (name : String) (n : Int64) :
    (ofInt64 n).int64 column name = .ok n := by
  simp [ofInt64, int64, int, Except.map]

@[simp] theorem count_ofUInt64 (column : Nat) (name : String) (n : UInt64) :
    (ofUInt64 n).count column name = .ok n := by
  simp [ofUInt64, count, Except.map]

end NumberCell

end PoolKlines
