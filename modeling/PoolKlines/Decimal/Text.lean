import PoolKlines.Decimal.Basic
import PoolKlines.Text.Count

/-!
# Decimals as text

* `Decimal.toText` writes all digits of the scale, a leading zero below one, and no exponent;
* `Decimal.parse` reads the same form and is more liberal: a sign, an absent digit on one side of
  the point, separators `_` after a digit, and a power of ten after `e` or `E` are accepted, and
  digits that do not fit are rounded away on the first of them;
* `Decimal.shiftDown` and `Decimal.shiftUp` divide and multiply by a power of ten;
* `Decimal.ParseError` says what is wrong with a text.
-/

namespace PoolKlines.Decimal

/-! ### Writing -/

/-- The decimal digits of the magnitude, with leading zeros so that one digit precedes the
point. -/
def paddedDigits (d : Decimal) : List Char :=
  let digits := Nat.toDigits 10 d.magnitude
  List.replicate (d.scale + 1 - digits.length) '0' ++ digits

/-- The written form: a sign if negative, and a point if there are fractional digits. -/
def toText (d : Decimal) : String :=
  let digits := d.paddedDigits
  let whole := digits.take (digits.length - d.scale)
  let fraction := digits.drop (digits.length - d.scale)
  let magnitude := if d.scale = 0 then whole else whole ++ '.' :: fraction
  String.ofList (if d.negative then '-' :: magnitude else magnitude)

/-! ### Reading -/

/-- Why a text is no decimal. -/
inductive ParseError
  | empty
  | noDigits
  | unknownCharacter
  | twoPoints
  | leadingSeparator
  | tooManyDigits
  | roundedTooLarge
  | badExponent
  | tooLarge
  | scaleTooLarge (scale : Nat)
  deriving DecidableEq

/-- The wording of a parse error. -/
def ParseError.message : ParseError → String
  | .empty => "Invalid decimal: empty"
  | .noDigits => "Invalid decimal: no digits found"
  | .unknownCharacter => "Invalid decimal: unknown character"
  | .twoPoints => "Invalid decimal: two decimal points"
  | .leadingSeparator => "Invalid decimal: must start lead with a number"
  | .tooManyDigits => "Invalid decimal: overflow from too many digits"
  | .roundedTooLarge => "Invalid decimal: overflow from mantissa after rounding"
  | .badExponent => "Failed to parse"
  | .tooLarge => "Number exceeds maximum value that can be represented."
  | .scaleTooLarge scale =>
    "Scale exceeds the maximum precision allowed: " ++ toString scale ++ " > 28"

/-- The error for a character that cannot stand where it stands. -/
def ParseError.ofChar (c : Char) : ParseError :=
  if c = '.' then .twoPoints else if c = '_' then .leadingSeparator else .unknownCharacter

/-- The value of a digit. -/
def digit? (c : Char) : Option Nat :=
  if c.isDigit then some (c.toNat - '0'.toNat) else none

/-- Characters that may follow the deciding digit. -/
def isFiller (c : Char) : Bool := c.isDigit || c == '_'

/-- Round a magnitude on the characters that no longer fit: the first decides, a five going away
from zero, and the others only have to be digits or separators. A whole number that grows too large
is refused before the others are looked at. -/
def roundOnRest (m s : Nat) : List Char → Except ParseError (Nat × Nat)
  | [] => .ok (m, s)
  | c :: rest => do
    let d ← match digit? c with
      | some d => pure d
      | none => if c = '_' then pure 0 else throw (.ofChar c)
    if 5 ≤ d ∧ bound ≤ m + 1 ∧ s = 0 then throw .roundedTooLarge
    match rest.find? (!isFiller ·) with
    | some bad => throw (.ofChar bad)
    | none => pure ()
    if d < 5 then return (m, s)
    if m + 1 < bound then return (m + 1, s)
    return ((bound + 4) / 10, s - 1)

/-- A coefficient that may not have room in 64 bits with a further digit, with 255 to spare. -/
def isWide (m : Nat) : Bool := (UInt64.size - 1) / 10 - 255 ≤ m

/-- The characters that decide about rounding after a last digit was read onto the coefficient `m`.
In front of them separators are passed over if `m` is wide; otherwise one counts as the digit
zero. -/
def decidingRest (m : Nat) (rest : List Char) : List Char :=
  if isWide m then rest.dropWhile (· == '_') else rest

/-- Read the digits of a magnitude. `m` and `s` are the coefficient and scale so far, `point` says
that the point has been passed and `seen` that there was a digit. -/
def scanDigits (m s : Nat) (point seen : Bool) : List Char → Except ParseError (Nat × Nat)
  | [] => if seen then .ok (m, s) else .error .noDigits
  | c :: rest =>
    match digit? c with
    | some d =>
      if m * 10 + d < bound then
        let s := if point then s + 1 else s
        if s = 28 then roundOnRest (m * 10 + d) s (decidingRest m rest)
        else scanDigits (m * 10 + d) s point true rest
      else if point then roundOnRest m s (c :: rest)
      else .error .tooManyDigits
    | none =>
      if c = '.' ∧ point = false then scanDigits m s true seen rest
      else if c = '_' ∧ seen = true then scanDigits m s point true rest
      else .error (.ofChar c)

/-- Read an optional sign and a magnitude. -/
def scanSigned : List Char → Except ParseError (Int × Nat)
  | [] => .error .empty
  | '-' :: rest => (scanDigits 0 0 false false rest).map fun (m, s) => (-(m : Int), s)
  | '+' :: rest => (scanDigits 0 0 false false rest).map fun (m, s) => ((m : Int), s)
  | text => (scanDigits 0 0 false false text).map fun (m, s) => ((m : Int), s)

/-- Read a decimal without an exponent, which is never minus zero. -/
def parsePlain (text : List Char) : Except ParseError Decimal := do
  let (c, s) ← scanSigned text
  match ofParts? c s with
  | some d => return d
  | none => throw .tooManyDigits

/-- Divide by a power of ten. Digits beyond the largest scale are rounded away, a half going away
from zero, and the sign stays even if no digit does. -/
def shiftDown (d : Decimal) (e : Nat) : Decimal where
  negative := d.negative
  magnitude :=
    let unit := tenPow (d.scale + e - 28)
    (2 * d.magnitude + unit) / (2 * unit)
  scale := min 28 (d.scale + e)
  magnitude_lt := by
    have hd := d.magnitude_lt
    have hu : 1 ≤ tenPow (d.scale + e - 28) := tenPow_pos _
    refine Nat.lt_of_lt_of_le ((Nat.div_lt_iff_lt_mul (by omega)).2 ?_) (Nat.succ_le_of_lt hd)
    have := Nat.mul_le_mul_left (2 * d.magnitude) hu
    grind
  scale_le := Nat.min_le_left _ _

/-- Multiply by a power of ten, unless the result is too large. -/
def shiftUp (d : Decimal) (e : Nat) : Option Decimal :=
  if e ≤ d.scale then some { d with scale := d.scale - e, scale_le := by have := d.scale_le; omega }
  else ofMagnitude? d.negative (d.magnitude * tenPow (e - d.scale)) 0

/-- Multiply by the power of ten that `text` names, whose exponent is no further from zero than the
largest scale. -/
def applyExponent (d : Decimal) (text : List Char) : Except ParseError Decimal :=
  let (down, digits) := match text with
    | '-' :: digits => (true, digits)
    | digits => (false, digits)
  match parseCount UInt32.size (String.ofList digits) with
  | none => .error .badExponent
  | some e =>
    if 28 < e then .error (.scaleTooLarge e)
    else if down then .ok (d.shiftDown e)
    else
      match d.shiftUp e with
      | some d => .ok d
      | none => .error .tooLarge

/-- Read a decimal from characters. -/
def parseChars (text : List Char) : Except ParseError Decimal := do
  let isExponentMark (c : Char) : Bool := c == 'e' || c == 'E'
  let d ← parsePlain (text.takeWhile (!isExponentMark ·))
  match text.dropWhile (!isExponentMark ·) with
  | [] => return d
  | _ :: exponent => d.applyExponent exponent

/-- Read a decimal. -/
def parse (text : String) : Except ParseError Decimal := parseChars text.toList

end PoolKlines.Decimal
