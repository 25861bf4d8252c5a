import PoolKlines.Json.Basic
import PoolKlines.Text.Count

/-!
# Reading JSON

`Json.parse` reads one value and accepts nothing but blanks after it. Strings may not hold raw
control characters, whole numbers have no leading zero, and nesting is not limited.

The readers take the characters and answer a value with the characters after it. Readers of nested
values go by a bound that the length of the text provides.
-/

namespace PoolKlines.Json

/-- The characters after leading blanks. -/
def skipBlanks (text : List Char) : List Char :=
  text.dropWhile fun c => c == ' ' || c == '\n' || c == '\t' || c == '\r'

/-! ### Strings -/

/-- The value of a hexadecimal digit. -/
def hexValue? (c : Char) : Option Nat :=
  if '0' ≤ c ∧ c ≤ '9' then some (c.toNat - 48)
  else if 'a' ≤ c ∧ c ≤ 'f' then some (c.toNat - 87)
  else if 'A' ≤ c ∧ c ≤ 'F' then some (c.toNat - 55)
  else none

/-- The value of four hexadecimal digits. -/
def hexUnit? (a b c d : Char) : Option Nat := do
  return ((← hexValue? a) * 16 + (← hexValue? b)) * 256 + (← hexValue? c) * 16 + (← hexValue? d)

/-- The character a one-letter escape stands for. -/
def shortEscape? (c : Char) : Option Char :=
  if c = '"' ∨ c = '\\' ∨ c = '/' then some c
  else if c = 'n' then some '\n'
  else if c = 't' then some '\t'
  else if c = 'r' then some '\r'
  else if c = 'b' then some (Char.ofNat 8)
  else if c = 'f' then some (Char.ofNat 12)
  else none

/-- A piece of a string: a character, or a code unit written as four hexadecimal digits. -/
inductive Piece
  | char (c : Char)
  | unit (value : Nat)

/-- Read the pieces of a string after its opening quote. -/
def readPieces : List Char → Option (List Piece × List Char)
  | [] => none
  | '"' :: rest => some ([], rest)
  | '\\' :: 'u' :: a :: b :: c :: d :: rest =>
    match hexUnit? a b c d with
    | none => none
    | some unit => (readPieces rest).map fun (pieces, rest) => (.unit unit :: pieces, rest)
  | '\\' :: c :: rest =>
    match shortEscape? c with
    | none => none
    | some c => (readPieces rest).map fun (pieces, rest) => (.char c :: pieces, rest)
  | c :: rest =>
    if c.toNat < 32 then none
    else (readPieces rest).map fun (pieces, rest) => (.char c :: pieces, rest)

/-- The unit is the first half of a surrogate pair. -/
def isHighHalf (unit : Nat) : Bool := 0xd800 ≤ unit && unit < 0xdc00

/-- The unit is the second half of a surrogate pair. -/
def isLowHalf (unit : Nat) : Bool := 0xdc00 ≤ unit && unit < 0xe000

/-- The characters that pieces stand for, unless half of a surrogate pair stands alone. -/
def joinPieces? : List Piece → Option (List Char)
  | [] => some []
  | .char c :: rest => (joinPieces? rest).map (c :: ·)
  | .unit high :: .unit low :: rest =>
    if isHighHalf high then
      if isLowHalf low then
        (joinPieces? rest).map
          (Char.ofNat (0x10000 + (high - 0xd800) * 0x400 + (low - 0xdc00)) :: ·)
      else none
    else if isLowHalf high then none
    else (joinPieces? (.unit low :: rest)).map (Char.ofNat high :: ·)
  | .unit unit :: rest =>
    if isHighHalf unit || isLowHalf unit then none
    else (joinPieces? rest).map (Char.ofNat unit :: ·)

/-- Read a string after its opening quote; it stands for no text if half of a surrogate pair
stands alone in it. -/
def readString (text : List Char) : Option (Option String × List Char) :=
  (readPieces text).map fun (pieces, rest) => ((joinPieces? pieces).map String.ofList, rest)

/-! ### Numbers -/

/-- Split off the digits at the start, of which there has to be one. -/
def readDigits (text : List Char) : Option (List Char × List Char) :=
  let digits := text.takeWhile Char.isDigit
  if digits = [] then none else some (digits, text.dropWhile Char.isDigit)

/-- The digits of the whole part: no leading zero unless it is the only digit. -/
def readWhole (text : List Char) : Option (List Char × List Char) := do
  let (digits, rest) ← readDigits text
  if digits.head? = some '0' ∧ digits.length ≠ 1 then none else return (digits, rest)

/-- A fraction part, empty if there is no point. -/
def readFraction : List Char → Option (List Char × List Char)
  | '.' :: rest => (readDigits rest).map fun (digits, rest) => ('.' :: digits, rest)
  | text => some ([], text)

/-- An exponent part, empty if there is no exponent mark. -/
def readExponent : List Char → Option (List Char × List Char)
  | [] => some ([], [])
  | mark :: rest =>
    if mark = 'e' ∨ mark = 'E' then
      match rest with
      | '+' :: rest => (readDigits rest).map fun (digits, rest) => (mark :: '+' :: digits, rest)
      | '-' :: rest => (readDigits rest).map fun (digits, rest) => (mark :: '-' :: digits, rest)
      | rest => (readDigits rest).map fun (digits, rest) => (mark :: digits, rest)
    else some ([], mark :: rest)

/-- Read a number. -/
def readNumber (text : List Char) : Option (Json × List Char) := do
  let (sign, rest) := match text with
    | '-' :: rest => (['-'], rest)
    | rest => ([], rest)
  let (whole, rest) ← readWhole rest
  let (fractionPart, rest) ← readFraction rest
  let (exponent, rest) ← readExponent rest
  if fractionPart = [] ∧ exponent = [] ∧ ¬(sign ≠ [] ∧ whole = ['0']) then
    let n := (digitsValue whole : Int)
    return (integer (if sign = [] then n else -n), rest)
  else return (fraction (sign ++ whole ++ fractionPart ++ exponent), rest)

/-! ### Values -/

/-- The name of a field after its opening quote, and the text after the colon. -/
def readName (text : List Char) : Option (Option String × List Char) := do
  let (name, rest) ← readString text
  match skipBlanks rest with
  | ':' :: rest => some (name, rest)
  | _ => none

mutual

/-- Read a value. -/
def readValue : Nat → List Char → Option (Json × List Char)
  | 0, _ => none
  | bound + 1, text =>
    match skipBlanks text with
    | 'n' :: 'u' :: 'l' :: 'l' :: rest => some (null, rest)
    | 't' :: 'r' :: 'u' :: 'e' :: rest => some (bool true, rest)
    | 'f' :: 'a' :: 'l' :: 's' :: 'e' :: rest => some (bool false, rest)
    | '"' :: rest =>
      (readString rest).map fun (content, rest) =>
        (match content with
          | some text => string text
          | none => unpaired, rest)
    | '[' :: rest =>
      match skipBlanks rest with
      | ']' :: rest => some (array [], rest)
      | rest => (readItems bound rest).map fun (items, rest) => (array items, rest)
    | '\x7b' :: rest =>
      match skipBlanks rest with
      | '\x7d' :: rest => some (object [], rest)
      | rest =>
        (readFields bound rest).map fun (fields, rest) =>
          (match fields with
            | some fields => object fields
            | none => unpaired, rest)
    | rest => readNumber rest

/-- Read the items of an array, at least one, and the closing bracket. -/
def readItems : Nat → List Char → Option (List Json × List Char)
  | 0, _ => none
  | bound + 1, text => do
    let (item, rest) ← readValue bound text
    match skipBlanks rest with
    | ',' :: rest =>
      let (items, rest) ← readItems bound rest
      some (item :: items, rest)
    | ']' :: rest => some ([item], rest)
    | _ => none

/-- Read the fields of an object, at least one, and the closing brace. -/
def readFields : Nat → List Char → Option (Option (List (String × Json)) × List Char)
  | 0, _ => none
  | bound + 1, text =>
    match skipBlanks text with
    | '"' :: rest => do
      let (name, rest) ← readName rest
      let (value, rest) ← readValue bound rest
      let field := name.map (·, value)
      match skipBlanks rest with
      | ',' :: rest =>
        let (fields, rest) ← readFields bound rest
        some (return (← field) :: (← fields), rest)
      | '\x7d' :: rest => some (return [← field], rest)
      | _ => none
    | _ => none

end

/-- Read a text that holds one value. -/
def parseChars (text : List Char) : Option Json := do
  let (value, rest) ← readValue (text.length + 1) text
  if skipBlanks rest = [] then some value else none

/-- Read a text that holds one value. -/
def parse (text : String) : Option Json := parseChars text.toList

end PoolKlines.Json
