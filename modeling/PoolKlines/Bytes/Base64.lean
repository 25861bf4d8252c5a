/-!
# Base64

The standard alphabet with mandatory padding, read strictly: unused bits have to be zero, and every
refusal names the offending byte.

* `Base64.encode` writes bytes as text, `Base64.decode` reads them back;
* `Base64.DecodeError` and its `message`.

The text is read in chunks of eight bytes. A padding character is known as such only in the last
chunk, and within that chunk the first wrong byte decides.
-/

namespace PoolKlines.Base64

/-- The character for a six-bit value. -/
def symbol (n : Nat) : Char :=
  if n < 26 then Char.ofNat (65 + n)
  else if n < 52 then Char.ofNat (71 + n)
  else if n < 62 then Char.ofNat (n - 4)
  else if n = 62 then '+'
  else '/'

/-- The six-bit value of a byte of the alphabet. -/
def value? (b : UInt8) : Option Nat :=
  let n := b.toNat
  if 65 ≤ n ∧ n ≤ 90 then some (n - 65)
  else if 97 ≤ n ∧ n ≤ 122 then some (n - 71)
  else if 48 ≤ n ∧ n ≤ 57 then some (n + 4)
  else if n = 43 then some 62
  else if n = 47 then some 63
  else none

/-- The padding character as a byte. -/
def padding : UInt8 := 61

/-! ### Writing -/

/-- The characters for some bytes, three bytes at a time. -/
def encodeChars : List UInt8 → List Char
  | a :: b :: c :: rest =>
    let n := a.toNat * 65536 + b.toNat * 256 + c.toNat
    symbol (n / 262144) :: symbol (n / 4096 % 64) :: symbol (n / 64 % 64) :: symbol (n % 64) ::
      encodeChars rest
  | [a, b] =>
    let n := a.toNat * 1024 + b.toNat * 4
    [symbol (n / 4096), symbol (n / 64 % 64), symbol (n % 64), '=']
  | [a] =>
    let n := a.toNat * 16
    [symbol (n / 64), symbol (n % 64), '=', '=']
  | [] => []

/-- The text for some bytes. -/
def encode (bytes : List UInt8) : String := String.ofList (encodeChars bytes)

/-! ### Reading -/

/-- Why a text is not base64. -/
inductive DecodeError
  | invalidByte (offset : Nat) (byte : UInt8)
  | invalidLength
  | invalidLastSymbol (offset : Nat) (byte : UInt8)
  | invalidPadding
  deriving DecidableEq

/-- The wording of a decoding error. -/
def DecodeError.message : DecodeError → String
  | .invalidByte offset byte =>
    "Invalid byte " ++ toString byte.toNat ++ ", offset " ++ toString offset ++ "."
  | .invalidLength => "Encoded text cannot have a 6-bit remainder."
  | .invalidLastSymbol offset byte =>
    "Invalid last symbol " ++ toString byte.toNat ++ ", offset " ++ toString offset ++ "."
  | .invalidPadding => "Invalid padding"

/-- The values of bytes that start at `offset`, all of which have to be of the alphabet. -/
def valuesFrom (offset : Nat) : List UInt8 → Except DecodeError (List Nat)
  | [] => .ok []
  | b :: rest =>
    match value? b with
    | none => .error (.invalidByte offset b)
    | some v => (valuesFrom (offset + 1) rest).map (v :: ·)

/-- Padding from `offset` to the end: `first` is where it began. -/
def checkPadding (first offset : Nat) : List UInt8 → Except DecodeError Unit
  | [] => .ok ()
  | b :: rest =>
    if b = padding ∧ 2 ≤ offset % 4 then checkPadding first (offset + 1) rest
    else .error (.invalidByte first padding)

/-- The values of the last chunk, which starts at `offset` and may end in padding. -/
def lastValuesFrom (offset : Nat) : List UInt8 → Except DecodeError (List Nat)
  | [] => .ok []
  | b :: rest =>
    if b = padding then
      if offset % 4 < 2 then .error (.invalidByte offset b)
      else (checkPadding offset (offset + 1) rest).map fun _ => []
    else
      match value? b with
      | none => .error (.invalidByte offset b)
      | some v => (lastValuesFrom (offset + 1) rest).map (v :: ·)

/-- The bytes of six-bit values, four values at a time; `none` if the last value has unused bits
that are not zero. -/
def joinValues? : List Nat → Option (List UInt8)
  | a :: b :: c :: d :: rest =>
    let n := a * 262144 + b * 4096 + c * 64 + d
    (joinValues? rest).map fun bytes =>
      UInt8.ofNat (n / 65536) :: UInt8.ofNat (n / 256 % 256) :: UInt8.ofNat (n % 256) :: bytes
  | [a, b, c] =>
    let n := a * 4096 + b * 64 + c
    if n % 4 = 0 then some [UInt8.ofNat (n / 1024), UInt8.ofNat (n / 4 % 256)] else none
  | [a, b] =>
    let n := a * 64 + b
    if n % 16 = 0 then some [UInt8.ofNat (n / 16)] else none
  | _ => some []

/-- Read the bytes of a text. -/
def decodeBytes (text : List UInt8) : Except DecodeError (List UInt8) := do
  let size := text.length
  if size % 4 = 1 then
    match text.getLast? with
    | some b =>
      if b ≠ padding ∧ value? b = none then throw (.invalidByte (size - 1) b)
      else throw .invalidLength
    | none => throw .invalidLength
  let start := 8 * ((size - 1) / 8)
  let front ← valuesFrom 0 (text.take start)
  let back ← lastValuesFrom start (text.drop start)
  if size % 4 ≠ 0 then throw .invalidPadding
  match joinValues? (front ++ back) with
  | some bytes => return bytes
  | none =>
    let last := start + back.length - 1
    throw (.invalidLastSymbol last (text.getD last 0))

/-- Read a text. -/
def decode (text : String) : Except DecodeError (List UInt8) :=
  decodeBytes text.toUTF8.toList

end PoolKlines.Base64
