/-!
# JSON values

* `Json` keeps whole numbers apart from other numbers, and the order and repetition of fields;
* `Json.render` writes a value without spaces.

A string whose escapes leave half of a surrogate pair alone stands for no text. It is kept as
`Json.unpaired`, as is an object with such a name, since a reader that passes over the value
accepts it.
-/

namespace PoolKlines

/-- A JSON value. -/
inductive Json
  | null
  | bool (value : Bool)
  | integer (value : Int)
  /-- A number with a point or an exponent, or minus zero. -/
  | fraction (literal : List Char)
  | string (value : String)
  /-- A string, or an object with a name, that holds half of a surrogate pair. -/
  | unpaired
  | array (items : List Json)
  | object (fields : List (String × Json))

namespace Json

instance : Inhabited Json := ⟨null⟩

/-- A field that is `null` when absent. -/
def ofOption {α : Type} (encode : α → Json) : Option α → Json
  | none => null
  | some a => encode a

/-- An unsigned 64-bit number. -/
def ofUInt64 (n : UInt64) : Json := integer n.toNat

/-- A list of strings. -/
def ofStrings (texts : List String) : Json := array (texts.map string)

/-! ### Writing -/

/-- The hexadecimal digit of a value below sixteen. -/
def hexDigit (n : Nat) : Char := if n < 10 then Char.ofNat (48 + n) else Char.ofNat (87 + n)

/-- The character as it stands in a string. -/
def escape (c : Char) : List Char :=
  if c = '"' then ['\\', '"']
  else if c = '\\' then ['\\', '\\']
  else if c = '\n' then ['\\', 'n']
  else if c = '\r' then ['\\', 'r']
  else if c = '\t' then ['\\', 't']
  else if c.toNat = 8 then ['\\', 'b']
  else if c.toNat = 12 then ['\\', 'f']
  else if c.toNat < 32 then
    ['\\', 'u', '0', '0', hexDigit (c.toNat / 16), hexDigit (c.toNat % 16)]
  else [c]

/-- A string in quotes. -/
def quote (text : String) : List Char := '"' :: (text.toList.flatMap escape ++ ['"'])

/-- A whole number. -/
def renderInt (n : Int) : List Char :=
  let digits := Nat.toDigits 10 n.natAbs
  if n < 0 then '-' :: digits else digits

mutual

/-- The characters of a value. -/
def renderChars : Json → List Char
  | null => ['n', 'u', 'l', 'l']
  | bool true => ['t', 'r', 'u', 'e']
  | bool false => ['f', 'a', 'l', 's', 'e']
  | integer n => renderInt n
  | fraction literal => literal
  | string text => quote text
  | unpaired => ['"', '\\', 'u', 'd', '8', '0', '0', '"']
  | array [] => ['[', ']']
  | array (item :: items) => '[' :: (renderChars item ++ renderItems items)
  | object [] => ['\x7b', '\x7d']
  | object ((name, value) :: fields) =>
    '\x7b' :: (quote name ++ ':' :: (renderChars value ++ renderFields fields))

/-- The items after the first, with the closing bracket. -/
def renderItems : List Json → List Char
  | [] => [']']
  | item :: items => ',' :: (renderChars item ++ renderItems items)

/-- The fields after the first, with the closing brace. -/
def renderFields : List (String × Json) → List Char
  | [] => ['\x7d']
  | (name, value) :: fields =>
    ',' :: (quote name ++ ':' :: (renderChars value ++ renderFields fields))

end

/-- The text of a value. -/
def render (j : Json) : String := String.ofList j.renderChars

end Json

end PoolKlines
