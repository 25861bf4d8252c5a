/-!
# Blank characters

* `isBlank` holds of the 25 characters with the Unicode property `White_Space`;
* `trimTrailing` removes them from the end of a text.
-/

namespace PoolKlines

/-- The character has the Unicode property `White_Space`. -/
def isBlank (c : Char) : Bool :=
  let n := c.toNat
  (0x9 ≤ n && n ≤ 0xd) || n == 0x20 || n == 0x85 || n == 0xa0 || n == 0x1680 ||
    (0x2000 ≤ n && n ≤ 0x200a) || n == 0x2028 || n == 0x2029 || n == 0x202f || n == 0x205f ||
    n == 0x3000

/-- The text without the blank characters at its end. -/
def trimTrailing (text : List Char) : List Char := (text.reverse.dropWhile isBlank).reverse

@[simp] theorem trimTrailing_nil : trimTrailing [] = [] := rfl

end PoolKlines
