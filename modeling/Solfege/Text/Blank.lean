/-!
# Solfege.Text.Blank

White space in the sense of the Unicode property `White_Space`, and trimming by it.

* `isBlank` — the character has the property.
* `trim`    — the text without blanks at either end.
-/

namespace Solfege
namespace Text

/-- The Unicode property `White_Space`. Zero-width characters do not have it. -/
def isBlank (c : Char) : Bool :=
  let n := c.toNat
  (0x9 ≤ n && n ≤ 0xd) || n == 0x20 || n == 0x85 || n == 0xa0 || n == 0x1680 ||
    (0x2000 ≤ n && n ≤ 0x200a) || n == 0x2028 || n == 0x2029 || n == 0x202f || n == 0x205f ||
    n == 0x3000

def trim (text : List Char) : List Char :=
  ((text.dropWhile isBlank).reverse.dropWhile isBlank).reverse

end Text
end Solfege
