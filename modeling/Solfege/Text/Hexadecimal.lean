/-!
# Solfege.Text.Hexadecimal

Numbers written with hexadecimal digits of either case.

* `hexDigit?` — the value of one digit.
* `hexValue?` — the value of a row of digits, `none` if a character in it is no digit.
-/

namespace Solfege
namespace Text

def hexDigit? (c : Char) : Option Nat :=
  if c.isDigit then some (c.toNat - '0'.toNat)
  else if 'a' ≤ c ∧ c ≤ 'f' then some (c.toNat - 'a'.toNat + 10)
  else if 'A' ≤ c ∧ c ≤ 'F' then some (c.toNat - 'A'.toNat + 10)
  else none

def hexValue? (digits : List Char) : Option Nat :=
  digits.foldl
    (fun total c =>
      match total, hexDigit? c with
      | some n, some d => some (16 * n + d)
      | _, _ => none)
    (some 0)

end Text
end Solfege
