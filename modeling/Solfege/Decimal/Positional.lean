import Solfege.Decimal.Shortest

/-!
# Solfege.Decimal.Positional

Numbers written without an exponent, and decimal literals read as doubles.

* `text`  — a double in the fewest digits that read back: whole numbers without a point, zeros
  padded out to the point, `inf` and `NaN` by name.
* `read?` — the double nearest to a decimal literal with optional sign, point and exponent.
-/

namespace Solfege
namespace Decimal

namespace Fixed

def text (d : Fixed) : String :=
  let digits := Nat.toDigits 10 d.coefficient
  if d.places ≤ 0 then String.ofList (digits ++ List.replicate (-d.places).toNat '0')
  else
    let places := d.places.toNat
    let padded := List.replicate (places + 1 - digits.length) '0' ++ digits
    let whole := padded.take (padded.length - places)
    let fraction := (padded.drop (padded.length - places)).reverse.dropWhile (· = '0')
    if fraction = [] then String.ofList whole
    else String.ofList (whole ++ '.' :: fraction.reverse)

end Fixed

def text (x : Float) : String :=
  match Binary.ofFloat x with
  | .nan => "NaN"
  | .infinite negative => if negative then "-inf" else "inf"
  | .finite negative m q =>
    let magnitude := if m = 0 then "0" else (shortest m q).text
    if negative then "-" ++ magnitude else magnitude

structure Literal where
  negative : Bool
  digits : Nat
  exponent : Int

namespace Literal

def digitsValue (start : Nat) (run : List Char) : Nat :=
  run.foldl (fun n c => 10 * n + (c.toNat - '0'.toNat)) start

def sign : List Char → Bool × List Char
  | '-' :: rest => (true, rest)
  | '+' :: rest => (false, rest)
  | rest => (false, rest)

def exponent? : List Char → Option Int
  | [] => some 0
  | c :: rest =>
    let (negative, run) := sign rest
    if (c = 'e' ∨ c = 'E') ∧ run ≠ [] ∧ run.all Char.isDigit then
      some (if negative then - (digitsValue 0 run : Int) else digitsValue 0 run)
    else none

/-- A point may stand first or last among the digits, but not alone. -/
def ofChars? (text : List Char) : Option Literal :=
  let (negative, rest) := sign text
  let whole := rest.takeWhile Char.isDigit
  let after := rest.dropWhile Char.isDigit
  let (fraction, tail) :=
    match after with
    | '.' :: more => (more.takeWhile Char.isDigit, more.dropWhile Char.isDigit)
    | _ => ([], after)
  if whole = [] ∧ fraction = [] then none
  else
    match exponent? tail with
    | none => none
    | some e =>
      some ⟨negative, digitsValue (digitsValue 0 whole) fraction, e - fraction.length⟩

/-- Beyond these powers of ten the nearest double is infinite or zero, whatever the digits. -/
def toFloat (l : Literal) : Float :=
  let size : Int := (Nat.toDigits 10 l.digits).length + l.exponent
  if l.digits = 0 ∨ size < -400 then ofMagnitude l.negative 0
  else if 400 < size then ofMagnitude l.negative infinityBits
  else nearest l.negative (l.digits * pow10 l.exponent.toNat) (pow10 (-l.exponent).toNat)

end Literal

def read? (text : List Char) : Option Float :=
  (Literal.ofChars? text).map Literal.toFloat

end Decimal
end Solfege
