import Solfege.Decimal.Binary

/-!
# Solfege.Decimal.Shortest

The fewest decimal digits that read back as the same double.

A double `m * 2 ^ q` is read back from every number in the interval of reals that round to it.
Among the decimals with one digit, two digits, and so on, the two neighbours of the value are
tried; the first count of digits with a hit wins, of two hits the nearer one, and the upper one
when both are equally near.

* `Fixed`    — a decimal number `coefficient * 10 ^ (- places)`.
* `Rounding` — the interval of a double, as fractions over one denominator.
* `shortest` — the chosen decimal.
-/

namespace Solfege
namespace Decimal

structure Fixed where
  coefficient : Nat
  places : Int
  deriving DecidableEq

/-- The reals that round to a double: from `low / den` to `high / den` around `value / den`, with
the ends included when `closed`. -/
structure Rounding where
  low : Nat
  value : Nat
  high : Nat
  den : Nat
  closed : Bool

namespace Rounding

def ofBinary (m : Nat) (q : Int) : Rounding :=
  let unit := q - 2
  let up := pow2 unit.toNat
  -- The neighbour below a power of two is only half as far.
  let down := if m = pow2 52 ∧ q ≠ -1074 then 1 else 2
  { low := (4 * m - down) * up
    value := 4 * m * up
    high := (4 * m + 2) * up
    den := pow2 (-unit).toNat
    closed := m % 2 = 0 }

/-- The position of the leading digit: the `e` with `10 ^ e ≤ value / den < 10 ^ (e + 1)`. -/
def leading (r : Rounding) : Int :=
  if r.den ≤ r.value then ((Nat.toDigits 10 (r.value / r.den)).length : Int) - 1
  else - ((Nat.toDigits 10 ((r.den - 1) / r.value)).length : Int)

def floorAt (r : Rounding) (places : Int) : Nat :=
  r.value * pow10 places.toNat / (r.den * pow10 (-places).toNat)

def holds (r : Rounding) (places : Int) (c : Nat) : Bool :=
  let x := c * pow10 (-places).toNat * r.den
  let low := r.low * pow10 places.toNat
  let high := r.high * pow10 places.toNat
  if r.closed then low ≤ x && x ≤ high else low < x && x < high

def nearerBelow (r : Rounding) (places : Int) (c : Nat) : Bool :=
  2 * (r.value * pow10 places.toNat) < (2 * c + 1) * (pow10 (-places).toNat * r.den)

def onGrid (r : Rounding) (places : Int) : Option Fixed :=
  let c := r.floorAt places
  match r.holds places c, r.holds places (c + 1) with
  | true, false => some ⟨c, places⟩
  | false, true => some ⟨c + 1, places⟩
  | true, true => some (if r.nearerBelow places c then ⟨c, places⟩ else ⟨c + 1, places⟩)
  | false, false => none

end Rounding

/-- Seventeen digits always suffice, so the search does not come out empty on a double. -/
def shortest (m : Nat) (q : Int) : Fixed :=
  let r := Rounding.ofBinary m q
  let first := - r.leading
  match (List.range 17).findSome? fun (n : Nat) => r.onGrid (first + n) with
  | some d => d
  | none => ⟨r.value / r.den, 0⟩

end Decimal
end Solfege
