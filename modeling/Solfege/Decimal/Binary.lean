/-!
# Solfege.Decimal.Binary

Doubles as exact numbers. A finite double is `± m * 2 ^ q`; every function here works on `m` and
`q` with natural numbers, so no rounding happens on the way.

* `Binary.ofFloat` — the number a double stands for.
* `nearest`        — the double nearest to a fraction, a tie going to the even one.
* `remainder`      — what is left of one double after taking whole multiples of another.
-/

namespace Solfege
namespace Decimal

def pow2 (n : Nat) : Nat := Nat.pow 2 n

def pow10 (n : Nat) : Nat := Nat.pow 10 n

inductive Binary where
  | nan
  | infinite (negative : Bool)
  /-- The number `± mantissa * 2 ^ exponent`. -/
  | finite (negative : Bool) (mantissa : Nat) (exponent : Int)
  deriving DecidableEq

namespace Binary

def ofFloat (x : Float) : Binary :=
  let bits := x.toBits.toNat
  let negative := bits / pow2 63 == 1
  let scale : Nat := bits / pow2 52 % pow2 11
  let fraction : Nat := bits % pow2 52
  if scale = 2047 then
    if fraction = 0 then .infinite negative else .nan
  else if scale = 0 then .finite negative fraction (-1074)
  else .finite negative (pow2 52 + fraction) ((scale : Int) - 1075)

end Binary

def ofMagnitude (negative : Bool) (bits : Nat) : Float :=
  Float.ofBits (UInt64.ofNat (if negative then pow2 63 + bits else bits))

def infinityBits : Nat := 2047 * pow2 52

def roundHalfEven (num den : Nat) : Nat :=
  let whole := num / den
  let twice := 2 * (num % den)
  if twice < den then whole
  else if den < twice then whole + 1
  else whole + whole % 2

/-- The double nearest to `± num / den`. The exponent is chosen so that the mantissa has 53 bits,
or as small as it can be; a mantissa that rounds up to `2 ^ 53` carries into the exponent. -/
def nearest (negative : Bool) (num den : Nat) : Float :=
  if num = 0 then ofMagnitude negative 0
  else
    let estimate : Int := (num.log2 : Int) - den.log2
    let below := if 0 ≤ estimate then num < den * pow2 estimate.toNat
      else num * pow2 (-estimate).toNat < den
    let leading := if below then estimate - 1 else estimate
    let exponent := max (leading - 52) (-1074)
    let mantissa := if 0 ≤ exponent then roundHalfEven num (den * pow2 exponent.toNat)
      else roundHalfEven (num * pow2 (-exponent).toNat) den
    ofMagnitude negative (min infinityBits ((exponent + 1074).toNat * pow2 52 + mantissa))

/-- The remainder of `x` by `y` with the sign of `x`. It is exact: its magnitude is a multiple of
the smaller unit, below `|y|` and not above `|x|`. -/
def remainder (x y : Float) : Float :=
  match Binary.ofFloat x, Binary.ofFloat y with
  | .finite negative m p, .finite _ n q =>
    if n = 0 then Float.ofBits 0x7ff8000000000000
    else
      let unit := min p q
      let left := m * pow2 (p - unit).toNat % (n * pow2 (q - unit).toNat)
      if 0 ≤ unit then nearest negative (left * pow2 unit.toNat) 1
      else nearest negative left (pow2 (-unit).toNat)
  | .finite _ _ _, .infinite _ => x
  | _, _ => Float.ofBits 0x7ff8000000000000

end Decimal
end Solfege
