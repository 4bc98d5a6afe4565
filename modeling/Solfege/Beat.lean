import Solfege.Decimal.Binary

/-!
# Solfege.Beat

Beat positions. Everything that counts beats is written once for any `Beat` type and used at two
of them:

* `Float` — what the program computes with;
* `Rat`   — exact beats, in which the placement of bars is plain arithmetic.

A whole number of sixteenths below `2 ^ 53` is exact in both.
-/

namespace Solfege

class Beat (β : Type) extends Add β, Sub β where
  ofRatio (num den : Int) : β
  ofFloat (x : Float) : β
  /-- What is left of the first number after whole multiples of the second. -/
  rem : β → β → β
  lt : β → β → Bool

namespace Beat

instance : Beat Float where
  add := Float.add
  sub := Float.sub
  ofRatio num den := Float.ofInt num / Float.ofInt den
  ofFloat x := x
  rem := Decimal.remainder
  lt x y := decide (x < y)

/-- The exact value of a finite double. The others have none and count as zero. -/
def ratOfFloat (x : Float) : Rat :=
  match Decimal.Binary.ofFloat x with
  | .finite negative m q =>
    let magnitude := Rat.div (Rat.ofInt (m * Decimal.pow2 q.toNat : Nat))
      (Rat.ofInt (Decimal.pow2 (-q).toNat))
    if negative then Rat.neg magnitude else magnitude
  | _ => Rat.ofInt 0

instance : Beat Rat where
  add := Rat.add
  sub := Rat.sub
  ofRatio num den := Rat.div (Rat.ofInt num) (Rat.ofInt den)
  ofFloat := ratOfFloat
  rem x y := Rat.sub x (Rat.mul y (Rat.ofInt (Rat.div x y).floor))
  lt := Rat.blt

variable {β : Type} [Beat β]

def zero : β := ofRatio 0 1

/-- Two positions nearer than a thousandth of a beat count as one. -/
def tolerance : β := ofRatio 1 1000

def near (x y : β) : Bool :=
  lt (x - y) tolerance && lt (y - x) tolerance

end Beat
end Solfege
