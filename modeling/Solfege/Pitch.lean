/-!
# Solfege.Pitch

Pitch classes and their spellings.

A spelling is a solfège name (`Do Re Mi Fa Sol La Si`) or a letter (`C D E F G A B`), followed by
nothing, by `#` for a sharp or by `b` for a flat. `PitchClass.ofName?` gives the pitch class of a
spelling and `none` for any other text.
-/

namespace Solfege

inductive Step where
  | c
  | d
  | e
  | f
  | g
  | a
  | b
  deriving DecidableEq, Repr

inductive Accidental where
  | natural
  | sharp
  | flat
  deriving DecidableEq, Repr

structure PitchClass where
  step : Step
  accidental : Accidental
  deriving DecidableEq, Repr

namespace Step

def letter : Step → Char
  | .c => 'C'
  | .d => 'D'
  | .e => 'E'
  | .f => 'F'
  | .g => 'G'
  | .a => 'A'
  | .b => 'B'

def ofName? (name : List Char) : Option Step :=
  if name = ['D', 'o'] ∨ name = ['C'] then some .c
  else if name = ['R', 'e'] ∨ name = ['D'] then some .d
  else if name = ['M', 'i'] ∨ name = ['E'] then some .e
  else if name = ['F', 'a'] ∨ name = ['F'] then some .f
  else if name = ['S', 'o', 'l'] ∨ name = ['G'] then some .g
  else if name = ['L', 'a'] ∨ name = ['A'] then some .a
  else if name = ['S', 'i'] ∨ name = ['B'] then some .b
  else none

end Step

namespace PitchClass

/-- The name of the step and the accidental written after it. -/
def divide (name : List Char) : List Char × Accidental :=
  if name.getLast? = some '#' then (name.dropLast, .sharp)
  else if name.getLast? = some 'b' then (name.dropLast, .flat)
  else (name, .natural)

def ofName? (name : String) : Option PitchClass :=
  let (base, accidental) := divide name.toList
  (Step.ofName? base).map fun step => ⟨step, accidental⟩

end PitchClass
end Solfege
