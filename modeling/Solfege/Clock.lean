import Solfege.Program

/-!
# Solfege.Clock

Musical time: how many beats have sounded, and the grid of measures that bars are placed on.

The clock is carried from one fragment of a piece to the next. A fragment in another meter starts
a new grid at the beat where it begins; one in the same meter stays on the grid.
-/

namespace Solfege

structure Clock (β : Type) where
  /-- Quarter notes since the start of the piece. -/
  beats : β
  /-- The beat at which the current meter came into force. -/
  origin : β
  /-- The length of a measure, once a meter is known. -/
  measure : Option β
  deriving BEq

namespace Clock

variable {β : Type} [Beat β]

/-- A clock at the given beat, without a meter, with its grid from beat zero. -/
def ofBeats (beats : β) : Clock β := ⟨beats, Beat.zero, none⟩

def start : Clock β := ofBeats Beat.zero

def advance (clock : Clock β) (duration : Duration) : Clock β :=
  { clock with beats := clock.beats + duration.beats }

/-- A measure of this length differs from the one in force. -/
def changesMeter (clock : Clock β) (length : β) : Bool :=
  match clock.measure with
  | none => false
  | some current => !Beat.near current length

/-- Put a meter into force. The first one leaves the grid where it is, a different one starts the
grid anew. -/
def setMeter (clock : Clock β) (length : β) : Clock β :=
  if clock.changesMeter length then
    { clock with origin := clock.beats, measure := some length }
  else if clock.measure.isNone then { clock with measure := some length }
  else clock

@[simp] theorem advance_origin (clock : Clock β) (duration : Duration) :
    (clock.advance duration).origin = clock.origin := rfl

@[simp] theorem advance_measure (clock : Clock β) (duration : Duration) :
    (clock.advance duration).measure = clock.measure := rfl

@[simp] theorem setMeter_beats (clock : Clock β) (length : β) :
    (clock.setMeter length).beats = clock.beats := by
  simp only [setMeter]
  split
  · rfl
  · split <;> rfl

end Clock

/-- Bars every `length` beats from `origin`. -/
structure Grid (β : Type) where
  origin : β
  length : β

namespace Grid

variable {β : Type} [Beat β]

/-- A whole number of measures, but not none of them, has passed at the beat. -/
def closesAt (grid : Grid β) (beats : β) : Bool :=
  let passed := beats - grid.origin
  if Beat.lt passed Beat.tolerance || Beat.lt grid.length Beat.tolerance then false
  else
    let left := Beat.rem passed grid.length
    Beat.lt left Beat.tolerance || Beat.lt (grid.length - left) Beat.tolerance

end Grid
end Solfege
