import Solfege.Beat
import Solfege.Duration
import Solfege.Pitch

/-!
# Solfege.Program

A piece of music as written: metadata, declarations and notes, each list in source order.

Names stay as they were spelled; whether a name is a pitch and a number in range is the concern of
`Solfege.Validation`. Every part has a `text`, its form in a source, and a program whose names are
words reads back from its text.
-/

namespace Solfege

inductive Mode where
  | major
  | minor
  deriving DecidableEq, Repr

/-- The short mark of the mode in a source. -/
def Mode.mark : Mode → String
  | .major => "M"
  | .minor => "m"

/-- The settings of a piece, in the order in which missing ones are reported. -/
inductive Kind where
  | tempo
  | timeSignature
  | key
  deriving DecidableEq, Repr

namespace Kind

def all : List Kind := [.tempo, .timeSignature, .key]

def name : Kind → String
  | .tempo => "tempo"
  | .timeSignature => "time signature"
  | .key => "key"

/-- The key under which a declaration of this kind is recorded. -/
def sentinel : Kind → String
  | .tempo => "__tempo__"
  | .timeSignature => "__time_signature__"
  | .key => "__key__"

end Kind

inductive Declaration where
  | tempo (bpm : Int)
  | timeSignature (numerator denominator : Int)
  | key (root : String) (mode : Mode)
  deriving DecidableEq, Repr

namespace Declaration

def kind : Declaration → Kind
  | .tempo _ => .tempo
  | .timeSignature _ _ => .timeSignature
  | .key _ _ => .key

/-- The value alone, as a reader would say it. -/
def valueText : Declaration → String
  | .tempo bpm => bpm.repr ++ " BPM"
  | .timeSignature numerator denominator => numerator.repr ++ "/" ++ denominator.repr
  | .key root mode => root ++ " " ++ mode.mark

def text : Declaration → String
  | .tempo bpm => "Tempo " ++ bpm.repr
  | .timeSignature numerator denominator =>
    "Compas " ++ numerator.repr ++ "/" ++ denominator.repr
  | .key root mode => "Tonalidad " ++ root ++ " " ++ mode.mark

end Declaration

/-- A note to be played: the spelling of its pitch, its octave and its length. -/
structure Note where
  name : String
  octave : Int
  duration : Duration
  deriving DecidableEq, Repr

namespace Note

def pitchText (note : Note) : String :=
  note.name ++ note.octave.repr

def text (note : Note) : String :=
  note.pitchText ++ " " ++ note.duration.name

end Note

structure Metadata where
  title : Option String := none
  /-- A fixed distance between bars, in quarter notes. -/
  barBeats : Option Float := none
  deriving DecidableEq

structure Program where
  metadata : Metadata := {}
  declarations : List Declaration := []
  notes : List Note := []
  deriving DecidableEq

namespace Program

def empty : Program := {}

/-- Declarations and notes one to a line, with a blank line between the two groups. -/
def text (program : Program) : String :=
  let declarations := program.declarations.map fun d => d.text ++ "\n"
  let notes := program.notes.map fun n => n.text ++ "\n"
  let gap := if program.declarations = [] ∨ program.notes = [] then "" else "\n"
  String.join declarations ++ gap ++ String.join notes

end Program

/-- The length of a note in quarter notes. -/
def Duration.beats {β : Type} [Beat β] (duration : Duration) : β :=
  Beat.ofRatio duration.sixteenths 4

/-- The length of a measure of `numerator / denominator` in quarter notes. -/
def measureBeats {β : Type} [Beat β] (numerator denominator : Int) : β :=
  Beat.ofRatio (numerator * 4) denominator

end Solfege
