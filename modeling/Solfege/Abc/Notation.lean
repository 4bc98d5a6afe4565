import Solfege.Program

/-!
# Solfege.Abc.Notation

Keys and notes in ABC notation.

Octave 4 is written in capitals and octave 5 in small letters; a comma lowers a note by an octave
and an apostrophe raises it. Lengths are counted in eighths: `/2` is half of one, `2` is two.
-/

namespace Solfege
namespace Abc

def keyAccidental : Accidental → String
  | .natural => ""
  | .sharp => "#"
  | .flat => "b"

def modeName : Mode → String
  | .major => "maj"
  | .minor => "min"

/-- A root that is no pitch is written as it stands. -/
def key (root : String) (mode : Mode) : String :=
  match PitchClass.ofName? root with
  | some pitch =>
    pitch.step.letter.toString ++ keyAccidental pitch.accidental ++ modeName mode
  | none => root ++ modeName mode

def noteAccidental : Accidental → List Char
  | .natural => []
  | .sharp => ['^']
  | .flat => ['_']

/-- The letter in the given octave. -/
def pitched (letter : Char) (octave : Int) : List Char :=
  if 5 ≤ octave then letter.toLower :: List.replicate (octave - 5).toNat '\''
  else letter :: List.replicate (4 - octave).toNat ','

def length : Duration → List Char
  | .sixteenth => ['/', '2']
  | .eighth => []
  | .quarter => ['2']
  | .half => ['4']

/-- A note whose name is no pitch is written as `z`. -/
def note (n : Note) : String :=
  let written :=
    match PitchClass.ofName? n.name with
    | some pitch => noteAccidental pitch.accidental ++ pitched pitch.step.letter n.octave
    | none => pitched 'z' n.octave
  String.ofList (written ++ length n.duration)

end Abc
end Solfege
