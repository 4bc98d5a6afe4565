import Solfege.Decimal.Positional
import Solfege.Token

/-!
# Solfege.Error

Everything that can be wrong with a source, as causes; the wording is in the `message` functions
and nowhere else.

* `Complaint` — what is wrong with a line of music.
* `Violation` — the first rule of `Solfege.Validation` that a program breaks.
* `Error`     — a complaint at its position, bad front matter, a violation, or a full output.
-/

namespace Solfege

inductive Complaint where
  | unexpectedCharacter (c : Char)
  | expectedTempo
  | expectedNumerator
  | expectedSlash
  | expectedDenominator
  | expectedRoot
  | expectedMode (root : String)
  | orphanDuration (duration : Duration)
  | expectedExpression
  | expectedNote (found : Token)
  | expectedOctave (name : String)
  | expectedDuration (name : String) (octave : Int)
  | trailing (found : Token)
  deriving DecidableEq, Repr

def Complaint.message : Complaint → String
  | .unexpectedCharacter c => "Unexpected character: '" ++ c.toString ++ "'"
  | .expectedTempo => "Expected a number after 'Tempo'"
  | .expectedNumerator => "Expected a numerator after 'Compas'"
  | .expectedSlash => "Expected '/' in time signature (e.g. 'Compas 4/4')"
  | .expectedDenominator => "Expected a denominator after '/'"
  | .expectedRoot => "Expected a root note after 'Tonalidad'"
  | .expectedMode root => "Expected 'Mayor' or 'Menor' after key root '" ++ root ++ "'"
  | .orphanDuration duration => "Duration '" ++ duration.name ++ "' must follow a note"
  | .expectedExpression => "Expected a note or a duration"
  | .expectedNote found => "Expected a note, found " ++ found.text
  | .expectedOctave name =>
    "Expected an octave number right after note '" ++ name ++ "' (e.g. '" ++ name ++ "4')"
  | .expectedDuration name octave =>
    "Expected a duration (Blanca, Negra, Corchea, Semicorchea) after note '" ++ name ++
      octave.repr ++ "'"
  | .trailing found =>
    "Unexpected " ++ found.text ++ " - only one declaration or note is allowed per line"

/-- A complaint and the place it is about. -/
structure Fault where
  position : Position
  complaint : Complaint
  deriving DecidableEq, Repr

def Fault.message (fault : Fault) : String :=
  "Parse error at line " ++ fault.position.line.repr ++ ", column " ++
    fault.position.column.repr ++ ": " ++ fault.complaint.message

/-- Why the value of a declaration is refused. -/
inductive ValueFault where
  | bpm (bpm : Int)
  | numerator (numerator : Int)
  | denominator (denominator : Int)
  | root (root : String)
  deriving DecidableEq, Repr

namespace ValueFault

def kind : ValueFault → Kind
  | .bpm _ => .tempo
  | .numerator _ => .timeSignature
  | .denominator _ => .timeSignature
  | .root _ => .key

def detail : ValueFault → String
  | .bpm value => "bpm " ++ value.repr ++ " is outside 20..=200"
  | .numerator n => "numerator " ++ n.repr ++ " must be greater than 1 and at most 12"
  | .denominator d => "denominator " ++ d.repr ++ " must be one of 2, 4, 8, 16"
  | .root name => "invalid root note '" ++ name ++ "'"

end ValueFault

/-- Why a note is refused. -/
inductive NoteFault where
  | name (note : Note)
  | octave (note : Note)
  deriving DecidableEq, Repr

def NoteFault.detail : NoteFault → String
  | .name note => "unknown note name '" ++ note.name ++ "' in '" ++ note.pitchText ++ "'"
  | .octave note =>
    "octave " ++ note.octave.repr ++ " of '" ++ note.pitchText ++ "' is outside 0..=8"

inductive Violation where
  | duplicate (kind : Kind)
  | value (fault : ValueFault)
  | note (fault : NoteFault)
  | missing (kind : Kind)
  deriving DecidableEq, Repr

def Violation.message : Violation → String
  | .duplicate kind => "duplicate " ++ kind.name ++ " declaration"
  | .value fault => "invalid " ++ fault.kind.name ++ " declaration: " ++ fault.detail
  | .note fault => "invalid note: " ++ fault.detail
  | .missing kind => "missing " ++ kind.name ++ " declaration"

/-- Why front matter is refused. -/
inductive MetadataFault where
  /-- The reader of the block refuses it, for a reason in its own words. -/
  | unreadable {reason : String}
  | barBeats (beats : Float)
  deriving DecidableEq

def MetadataFault.message : MetadataFault → String
  | @unreadable reason => reason
  | .barBeats beats =>
    "bar-beats must be a positive number of quarter beats, got " ++ Decimal.text beats

inductive Error where
  | parse (fault : Fault)
  | metadata (fault : MetadataFault)
  | semantic (violation : Violation)
  /-- The receiver of the music text refused a part of it. -/
  | output
  deriving DecidableEq

def Error.message : Error → String
  | .parse fault => fault.message
  | .metadata fault => "Invalid metadata: " ++ fault.message
  | .semantic violation => "Semantic error: " ++ violation.message
  | .output => "Failed to write ABC output"

end Solfege
