import Solfege.Abc.Notation
import Solfege.Abc.Options
import Solfege.Event

/-!
# Solfege.Abc.Emission

A program in ABC notation, as a row of segments. A segment is a text to write; when all of it has
been taken, the clock moves on to the segment's clock. A receiver that has no more room takes the
part of a text that fits, and the segments after it are not written.

* `Segment`  — a text, the clock once it is written, and the events that come with the clock.
* `segments` — a whole program: header, notes with their bars, and the closing bar.
* `write`    — write segments with the room there is.
* `emit`     — write a program from a clock, and `emitCounting` from a bare count of beats.
-/

namespace Solfege
namespace Abc

structure Segment (β : Type) where
  text : String
  clock : Clock β
  events : List (Event β) := []

variable {β : Type}

structure Outcome (β : Type) where
  text : String
  clock : Clock β
  events : List (Event β)
  /-- All of it was written. -/
  complete : Bool

def writeWithin (room : Nat) (clock : Clock β) : List (Segment β) → Outcome β
  | [] => ⟨"", clock, [], true⟩
  | segment :: rest =>
    if segment.text.length ≤ room then
      let more := writeWithin (room - segment.text.length) segment.clock rest
      ⟨segment.text ++ more.text, more.clock, segment.events ++ more.events, more.complete⟩
    else ⟨String.ofList (segment.text.toList.take room), clock, [], false⟩

def textOf (row : List (Segment β)) : String :=
  String.join (row.map Segment.text)

def writeAll (clock : Clock β) (row : List (Segment β)) : Outcome β :=
  { text := textOf row
    clock := (row.getLast?.map Segment.clock).getD clock
    events := row.flatMap Segment.events
    complete := true }

/-- Write segments with the room there is, if it is limited at all. -/
def write (room : Option Nat) (clock : Clock β) (row : List (Segment β)) : Outcome β :=
  match room with
  | none => writeAll clock row
  | some room => writeWithin room clock row

@[simp] theorem textOf_append (first second : List (Segment β)) :
    textOf (first ++ second) = textOf first ++ textOf second := by
  simp [textOf]

@[simp] theorem textOf_cons (segment : Segment β) (row : List (Segment β)) :
    textOf (segment :: row) = segment.text ++ textOf row := by
  simp [textOf]

variable [Beat β]

/-- The segment of one declaration. The meter is set once both of its lines are written. -/
def declarationSegment (bars : Bars β) (clock : Clock β) : Declaration → Segment β
  | .tempo bpm => ⟨"Q:1/4=" ++ bpm.repr ++ "\n", clock, []⟩
  | .timeSignature numerator denominator =>
    let length := measureBeats numerator denominator
    let events :=
      match bars with
      | .byMeter => if clock.changesMeter length then [.meterChange clock.beats] else []
      | .every _ => []
    ⟨"M:" ++ numerator.repr ++ "/" ++ denominator.repr ++ "\nL:1/8\n", bars.meter clock length,
      events⟩
  | .key root mode => ⟨"K:" ++ key root mode ++ "\n", clock, []⟩

def headerSegments (bars : Bars β) : Clock β → List Declaration → List (Segment β)
  | _, [] => []
  | clock, declaration :: rest =>
    let segment := declarationSegment bars clock declaration
    segment :: headerSegments bars segment.clock rest

def headerClock (bars : Bars β) : Clock β → List Declaration → Clock β
  | clock, [] => clock
  | clock, declaration :: rest =>
    headerClock bars (declarationSegment bars clock declaration).clock rest

def barAt (grid : Option (Grid β)) (beats : β) : Bool :=
  match grid with
  | none => false
  | some grid => grid.closesAt beats

/-- A note, and a bar after it if the note closes a measure. The bar is reported before it is
written. -/
def noteSegments (grid : Option (Grid β)) (clock : Clock β) (n : Note) : List (Segment β) :=
  let after := clock.advance n.duration
  if barAt grid after.beats then
    [⟨note n ++ " ", after, [.bar after.beats]⟩, ⟨"| ", after, []⟩]
  else [⟨note n ++ " ", after, []⟩]

def bodySegments (grid : Option (Grid β)) : Clock β → List Note → List (Segment β)
  | _, [] => []
  | clock, n :: rest =>
    noteSegments grid clock n ++ bodySegments grid (clock.advance n.duration) rest

def bodyClock (clock : Clock β) (notes : List Note) : Clock β :=
  notes.foldl (fun clock n => clock.advance n.duration) clock

theorem bodySegments_append (grid : Option (Grid β)) (clock : Clock β) (first second : List Note) :
    bodySegments grid clock (first ++ second) =
      bodySegments grid clock first ++ bodySegments grid (bodyClock clock first) second := by
  induction first generalizing clock with
  | nil => rfl
  | cons n rest ih => simp [bodySegments, bodyClock, ih]

def segments (options : Options β) (clock : Clock β) (program : Program) : List (Segment β) :=
  let headed := headerClock options.bars clock program.declarations
  ⟨"X:1\n", clock, []⟩ :: ⟨"T:" ++ options.title ++ "\n", clock, []⟩ ::
    headerSegments options.bars clock program.declarations ++
    bodySegments (options.bars.grid headed) headed program.notes ++
    [⟨"|\n", bodyClock headed program.notes, []⟩]

def emit (room : Option Nat) (options : Options β) (clock : Clock β) (program : Program) :
    Outcome β :=
  write room clock (segments options clock program)

/-- Write a program from a bare count of beats, on a grid from beat zero. -/
def emitFrom (room : Option Nat) (options : Options β) (beats : β) (program : Program) :
    Outcome β :=
  emit room options (.ofBeats beats) program

/-- The same with the count that is left. It is written back also where the text was refused. -/
def emitCounting (room : Option Nat) (options : Options β) (count : β) (program : Program) :
    Outcome β × β :=
  let outcome := emitFrom room options count program
  (outcome, outcome.clock.beats)

def emission (program : Program) : Outcome β :=
  emit none (.ofMetadata program.metadata) .start program

end Abc

def Program.toAbc (program : Program) : String :=
  (Abc.emission program : Abc.Outcome Float).text

end Solfege
