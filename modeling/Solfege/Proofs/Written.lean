import Solfege.Compile

/-!
# Solfege.Proofs.Written

What an emission with room for everything writes, taken apart: a header that depends on title and
declarations alone, then one note after the other, then the closing bar.

* `Abc.headerText`       — the header.
* `emit_text`            — the whole text.
* `emit_clock`           — the clock at the end.
* `textOf_bodySegments_cons` — the text of a note, and of its bar if there is one.
* `bodyText_append`      — the text of notes that follow each other; they share one grid.
* `Score.appendAll`      — fragments added to a score one after another.
-/

namespace Solfege
namespace Abc

def declarationText : Declaration → String
  | .tempo bpm => "Q:1/4=" ++ bpm.repr ++ "\n"
  | .timeSignature numerator denominator =>
    "M:" ++ numerator.repr ++ "/" ++ denominator.repr ++ "\nL:1/8\n"
  | .key root mode => "K:" ++ key root mode ++ "\n"

def headerText (title : String) (declarations : List Declaration) : String :=
  "X:1\n" ++ ("T:" ++ title ++ "\n") ++ String.join (declarations.map declarationText)

variable {β : Type} [Beat β]

theorem declarationSegment_text (bars : Bars β) (clock : Clock β) (d : Declaration) :
    (declarationSegment bars clock d).text = declarationText d := by
  cases d <;> rfl

/-- Neither the clock nor the bars show in the header. -/
theorem textOf_headerSegments (bars : Bars β) (clock : Clock β) (ds : List Declaration) :
    textOf (headerSegments bars clock ds) = String.join (ds.map declarationText) := by
  induction ds generalizing clock with
  | nil => rfl
  | cons d rest ih =>
    rw [headerSegments, textOf_cons, ih, declarationSegment_text, List.map_cons]
    simp

theorem textOf_bodySegments_cons (grid : Option (Grid β)) (clock : Clock β) (n : Note)
    (rest : List Note) :
    textOf (bodySegments grid clock (n :: rest)) =
      note n ++ " " ++ (if barAt grid (clock.advance n.duration).beats then "| " else "") ++
        textOf (bodySegments grid (clock.advance n.duration) rest) := by
  rw [bodySegments, textOf_append, noteSegments]
  split <;> simp [textOf]

/-- Bars at a fixed distance: no declaration moves the clock. -/
theorem headerClock_every (length : β) (clock : Clock β) (declarations : List Declaration) :
    headerClock (.every length) clock declarations = clock := by
  induction declarations generalizing clock with
  | nil => rfl
  | cons d rest ih => cases d <;> exact ih clock

theorem bodyClock_cons (clock : Clock β) (n : Note) (rest : List Note) :
    bodyClock clock (n :: rest) = bodyClock (clock.advance n.duration) rest := rfl

theorem bodyClock_append (clock : Clock β) (first second : List Note) :
    bodyClock clock (first ++ second) = bodyClock (bodyClock clock first) second :=
  List.foldl_append

theorem bodyClock_origin (clock : Clock β) (notes : List Note) :
    (bodyClock clock notes).origin = clock.origin := by
  induction notes generalizing clock with
  | nil => rfl
  | cons n rest ih => exact ih (clock.advance n.duration)

theorem bodyClock_measure (clock : Clock β) (notes : List Note) :
    (bodyClock clock notes).measure = clock.measure := by
  induction notes generalizing clock with
  | nil => rfl
  | cons n rest ih => exact ih (clock.advance n.duration)

theorem headerClock_beats (bars : Bars β) (clock : Clock β) (ds : List Declaration) :
    (headerClock bars clock ds).beats = clock.beats := by
  induction ds generalizing clock with
  | nil => rfl
  | cons d rest ih =>
    rw [headerClock, ih]
    cases d with
    | tempo bpm => rfl
    | timeSignature numerator denominator =>
      cases bars with
      | byMeter => exact Clock.setMeter_beats clock _
      | every length => rfl
    | key root mode => rfl

theorem bodyClock_beats (clock : Clock β) (notes : List Note) :
    (bodyClock clock notes).beats =
      notes.foldl (fun beats n => beats + n.duration.beats) clock.beats := by
  induction notes generalizing clock with
  | nil => rfl
  | cons n rest ih => exact ih (clock.advance n.duration)

/-- Notes do not move the grid. -/
theorem grid_bodyClock (bars : Bars β) (clock : Clock β) (notes : List Note) :
    bars.grid (bodyClock clock notes) = bars.grid clock := by
  cases bars with
  | byMeter => simp only [Bars.grid, bodyClock_measure, bodyClock_origin]
  | every length => rfl

/-- The text of the notes of a program, from a clock that its header has moved. -/
def bodyText (bars : Bars β) (clock : Clock β) (notes : List Note) : String :=
  textOf (bodySegments (bars.grid clock) clock notes)

theorem bodyText_append (bars : Bars β) (clock : Clock β) (first second : List Note) :
    bodyText bars clock (first ++ second) =
      bodyText bars clock first ++ bodyText bars (bodyClock clock first) second := by
  rw [bodyText, bodySegments_append, textOf_append, bodyText, bodyText, grid_bodyClock]

theorem emit_text (options : Options β) (clock : Clock β) (program : Program) :
    (emit none options clock program).text =
      headerText options.title program.declarations ++
        textOf (bodySegments
          (options.bars.grid (headerClock options.bars clock program.declarations))
          (headerClock options.bars clock program.declarations) program.notes) ++ "|\n" := by
  show textOf (segments options clock program) = _
  rw [segments, textOf_append, textOf_append, textOf_cons, textOf_cons, textOf_headerSegments,
    headerText]
  simp [textOf, String.append_assoc]

theorem emit_clock (options : Options β) (clock : Clock β) (program : Program) :
    (emit none options clock program).clock =
      bodyClock (headerClock options.bars clock program.declarations) program.notes := by
  show ((segments options clock program).getLast?.map Segment.clock).getD clock = _
  rw [segments, List.getLast?_append]
  rfl

end Abc

namespace Score

variable {β : Type} [Beat β]

/-- Fragments added one after another; what is refused is passed over. -/
def appendAll [FrontMatter.Reader] (score : Score β) (sources : List String) : Score β :=
  sources.foldl (fun score source => (score.append source).2) score

theorem appendAll_cons [FrontMatter.Reader] (score : Score β) (source : String)
    (rest : List String) :
    score.appendAll (source :: rest) = (score.append source).2.appendAll rest := rfl

theorem append_of_error [FrontMatter.Reader] {source : String} {error : Error}
    (h : accept source = .error error)
    (score : Score β) : score.append source = (.error error, score) := by
  rw [append, h]

/-- A text under way has room for whatever is added to it. -/
theorem addition_complete (clock : Clock β) (program : Program) :
    (addition clock program).complete = true := rfl

theorem append_of_ok [FrontMatter.Reader] {source : String} {program : Program}
    (h : accept source = .ok program) (score : Score β) :
    score.append source = (.ok (), ⟨score.text ++ (addition score.clock program).text,
      (addition score.clock program).clock⟩) := by
  rw [append, h]
  simp only [addition_complete, if_true]

end Score

theorem accept_eq_ok [FrontMatter.Reader] {source : String} {program : Program} :
    accept source = .ok program ↔ parse source = .ok program ∧ program.check = .ok () := by
  constructor
  · intro h
    rw [accept] at h
    split at h
    · cases h
    · rename_i found hparse
      split at h
      · cases h
      · rename_i hcheck
        cases h
        exact ⟨hparse, hcheck⟩
  · rintro ⟨hparse, hcheck⟩
    simp only [accept, hparse, hcheck]

end Solfege
