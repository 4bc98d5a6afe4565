import Solfege.Proofs.Sixteenths

/-!
# Solfege.Proofs.Fragments

A program cut into fragments, each with the declarations of the whole, sounds like the program.

Every fragment declares the meter again. A clock is `Settled` for some declarations if their header
leaves it as it is, now and after any notes:

* `settled_headerClock` — after one header the clock is settled for that header;
* `emitEach_settled`    — from a settled clock, fragments are written note by note like the whole;
* `emitEach_headerClock` — the first header is all that an unsettled clock needs.

The one fact about the arithmetic that this takes is that a measure is near itself. It holds of
doubles because the lengths of the allowed measures are few.
-/

namespace Solfege

def Program.withNotes (program : Program) (notes : List Note) : Program :=
  { program with notes := notes }

namespace Abc

variable {β : Type} [Beat β]

/-- Write programs one after another on one clock: their texts, and the clock at the end. -/
def emitEach (options : Options β) : Clock β → List Program → List String × Clock β
  | clock, [] => ([], clock)
  | clock, program :: rest =>
    let first := emit none options clock program
    let more := emitEach options first.clock rest
    (first.text :: more.1, more.2)

end Abc

/-! ## Clocks that a header leaves alone -/

def MeasuresNearSelf (β : Type) [Beat β] : Prop :=
  ∀ numerator denominator, (Declaration.timeSignature numerator denominator).InRange →
    Beat.near (measureBeats numerator denominator : β) (measureBeats numerator denominator) = true

theorem measuresNearSelf_float : MeasuresNearSelf Float := by
  rintro numerator denominator ⟨⟨hlow, hhigh⟩, hd⟩
  have hall : ∀ d ∈ [2, 4, 8, 16], ∀ n ∈ [2, 3, 4, 5, 6, 7, 8, 9, 10, 11, 12],
      Beat.near (measureBeats n d : Float) (measureBeats n d) = true := by decide +kernel
  apply hall denominator hd numerator
  simp only [List.mem_cons, List.not_mem_nil, or_false]
  omega

namespace Clock

variable {β : Type} [Beat β] {clock : Clock β} {length : β}

def InMeter (clock : Clock β) (length : β) : Prop :=
  ∃ current, clock.measure = some current ∧ Beat.near current length = true

theorem InMeter.setMeter (h : clock.InMeter length) : clock.setMeter length = clock := by
  obtain ⟨current, hmeasure, hnear⟩ := h
  simp [Clock.setMeter, changesMeter, hmeasure, hnear]

theorem inMeter_setMeter (hself : Beat.near length length = true) (clock : Clock β) :
    (clock.setMeter length).InMeter length := by
  cases hmeasure : clock.measure with
  | none =>
    refine ⟨length, ?_, hself⟩
    simp [Clock.setMeter, changesMeter, hmeasure]
  | some current =>
    cases hnear : Beat.near current length with
    | true =>
      -- The old length stays, so `hself` says nothing here: the clock itself does not change.
      have hin : clock.InMeter length := ⟨current, hmeasure, hnear⟩
      rw [hin.setMeter]
      exact hin
    | false =>
      refine ⟨length, ?_, hself⟩
      simp [Clock.setMeter, changesMeter, hmeasure, hnear]

end Clock

namespace Abc

variable {β : Type} [Beat β] {bars : Bars β} {clock : Clock β}

/-- The header of the declarations leaves the clock as it is, now and after any notes. -/
def Settled (bars : Bars β) (declarations : List Declaration) (clock : Clock β) : Prop :=
  ∀ notes, headerClock bars (bodyClock clock notes) declarations = bodyClock clock notes

theorem Settled.bodyClock {declarations : List Declaration} (h : Settled bars declarations clock)
    (notes : List Note) : Settled bars declarations (bodyClock clock notes) := by
  intro more
  rw [← bodyClock_append]
  exact h (notes ++ more)

theorem settled_headerClock (hself : MeasuresNearSelf β) {program : Program}
    (h : program.Valid) (bars : Bars β) (clock : Clock β) :
    Settled bars program.declarations (headerClock bars clock program.declarations) := by
  intro notes
  cases bars with
  | every length => rw [headerClock_every, headerClock_every]
  | byMeter =>
    obtain ⟨numerator, denominator, hone, hrange⟩ := h.meter
    have hin : (bodyClock (clock.setMeter (measureBeats numerator denominator)) notes).InMeter
        (measureBeats numerator denominator) := by
      obtain ⟨current, hmeasure, hnear⟩ :=
        Clock.inMeter_setMeter (hself numerator denominator hrange) clock
      exact ⟨current, by rw [bodyClock_measure, hmeasure], hnear⟩
    rw [headerClock_byMeter, headerClock_byMeter, hone]
    exact hin.setMeter

/-! ## Fragments one after another -/

def bodyTexts (bars : Bars β) : Clock β → List (List Note) → List String
  | _, [] => []
  | clock, piece :: rest =>
    bodyText bars clock piece :: bodyTexts bars (bodyClock clock piece) rest

theorem join_bodyTexts (bars : Bars β) (clock : Clock β) (pieces : List (List Note)) :
    String.join (bodyTexts bars clock pieces) = bodyText bars clock pieces.flatten := by
  induction pieces generalizing clock with
  | nil => rfl
  | cons piece rest ih =>
    rw [List.flatten_cons, bodyText_append, ← ih, bodyTexts]
    simp

def sheet (title : String) (declarations : List Declaration) (body : String) : String :=
  headerText title declarations ++ body ++ "|\n"

theorem emitEach_settled {options : Options β} {program : Program}
    (h : Settled options.bars program.declarations clock) (pieces : List (List Note)) :
    emitEach options clock (pieces.map program.withNotes) =
      ((bodyTexts options.bars clock pieces).map (sheet options.title program.declarations),
        bodyClock clock pieces.flatten) := by
  induction pieces generalizing clock with
  | nil => rfl
  | cons piece rest ih =>
    have hhead : headerClock options.bars clock program.declarations = clock := h []
    have hclock : (emit none options clock (program.withNotes piece)).clock =
        bodyClock clock piece := by
      rw [emit_clock, Program.withNotes, hhead]
    have htext : (emit none options clock (program.withNotes piece)).text =
        sheet options.title program.declarations (bodyText options.bars clock piece) := by
      rw [emit_text, Program.withNotes, hhead]
      rfl
    rw [List.map_cons, emitEach, hclock, htext, ih (h.bodyClock piece), List.flatten_cons,
      bodyClock_append]
    rfl

theorem emitEach_headerClock {options : Options β} {declarations : List Declaration}
    (h : Settled options.bars declarations (headerClock options.bars clock declarations))
    {first : Program} (hfirst : first.declarations = declarations) (rest : List Program) :
    emitEach options clock (first :: rest) =
      emitEach options (headerClock options.bars clock declarations) (first :: rest) := by
  have htwice : headerClock options.bars (headerClock options.bars clock declarations)
      declarations = headerClock options.bars clock declarations := h []
  simp only [emitEach, emit_text, emit_clock, hfirst, htwice]

/-- A valid program is cut into pieces, and each piece is written as a program with the same
declarations, on one clock. The clock at the end is that of the whole, wherever it started and
however bars are placed, and the bodies join to the body of the whole, bars included. (No piece at
all writes nothing, and so leaves the clock without the meter.) -/
theorem emitEach_pieces {program : Program} (h : program.check = .ok ()) (options : Options Float)
    (clock : Clock Float) {pieces : List (List Note)} (hcut : pieces.flatten = program.notes) :
    (pieces ≠ [] →
      (emitEach options clock (pieces.map program.withNotes)).2 =
        (emit none options clock program).clock) ∧
    ∃ bodies : List String,
      (emitEach options clock (pieces.map program.withNotes)).1 =
        bodies.map (sheet options.title program.declarations) ∧
      (emit none options clock program).text =
        sheet options.title program.declarations (String.join bodies) := by
  have hsettled := settled_headerClock measuresNearSelf_float (Program.valid_of_check h)
    options.bars clock
  have hwhole : (emit none options clock program).text = sheet options.title program.declarations
      (String.join (bodyTexts options.bars
        (headerClock options.bars clock program.declarations) pieces)) := by
    rw [join_bodyTexts, hcut, emit_text]
    rfl
  cases pieces with
  -- Without a piece there is no header either, so the clock is not even settled.
  | nil => exact ⟨fun hne => absurd rfl hne, [], rfl, hwhole⟩
  | cons piece rest =>
    have hfirst : (program.withNotes piece).declarations = program.declarations := rfl
    rw [List.map_cons, emitEach_headerClock hsettled hfirst (rest.map program.withNotes),
      ← List.map_cons, emitEach_settled hsettled]
    refine ⟨fun _ => ?_, _, rfl, hwhole⟩
    rw [emit_clock, hcut]

/-- A measure of 3/4 and half a beat more. -/
def measureAndHalf : Program :=
  { declarations := [.tempo 60, .timeSignature 3 4, .key "Do" .major]
    notes := [⟨"Do", 4, .half⟩, ⟨"Re", 4, .quarter⟩, ⟨"Mi", 4, .eighth⟩] }

def measureAndHalfPieces : List (List Note) :=
  [[⟨"Do", 4, .half⟩], [], [⟨"Re", 4, .quarter⟩, ⟨"Mi", 4, .eighth⟩]]

/-- A clock in the middle of a measure that is a hair longer than the declared one. -/
def lateClock : Clock Float := ⟨1.5, 0, some 3.0001⟩

theorem emitEach_pieces_measureAndHalf :
    measureAndHalf.check = .ok () ∧ measureAndHalfPieces.flatten = measureAndHalf.notes ∧
      measureAndHalfPieces ≠ [] ∧
      (emitEach .default lateClock (measureAndHalfPieces.map measureAndHalf.withNotes)).2 =
        (emit none .default lateClock measureAndHalf).clock ∧
      ∃ bodies : List String,
        (emitEach .default lateClock (measureAndHalfPieces.map measureAndHalf.withNotes)).1 =
          bodies.map (sheet "Generated" measureAndHalf.declarations) ∧
        (emit none .default lateClock measureAndHalf).text =
          sheet "Generated" measureAndHalf.declarations (String.join bodies) := by
  have hcheck : measureAndHalf.check = .ok () := by rfl
  have hcut : measureAndHalfPieces.flatten = measureAndHalf.notes := by rfl
  have hne : measureAndHalfPieces ≠ [] := by decide
  obtain ⟨hclock, hbodies⟩ := emitEach_pieces hcheck .default lateClock hcut
  exact ⟨hcheck, hcut, hne, hclock hne, hbodies⟩

end Abc
end Solfege
