import Solfege.Proofs.Fragments

/-!
# Solfege.Proofs.BareCounter

Programs written one after another, on a clock or on a bare count of beats.

A clock carries the meter and the start of its grid from program to program. A bare count carries
neither: every program is written on a grid from beat zero. As long as no program changes the
meter, there is nothing else to carry. Such a clock is `Unmoved`:

* `unmoved_ofBeats`     — a clock is, if it starts from a bare count;
* `emit_unmoved`        — one program is written on it as on its beats, and leaves it unmoved;
* `emitAllFrom_unmoved` — so the two runs agree from program to program.

Programs that fix the distance of their bars look at the beats alone and leave the grid as it is,
wherever they stand in the run.
-/

namespace Solfege
namespace Abc

variable {β : Type} [Beat β]

/-- Write programs one after another on one clock, each as its metadata says: the texts, and the
clock at the end. -/
def emitAll : Clock β → List Program → List String × Clock β
  | clock, [] => ([], clock)
  | clock, program :: rest =>
    let first := emit none (.ofMetadata program.metadata) clock program
    let more := emitAll first.clock rest
    (first.text :: more.1, more.2)

def emitAllFrom : β → List Program → List String × β
  | count, [] => ([], count)
  | count, program :: rest =>
    let first := emitCounting none (.ofMetadata program.metadata) count program
    let more := emitAllFrom first.2 rest
    (first.1.text :: more.1, more.2)

end Abc

/-- The length of the measure that a program declares, in exact quarter notes. -/
def Program.measure? (program : Program) : Option Rat :=
  program.meter?.map fun meter => measureBeats meter.1 meter.2

/-! ## Equal lengths -/

theorem measureBeats_float {numerator denominator : Int}
    (h : (Declaration.timeSignature numerator denominator).InRange) :
    (measureBeats numerator denominator : Float) =
      Beat.ofRatio (16 * numerator / denominator) 4 := by
  obtain ⟨⟨hlow, hhigh⟩, hd⟩ := h
  have hall : ∀ d ∈ [2, 4, 8, 16], ∀ n ∈ [2, 3, 4, 5, 6, 7, 8, 9, 10, 11, 12],
      (measureBeats n d : Float) = Beat.ofRatio (16 * n / d) 4 := by decide +kernel
  apply hall denominator hd numerator
  simp only [List.mem_cons, List.not_mem_nil, or_false]
  omega

def Program.Declares {β : Type} [Beat β] (program : Program) (length : β) : Prop :=
  ∃ numerator denominator,
    program.declarations.filterMap Declaration.meter? = [(numerator, denominator)] ∧
      (Declaration.timeSignature numerator denominator).InRange ∧
      measureBeats numerator denominator = length

theorem Program.Valid.declares {program : Program} (h : program.Valid) {length : Rat}
    (hlength : program.measure? = some length) :
    program.Declares (Beat.ofRatio (4 * length).floor 4 : Float) := by
  obtain ⟨numerator, denominator, hone, hrange⟩ := h.meter
  refine ⟨numerator, denominator, hone, hrange, ?_⟩
  rw [measure?, meter?_of_filterMap hone] at hlength
  have hsixteenths : 4 * length = ((16 * numerator / denominator : Int) : Rat) := by
    rw [← Option.some.inj hlength]
    show 4 * (measureBeats numerator denominator : Rat) = _
    rw [measureBeats_quarters hrange.2]
    ring
  rw [hsixteenths, Rat.floor_intCast, measureBeats_float hrange]

/-! ## Clocks without a change of meter -/

variable {β : Type} [Beat β] {clock : Clock β} {length : β}

/-- The grid starts at beat zero, and no measure but one of this length is in force. -/
structure Clock.Unmoved (clock : Clock β) (length : β) : Prop where
  origin : clock.origin = Beat.zero
  measure : clock.measure = none ∨ clock.measure = some length

namespace Clock

theorem unmoved_ofBeats (beats length : β) : (ofBeats beats).Unmoved length :=
  ⟨rfl, .inl rfl⟩

theorem Unmoved.setMeter (h : clock.Unmoved length) (hself : Beat.near length length = true) :
    clock.setMeter length = ⟨clock.beats, Beat.zero, some length⟩ := by
  obtain ⟨beats, origin, measure⟩ := clock
  obtain ⟨rfl, rfl | rfl⟩ := h
  · rfl
  · have hin : (⟨beats, Beat.zero, some length⟩ : Clock β).InMeter length := ⟨length, rfl, hself⟩
    exact hin.setMeter

end Clock

namespace Abc

theorem textOf_bodySegments_of_beats {grid : Option (Grid β)} {clock other : Clock β}
    (h : clock.beats = other.beats) (notes : List Note) :
    textOf (bodySegments grid clock notes) = textOf (bodySegments grid other notes) := by
  induction notes generalizing clock other with
  | nil => rfl
  | cons n rest ih =>
    have hbeats : (clock.advance n.duration).beats = (other.advance n.duration).beats := by
      simp only [Clock.advance, h]
    rw [textOf_bodySegments_cons, textOf_bodySegments_cons, hbeats, ih hbeats]

theorem unmoved_bodyClock (h : clock.Unmoved length) (notes : List Note) :
    (bodyClock clock notes).Unmoved length := by
  refine ⟨?_, ?_⟩
  · rw [bodyClock_origin, h.origin]
  · rw [bodyClock_measure]
    exact h.measure

theorem headerClock_unmoved (hself : MeasuresNearSelf β) (h : clock.Unmoved length)
    {program : Program} (hmeter : program.metadata.barBeats = none → program.Declares length) :
    let bars := (Options.ofMetadata program.metadata : Options β).bars
    let headed := headerClock bars clock program.declarations
    headed.Unmoved length ∧
      bars.grid headed =
        bars.grid (headerClock bars (.ofBeats clock.beats) program.declarations) := by
  intro bars headed
  cases hbars : program.metadata.barBeats with
  | some fixed =>
    have hevery : bars = .every (Beat.ofFloat fixed) := by
      simp only [bars, Options.ofMetadata, hbars]
    simp only [headed, hevery, headerClock_every]
    exact ⟨h, rfl⟩
  | none =>
    have hby : bars = .byMeter := by
      simp only [bars, Options.ofMetadata, hbars]
    obtain ⟨numerator, denominator, hone, hrange, rfl⟩ := hmeter hbars
    have hnear := hself numerator denominator hrange
    have hcarried := h.setMeter hnear
    have hfresh := (Clock.unmoved_ofBeats clock.beats (measureBeats numerator denominator)).setMeter
      hnear
    simp only [headed, hby, headerClock_byMeter, hone, List.foldl_cons, List.foldl_nil, hcarried,
      hfresh]
    exact ⟨⟨rfl, .inr rfl⟩, rfl⟩

theorem emit_unmoved (hself : MeasuresNearSelf β) (h : clock.Unmoved length) {program : Program}
    (hmeter : program.metadata.barBeats = none → program.Declares length) :
    let carried := emit none (.ofMetadata program.metadata) clock program
    let fresh := emitCounting none (.ofMetadata program.metadata) clock.beats program
    carried.text = fresh.1.text ∧ carried.clock.beats = fresh.2 ∧
      carried.clock.Unmoved length := by
  intro carried fresh
  obtain ⟨hunmoved, hgrid⟩ := headerClock_unmoved hself h hmeter
  refine ⟨?_, ?_, ?_⟩
  · simp only [carried, fresh, emitCounting, emitFrom, emit_text, hgrid]
    rw [textOf_bodySegments_of_beats]
    rw [headerClock_beats, headerClock_beats]
    rfl
  · simp only [carried, fresh, emitCounting, emitFrom, emit_clock, bodyClock_beats,
      headerClock_beats]
    rfl
  · simp only [carried, emit_clock]
    exact unmoved_bodyClock hunmoved program.notes

theorem emitAllFrom_unmoved (hself : MeasuresNearSelf β) (h : clock.Unmoved length)
    {programs : List Program}
    (hmeter : ∀ p ∈ programs, p.metadata.barBeats = none → p.Declares length) :
    emitAllFrom clock.beats programs =
      ((emitAll clock programs).1, (emitAll clock programs).2.beats) := by
  induction programs generalizing clock with
  | nil => rfl
  | cons program rest ih =>
    obtain ⟨htext, hbeats, hunmoved⟩ := emit_unmoved hself h (hmeter program (by simp))
    have hrest := ih hunmoved fun p hp => hmeter p (List.mem_cons_of_mem _ hp)
    simp only [emitAllFrom, emitAll, ← htext, ← hbeats, hrest]

/-- Valid programs that, except where they fix the distance of their bars, have measures of one
length are written alike on a bare count of beats and on a clock that starts from it: every text
is the same, and so is the beat at the end. -/
theorem emitAllFrom_eq_emitAll (beats : Float) {programs : List Program}
    (hvalid : ∀ p ∈ programs, p.check = .ok ())
    (hmeter : ∃ length, ∀ p ∈ programs, p.metadata.barBeats = none → p.measure? = some length) :
    emitAllFrom beats programs =
      ((emitAll (.ofBeats beats) programs).1, (emitAll (.ofBeats beats) programs).2.beats) := by
  obtain ⟨length, hlength⟩ := hmeter
  refine emitAllFrom_unmoved measuresNearSelf_float
    (Clock.unmoved_ofBeats beats (Beat.ofRatio (4 * length).floor 4)) fun p hp hbars => ?_
  exact (Program.valid_of_check (hvalid p hp)).declares (hlength p hp hbars)

/-- A change of meter is more than a count of beats can carry: in 2/4, after a beat in 3/4, the
bar falls on another note. -/
example :
    let inMeter (numerator : Int) : Program :=
      { declarations := [.tempo 60, .timeSignature numerator 4, .key "Do" .major]
        notes := [⟨"Do", 4, .quarter⟩] }
    (emitAllFrom (0 : Float) [inMeter 3, inMeter 2]).1 ≠
      (emitAll (.ofBeats (0 : Float)) [inMeter 3, inMeter 2]).1 := by
  decide +kernel

def waltzAndJig : List Program :=
  [{ declarations := [.tempo 60, .timeSignature 3 4, .key "Do" .major]
     notes := [⟨"Do", 4, .quarter⟩] },
   { metadata := { barBeats := some 1 }
     declarations := [.tempo 90, .timeSignature 5 8, .key "Do" .major]
     notes := [⟨"Re", 4, .eighth⟩] },
   { declarations := [.tempo 60, .timeSignature 6 8, .key "La" .minor]
     notes := [⟨"Mi", 4, .eighth⟩, ⟨"Fa", 4, .half⟩] }]

/-- The piece starts at the second beat of a measure, which its first note in 6/8 closes. -/
theorem emitAllFrom_waltzAndJig :
    (∀ p ∈ waltzAndJig, p.check = .ok ()) ∧
      (∃ length, ∀ p ∈ waltzAndJig, p.metadata.barBeats = none → p.measure? = some length) ∧
      emitAllFrom (1 : Float) waltzAndJig =
        ((emitAll (.ofBeats (1 : Float)) waltzAndJig).1,
          (emitAll (.ofBeats (1 : Float)) waltzAndJig).2.beats) := by
  have hvalid : ∀ p ∈ waltzAndJig, p.check = .ok () := by decide +kernel
  have hmeter : ∃ length, ∀ p ∈ waltzAndJig, p.metadata.barBeats = none →
      p.measure? = some length := ⟨3, by decide +kernel⟩
  exact ⟨hvalid, hmeter, emitAllFrom_eq_emitAll 1 hvalid hmeter⟩

end Abc
end Solfege
