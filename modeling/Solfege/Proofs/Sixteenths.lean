import Solfege.Proofs.ExactBeat
import Solfege.Proofs.FirstViolation
import Solfege.Proofs.Written
import Solfege.Yaml.Fields

/-!
# Solfege.Proofs.Sixteenths

Where bars fall in a piece made of many fragments, counted in whole sixteenths.

A `Tally` holds three integers: the sixteenths written, the one at which the grid starts, and the
length of a measure once there is one. A `Ledger` is a tally with the text written so far. Neither
knows of tolerances, remainders or fractions; `Ledger.append` says in plain counting where a bar
is written.

`appendAll_new_ledger`: a score to which fragments are added, in exact beats, is the ledger of
the same fragments, text and clock.

The proof goes along the three things that move a clock: a meter (`clock_setMeter`), a note
(`clock_play`) and the bar after a note (`closesAt_clock`). What they need of a tally is
`Tally.Sound`, which every step keeps.
-/

namespace Solfege

/-- Musical time in sixteenths. -/
structure Tally where
  written : Int
  origin : Int
  measure : Option Int
  deriving DecidableEq

namespace Tally

def start : Tally := ⟨0, 0, none⟩

/-- Another measure than the one in force moves the origin to where the piece stands. -/
def setMeter (tally : Tally) (length : Int) : Tally :=
  match tally.measure with
  | none => { tally with measure := some length }
  | some current =>
    { tally with
      origin := if current ≠ length then tally.written else tally.origin
      measure := some length }

def play (tally : Tally) (duration : Duration) : Tally :=
  { tally with written := tally.written + duration.sixteenths }

/-- The sixteenths since the origin are a whole number of measures. -/
def closes (tally : Tally) : Bool :=
  match tally.measure with
  | none => false
  | some length => (tally.written - tally.origin) % length = 0

def bodyText (tally : Tally) : List Note → String
  | [] => ""
  | n :: rest =>
    Abc.note n ++ " " ++ (if (tally.play n.duration).closes then "| " else "") ++
      (tally.play n.duration).bodyText rest

def playAll (tally : Tally) (notes : List Note) : Tally :=
  notes.foldl (fun tally n => tally.play n.duration) tally

def clock (tally : Tally) : Clock Rat :=
  ⟨tally.written / 4, tally.origin / 4, tally.measure.map fun length => length / 4⟩

end Tally

def Declaration.meter? : Declaration → Option (Int × Int)
  | .timeSignature numerator denominator => some (numerator, denominator)
  | _ => none

/-- The time signature that a program declares. -/
def Program.meter? (program : Program) : Option (Int × Int) :=
  program.declarations.findSome? Declaration.meter?

def Tally.header (tally : Tally) (program : Program) : Tally :=
  match program.meter? with
  | none => tally
  | some (numerator, denominator) => tally.setMeter (16 * numerator / denominator)

structure Ledger where
  text : String
  tally : Tally
  deriving DecidableEq

namespace Ledger

def new : Ledger := ⟨"", .start⟩

/-- Add a fragment; one that is refused changes nothing. -/
def append [FrontMatter.Reader] (ledger : Ledger) (source : String) : Ledger :=
  match accept source with
  | .error _ => ledger
  | .ok program =>
    let tally := ledger.tally.header program
    { text := ledger.text ++ (Abc.headerText (program.metadata.title.getD "Generated")
        program.declarations ++ tally.bodyText program.notes ++ "|\n")
      tally := tally.playAll program.notes }

def score (ledger : Ledger) : Score Rat :=
  ⟨ledger.text, ledger.tally.clock⟩

end Ledger

/-! ## One step of the clock -/

namespace Tally

/-- The grid does not start in the future, and a measure is not empty. -/
structure Sound (tally : Tally) : Prop where
  origin_le : tally.origin ≤ tally.written
  measure_pos : ∀ length, tally.measure = some length → 0 < length

theorem start_sound : start.Sound := ⟨Int.le_refl 0, fun _ h => by cases h⟩

theorem clock_start : start.clock = Clock.start := by
  simp [start, clock, Clock.start, Clock.ofBeats, Beat.zero_eq]

theorem clock_setMeter (tally : Tally) (length : Int) :
    (tally.setMeter length).clock = tally.clock.setMeter ((length : Rat) / 4) := by
  obtain ⟨written, origin, measure⟩ := tally
  cases measure with
  | none => rfl
  | some current =>
    by_cases h : current = length
    · subst h
      have hnear := (Beat.near_quarters current current).mpr rfl
      simp [setMeter, clock, Clock.setMeter, Clock.changesMeter, hnear]
    · have hnear : Beat.near ((current : Rat) / 4) ((length : Rat) / 4) = false := by
        rw [← Bool.not_eq_true, Beat.near_quarters]
        exact h
      simp [setMeter, clock, Clock.setMeter, Clock.changesMeter, hnear, h]

theorem clock_play (tally : Tally) (duration : Duration) :
    (tally.play duration).clock = tally.clock.advance duration := by
  simp only [play, clock, Clock.advance, Beat.add_eq, Duration.beats_quarters]
  congr 1
  push_cast
  ring

theorem Sound.setMeter {tally : Tally} (h : tally.Sound) {length : Int} (hpos : 0 < length) :
    (tally.setMeter length).Sound := by
  obtain ⟨written, origin, measure⟩ := tally
  have hle : origin ≤ written := h.origin_le
  cases measure with
  | none =>
    refine ⟨hle, ?_⟩
    rintro _ ⟨⟩
    exact hpos
  | some current =>
    refine ⟨?_, ?_⟩
    · simp only [Tally.setMeter]
      split
      · exact Int.le_refl written
      · exact hle
    · rintro _ ⟨⟩
      exact hpos

theorem sixteenths_pos (duration : Duration) : 0 < duration.sixteenths := by
  cases duration <;> decide

theorem Sound.play {tally : Tally} (h : tally.Sound) (duration : Duration) :
    (tally.play duration).Sound := by
  refine ⟨?_, h.measure_pos⟩
  have := h.origin_le
  simp only [Tally.play]
  omega

/-- After a note the exact grid and the count of sixteenths agree on the bar. -/
theorem closesAt_clock {tally : Tally} (h : tally.Sound) (duration : Duration) :
    Abc.barAt (Abc.Bars.byMeter.grid tally.clock) (tally.play duration).clock.beats =
      (tally.play duration).closes := by
  obtain ⟨written, origin, measure⟩ := tally
  cases measure with
  | none => rfl
  | some length =>
    have hpos := h.measure_pos length rfl
    have hlt : origin < written + duration.sixteenths := by
      have := h.origin_le
      have := sixteenths_pos duration
      simp only at *
      omega
    rw [Bool.eq_iff_iff]
    exact (Grid.closesAt_quarters hlt hpos).trans decide_eq_true_iff.symm

end Tally

/-! ## One fragment -/

namespace Tally

theorem clock_playAll (tally : Tally) (notes : List Note) :
    (tally.playAll notes).clock = Abc.bodyClock tally.clock notes := by
  induction notes generalizing tally with
  | nil => rfl
  | cons n rest ih =>
    show ((tally.play n.duration).playAll rest).clock = Abc.bodyClock _ rest
    rw [ih, clock_play]

theorem Sound.playAll {tally : Tally} (h : tally.Sound) (notes : List Note) :
    (tally.playAll notes).Sound := by
  induction notes generalizing tally with
  | nil => exact h
  | cons n rest ih => exact ih (h.play n.duration)

/-- Notes move neither the origin nor the measure, so the grid of the header serves all of them. -/
theorem textOf_bodySegments {tally : Tally} (h : tally.Sound) (notes : List Note) :
    Abc.textOf (Abc.bodySegments (Abc.Bars.byMeter.grid tally.clock) tally.clock notes) =
      tally.bodyText notes := by
  induction notes generalizing tally with
  | nil => rfl
  | cons n rest ih =>
    have hgrid : Abc.Bars.byMeter.grid (tally.play n.duration).clock =
        Abc.Bars.byMeter.grid tally.clock := rfl
    have hbar := closesAt_clock h n.duration
    have hrest := ih (h.play n.duration)
    rw [hgrid, clock_play] at hrest
    rw [clock_play] at hbar
    rw [Abc.textOf_bodySegments_cons, hbar, hrest, bodyText]

end Tally

/-- Of the declarations only time signatures move the clock. -/
theorem Abc.headerClock_byMeter {β : Type} [Beat β] (clock : Clock β)
    (declarations : List Declaration) :
    headerClock .byMeter clock declarations =
      (declarations.filterMap Declaration.meter?).foldl
        (fun clock meter => clock.setMeter (measureBeats meter.1 meter.2)) clock := by
  induction declarations generalizing clock with
  | nil => rfl
  | cons d rest ih =>
    cases d with
    | tempo bpm => exact ih clock
    | timeSignature numerator denominator => exact ih _
    | key root mode => exact ih clock

theorem length_filterMap_meter? (declarations : List Declaration) :
    (declarations.filterMap Declaration.meter?).length =
      (declarations.map Declaration.kind).count .timeSignature := by
  induction declarations with
  | nil => rfl
  | cons d rest ih =>
    cases d <;> simp [List.filterMap_cons, Declaration.meter?, Declaration.kind, ih]

namespace Program

/-- A valid program declares one time signature, and that one is in range. -/
theorem Valid.meter {program : Program} (h : program.Valid) :
    ∃ numerator denominator : Int,
      program.declarations.filterMap Declaration.meter? = [(numerator, denominator)] ∧
        (Declaration.timeSignature numerator denominator).InRange := by
  have hlen : (program.declarations.filterMap Declaration.meter?).length = 1 := by
    rw [length_filterMap_meter?, h.once]
  obtain ⟨⟨numerator, denominator⟩, hone⟩ := List.length_eq_one_iff.mp hlen
  have hmem : (numerator, denominator) ∈ program.declarations.filterMap Declaration.meter? := by
    rw [hone]
    exact List.mem_singleton.mpr rfl
  obtain ⟨d, hd, hmeter⟩ := List.mem_filterMap.mp hmem
  have hrange := h.inRange d hd
  cases d with
  | tempo bpm => cases hmeter
  | timeSignature n m =>
    cases hmeter
    exact ⟨numerator, denominator, hone, hrange⟩
  | key root mode => cases hmeter

theorem meter?_of_filterMap {program : Program} {meter : Int × Int}
    (h : program.declarations.filterMap Declaration.meter? = [meter]) :
    program.meter? = some meter := by
  rw [meter?, ← List.head?_filterMap, h]
  rfl

end Program

theorem measureLength_pos {numerator denominator : Int} (hn : 2 ≤ numerator)
    (hd : denominator ∈ [2, 4, 8, 16]) : 0 < 16 * numerator / denominator := by
  simp only [List.mem_cons, List.not_mem_nil, or_false] at hd
  rcases hd with rfl | rfl | rfl | rfl <;> omega

namespace Tally

variable {tally : Tally} {program : Program}

theorem clock_header (tally : Tally) (h : program.Valid) :
    (tally.header program).clock =
      Abc.headerClock .byMeter tally.clock program.declarations := by
  obtain ⟨numerator, denominator, hone, _, hd⟩ := h.meter
  rw [Abc.headerClock_byMeter, hone, header, Program.meter?_of_filterMap hone]
  show (tally.setMeter _).clock = tally.clock.setMeter (measureBeats numerator denominator)
  rw [clock_setMeter, measureBeats_quarters hd]

theorem Sound.header (hs : tally.Sound) (h : program.Valid) : (tally.header program).Sound := by
  obtain ⟨numerator, denominator, hone, ⟨hn, _⟩, hd⟩ := h.meter
  rw [Tally.header, Program.meter?_of_filterMap hone]
  exact hs.setMeter (measureLength_pos hn hd)

end Tally

/-! ## Whole runs -/

/-- The source does not fix the distance between its bars. -/
def BarsByMeter [FrontMatter.Reader] (source : String) : Prop :=
  ∀ program, parse source = .ok program → program.metadata.barBeats = none

instance [FrontMatter.Reader] (source : String) : Decidable (BarsByMeter source) :=
  match h : parse source with
  | .error _ => isTrue fun _ hp => by rw [h] at hp; cases hp
  | .ok program =>
    decidable_of_iff (program.metadata.barBeats.isNone = true) <| by
      rw [Option.isNone_iff_eq_none]
      constructor
      · intro hnone p hp
        rw [h] at hp
        cases hp
        exact hnone
      · exact fun hall => hall program h

theorem Ledger.append_sound [FrontMatter.Reader] {ledger : Ledger} (h : ledger.tally.Sound)
    (source : String) : (ledger.append source).tally.Sound := by
  rw [append]
  split
  · exact h
  · rename_i program hp
    have hvalid := Program.valid_of_check (accept_eq_ok.mp hp).2
    exact (h.header hvalid).playAll program.notes

/-- One fragment added to the score of a ledger gives the score of the ledger with it. -/
theorem Ledger.score_append [FrontMatter.Reader] {ledger : Ledger} (h : ledger.tally.Sound)
    {source : String} (hbars : BarsByMeter source) :
    (ledger.score.append source).2 = (ledger.append source).score := by
  cases hp : accept source with
  | error error => rw [Score.append_of_error hp, append, hp]
  | ok program =>
    obtain ⟨hparse, hcheck⟩ := accept_eq_ok.mp hp
    have hvalid := Program.valid_of_check hcheck
    have hoptions : (Abc.Options.ofMetadata program.metadata : Abc.Options Rat) =
        ⟨program.metadata.title.getD "Generated", .byMeter⟩ := by
      rw [Abc.Options.ofMetadata, hbars program hparse]
      rfl
    have hclock := ledger.tally.clock_header hvalid
    have htext := Tally.textOf_bodySegments (h.header hvalid) program.notes
    rw [hclock] at htext
    rw [Score.append_of_ok hp, append, hp]
    simp only [Score.addition, hoptions, Abc.emit_text, Abc.emit_clock, score, Tally.clock_playAll,
      hclock, htext]

theorem Ledger.score_appendAll [FrontMatter.Reader] {ledger : Ledger} (h : ledger.tally.Sound)
    {sources : List String} (hbars : ∀ source ∈ sources, BarsByMeter source) :
    ledger.score.appendAll sources = (sources.foldl Ledger.append ledger).score := by
  induction sources generalizing ledger with
  | nil => rfl
  | cons source rest ih =>
    rw [Score.appendAll_cons, score_append h (hbars source (by simp)),
      ih (append_sound h source) fun s hs => hbars s (by simp [hs])]
    rfl

/-- The score of any run of fragments is the ledger's: a bar stands after a note exactly if the
sixteenths since the origin are then a multiple of the measure, and the clock is the tally in
quarter notes. A run may stop after any fragment. -/
theorem appendAll_new_ledger [FrontMatter.Reader] (sources : List String)
    (h : ∀ source ∈ sources, BarsByMeter source) :
    (Score.new : Score Rat).appendAll sources = (sources.foldl Ledger.append Ledger.new).score := by
  have hnew : (Score.new : Score Rat) = Ledger.new.score := by
    rw [Ledger.score, Ledger.new, Tally.clock_start]
    rfl
  rw [hnew]
  exact Ledger.score_appendAll Tally.start_sound h

/-- One beat in 2/4, a fragment that is refused, and one measure in 3/4. -/
def meterChange : List String :=
  ["Tempo 60\nCompas 2/4\nTonalidad Do M\nDo4 Negra",
    "Tempo 10\nCompas 4/4\nTonalidad Do M\nDo4 Blanca",
    "Tempo 60\nCompas 3/4\nTonalidad Do M\nRe4 Blanca\nMi4 Negra"]

/-- The open measure is cut short where the meter changes, and the new one counts from there. -/
theorem appendAll_meterChange :
    (∀ source ∈ meterChange, BarsByMeter source) ∧
      (Score.new : Score Rat).appendAll meterChange =
        ⟨"X:1\nT:Generated\nQ:1/4=60\nM:2/4\nL:1/8\nK:Cmaj\nC2 |\n" ++
          "X:1\nT:Generated\nQ:1/4=60\nM:3/4\nL:1/8\nK:Cmaj\nD4 E2 | |\n", ⟨4, 1, some 3⟩⟩ := by
  have hbars : ∀ source ∈ meterChange, BarsByMeter source := by decide +kernel
  refine ⟨hbars, ?_⟩
  have hledger : meterChange.foldl Ledger.append Ledger.new =
      ⟨"X:1\nT:Generated\nQ:1/4=60\nM:2/4\nL:1/8\nK:Cmaj\nC2 |\n" ++
        "X:1\nT:Generated\nQ:1/4=60\nM:3/4\nL:1/8\nK:Cmaj\nD4 E2 | |\n", ⟨16, 4, some 12⟩⟩ := by
    decide +kernel
  rw [appendAll_new_ledger meterChange hbars, hledger]
  simp only [Ledger.score, Tally.clock]
  norm_num

end Solfege
