import Solfege.Proofs.FreshMeasure
import Solfege.Proofs.Refusal

/-!
# Solfege.Proofs.FixedBars

Bars at a fixed distance.

The grid looks at what is left of the beats after whole lengths, from below and from above, and
leaves out the beats of the very start. For a length of at least the tolerance this is the question
how far the nearest multiple is, zero not counted (`closesAt_fixed`): it is the last one that has
been passed or the next one, and any other is further away.

* `NearMultiple`      — the beats are within the tolerance of a multiple of the length.
* `barsWhere_entries` — so they are exactly at the notes that get a bar.
* `emit_fixedBars`    — the text of a program, and the meter that it leaves alone.
-/

namespace Solfege

/-- The beats differ by less than a thousandth from the length or a multiple of it. -/
def NearMultiple (length beats : Rat) : Prop :=
  ∃ k : Nat, 0 < k ∧ |beats - k * length| < 1 / 1000

/-! ## The nearest multiple -/

section Multiples

variable {length beats : Rat} {q : Nat}

/-- Of the multiples that have been passed the last one is nearest, of the others the first. -/
theorem nearMultiple_iff (hlow : q * length ≤ beats) (hhigh : beats < (q + 1) * length)
    (hlength : 0 < length) (hbeats : 1 / 1000 ≤ beats) :
    NearMultiple length beats ↔
      beats - q * length < 1 / 1000 ∨ (q + 1) * length - beats < 1 / 1000 := by
  constructor
  · rintro ⟨k, _, hk⟩
    obtain ⟨hbelow, habove⟩ := abs_lt.mp hk
    rcases Nat.lt_or_ge q k with hlt | hle
    · right
      have hcast : ((q + 1 : Nat) : Rat) ≤ k := by exact_mod_cast hlt
      have hmul := mul_le_mul_of_nonneg_right hcast hlength.le
      push_cast at hmul
      linarith
    · left
      have hcast : (k : Rat) ≤ q := by exact_mod_cast hle
      have hmul := mul_le_mul_of_nonneg_right hcast hlength.le
      linarith
  · rintro (hnear | hnear)
    · refine ⟨q, ?_, ?_⟩
      · -- No multiple has been passed only if there are fewer beats than the tolerance.
        rcases Nat.eq_zero_or_pos q with rfl | hpos
        · simp only [Nat.cast_zero, zero_mul, sub_zero] at hnear
          linarith
        · exact hpos
      · rw [abs_of_nonneg (by linarith)]
        exact hnear
    · refine ⟨q + 1, Nat.succ_pos q, ?_⟩
      push_cast
      rw [abs_sub_comm, abs_of_nonneg (by linarith)]
      exact hnear

theorem closesAt_fixed (hlength : 1 / 1000 ≤ length) (hbeats : 1 / 1000 ≤ beats) :
    (⟨Beat.zero, length⟩ : Grid Rat).closesAt beats = true ↔ NearMultiple length beats := by
  have hpos : 0 < length := by linarith
  obtain ⟨q, hq⟩ : ∃ q : Nat, ⌊beats / length⌋ = q :=
    Int.eq_ofNat_of_zero_le (Int.floor_nonneg.mpr (div_nonneg (by linarith) hpos.le))
  have hlow : q * length ≤ beats := by
    have hfloor := Int.floor_le (beats / length)
    rw [hq, le_div_iff₀ hpos] at hfloor
    exact_mod_cast hfloor
  have hhigh : beats < (q + 1) * length := by
    have hfloor := Int.lt_floor_add_one (beats / length)
    rw [hq, div_lt_iff₀ hpos] at hfloor
    exact_mod_cast hfloor
  have hrem : Beat.rem beats length = beats - q * length := by
    rw [Beat.rem_eq, hq, mul_comm]
    push_cast
    rfl
  have hleft : length - (beats - q * length) = (q + 1) * length - beats := by ring
  rw [Grid.closesAt_iff, Beat.zero_eq, sub_zero, hrem, hleft,
    nearMultiple_iff hlow hhigh hpos hbeats]
  exact ⟨fun h => h.2.2, fun h => ⟨hbeats, hlength, h⟩⟩

end Multiples

namespace Abc

variable {length : Rat} {clock : Clock Rat}

/-- A note is longer than the tolerance, so the beats after it are not those of the start. -/
theorem barsWhere_entries (hlength : 1 / 1000 ≤ length) (hbeats : 0 ≤ clock.beats)
    (notes : List Note) :
    BarsWhere (NearMultiple length) clock.beats
      (entries (some ⟨Beat.zero, length⟩) clock notes) := by
  induction notes generalizing clock with
  | nil => exact .nil _ _
  | cons n rest ih =>
    have hafter : (clock.advance n.duration).beats = clock.beats + n.duration.beats := rfl
    have hnote : (1 : Rat) / 4 ≤ n.duration.beats := by
      have hone : (1 : Rat) ≤ n.duration.sixteenths :=
        Nat.one_le_cast.mpr (Tally.sixteenths_pos n.duration)
      rw [Duration.beats_quarters]
      linarith
    rw [entries]
    apply BarsWhere.cons
    · exact closesAt_fixed hlength (by rw [hafter]; linarith)
    · exact @ih (clock.advance n.duration) (by rw [hafter]; linarith)

theorem emit_every_meter (room : Option Nat) (title : String) (length : Rat) (clock : Clock Rat)
    (program : Program) :
    (emit room ⟨title, .every length⟩ clock program).clock.origin = clock.origin ∧
      (emit room ⟨title, .every length⟩ clock program).clock.measure = clock.measure := by
  cases room with
  | none =>
    rw [emit_clock, bodyClock_origin, bodyClock_measure, headerClock_every]
    exact ⟨rfl, rfl⟩
  | some room =>
    rw [clock_emit_some, bodyClock_origin, bodyClock_measure, headerClock_every]
    exact ⟨rfl, rfl⟩

/-- With bars every so many beats, any program is written, from any clock, with a bar after just
those notes at which the beats of the clock are near a multiple of the length. However much of the
text is taken, the grid of the clock stays where it is, whatever time signatures there are. -/
theorem emit_fixedBars (hlength : 1 / 1000 ≤ length) (hbeats : 0 ≤ clock.beats) (title : String)
    (program : Program) :
    (∃ row : List Entry, row.map Entry.note = program.notes ∧
      (emit none ⟨title, .every length⟩ clock program).text.toList =
        ended (sheetLines title program.declarations row) ∧
      BarsWhere (NearMultiple length) clock.beats row) ∧
    ∀ room, (emit room ⟨title, .every length⟩ clock program).clock.origin = clock.origin ∧
      (emit room ⟨title, .every length⟩ clock program).clock.measure = clock.measure := by
  refine ⟨⟨_, map_note_entries _ clock program.notes, ?_, barsWhere_entries hlength hbeats _⟩,
    fun room => emit_every_meter room title length clock program⟩
  rw [toList_emit, headerClock_every]
  rfl

def dotted : Program :=
  { declarations := [.tempo 60, .timeSignature 3 4, .key "Do" .major]
    notes := [⟨"Do", 4, .quarter⟩, ⟨"Re", 4, .eighth⟩, ⟨"Mi", 4, .quarter⟩, ⟨"Fa", 4, .half⟩] }

theorem emit_fixedBars_dotted :
    (1 : Rat) / 1000 ≤ 3 / 2 ∧ 0 ≤ (Clock.start : Clock Rat).beats ∧
      (∃ row : List Entry, row.map Entry.note = dotted.notes ∧
        (emit none ⟨"Vals", .every (3 / 2 : Rat)⟩ .start dotted).text.toList =
          ended (sheetLines "Vals" dotted.declarations row) ∧
        BarsWhere (NearMultiple (3 / 2)) (Clock.start : Clock Rat).beats row) ∧
      (emit (some 9) ⟨"Vals", .every (3 / 2 : Rat)⟩ .start dotted).clock.measure = none := by
  have hlength : (1 : Rat) / 1000 ≤ 3 / 2 := by norm_num
  have hbeats : 0 ≤ (Clock.start : Clock Rat).beats := Beat.zero_eq.ge
  obtain ⟨hrow, hmeter⟩ := emit_fixedBars hlength hbeats "Vals" dotted
  exact ⟨hlength, hbeats, hrow, (hmeter (some 9)).2⟩

end Abc

end Solfege
