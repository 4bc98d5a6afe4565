import Mathlib.Algebra.Order.BigOperators.Group.List
import Mathlib.Data.List.Induction
import Solfege.Proofs.SheetLayout
import Solfege.Proofs.Sixteenths

/-!
# Solfege.Proofs.FreshMeasure

Where the bars of a fragment fall after a fragment in another time signature.

The clock remembers how long a measure is, not how its time signature was written. So 3/4 after 2/4
starts a new grid, but 6/8 after 3/4 does not: a measure that was left open is then closed in the
new fragment, and the bars in it are off by what had been played of that measure.

* `Abc.BarsFrom`          — bars stand where whole measures end, counted from a given start.
* `Tally.barsFrom_entries` — so they do in a fragment, counted from the origin of the grid.
* `Abc.BarsFrom.fresh_iff` — when that is the same as counting from the fragment itself.
* `append_freshMeasure`   — for every run of fragments and every pair of time signatures.
-/

namespace Solfege

/-! ## Whole measures -/

def Measures (measure beats : Rat) : Prop :=
  ∃ k : Nat, 0 < k ∧ beats = k * measure

namespace Measures

variable {measure start beats : Rat}

theorem add_iff (hmeasure : 0 < measure) (hbeats : 0 < beats) (k : Nat) :
    Measures measure (k * measure + beats) ↔ Measures measure beats := by
  constructor
  · rintro ⟨j, _, hj⟩
    have hlt : k < j := by
      have hcast : (k : Rat) < j := by
        rw [← mul_lt_mul_iff_left₀ hmeasure]
        linarith
      exact_mod_cast hcast
    refine ⟨j - k, by omega, ?_⟩
    rw [Nat.cast_sub hlt.le]
    linarith
  · rintro ⟨j, hj, rfl⟩
    refine ⟨k + j, by omega, ?_⟩
    push_cast
    ring

theorem le (h : Measures measure beats) (hmeasure : 0 ≤ measure) : measure ≤ beats := by
  obtain ⟨k, hk, rfl⟩ := h
  exact le_mul_of_one_le_left hmeasure (Nat.one_le_cast.mpr hk)

/-- Two counts that close a measure together start a whole number of measures apart. -/
theorem sub (hmeasure : 0 < measure) (hstart : 0 ≤ start) (h : Measures measure beats)
    (hfrom : Measures measure (start + beats)) : ∃ k : Nat, start = k * measure := by
  obtain ⟨i, _, hi⟩ := h
  obtain ⟨j, _, hj⟩ := hfrom
  have hle : i ≤ j := by
    have hcast : (i : Rat) ≤ j := by
      rw [← mul_le_mul_iff_left₀ hmeasure]
      linarith
    exact_mod_cast hcast
  refine ⟨j - i, ?_⟩
  rw [Nat.cast_sub hle]
  linarith

end Measures

namespace Abc

/-! ## Bars in a row -/

def beatsOf (notes : List Note) : Rat :=
  (notes.map fun n => (n.duration.beats : Rat)).sum

/-- A bar comes after a note exactly if the beats up to then, counted from `start`, are where bars
fall. -/
def BarsWhere (falls : Rat → Prop) (start : Rat) (row : List Entry) : Prop :=
  ∀ before entry, before ++ [entry] <+: row →
    (entry.bar = true ↔ falls (start + beatsOf ((before ++ [entry]).map Entry.note)))

theorem BarsWhere.nil (falls : Rat → Prop) (start : Rat) : BarsWhere falls start [] := by
  intro before entry h
  simp at h

theorem BarsWhere.cons {falls : Rat → Prop} {start : Rat} {entry : Entry} {row : List Entry}
    (hentry : entry.bar = true ↔ falls (start + entry.note.duration.beats))
    (hrow : BarsWhere falls (start + entry.note.duration.beats) row) :
    BarsWhere falls start (entry :: row) := by
  intro before last h
  cases before with
  | nil =>
    obtain ⟨rfl, _⟩ := List.cons_prefix_cons.mp h
    simpa [beatsOf] using hentry
  | cons first before =>
    obtain ⟨rfl, hrest⟩ := List.cons_prefix_cons.mp h
    rw [hrow before last hrest]
    simp [beatsOf, add_assoc]

/-- A bar comes after a note exactly if the beats up to then, counted from `start`, are whole
measures. -/
def BarsFrom (start measure : Rat) (row : List Entry) : Prop :=
  BarsWhere (Measures measure) start row

theorem beatsOf_pos {notes : List Note} (h : notes ≠ []) : 0 < beatsOf notes := by
  refine List.sum_pos _ ?_ (by simpa using h)
  intro beats hbeats
  obtain ⟨n, _, rfl⟩ := List.mem_map.mp hbeats
  have hpos : (0 : Rat) < n.duration.sixteenths := Nat.cast_pos.mpr (Tally.sixteenths_pos _)
  rw [Duration.beats_quarters]
  linarith

/-- Bars that count from an earlier start count from the row itself if a measure begins with the
row, or if there is nothing to count: no part of the row closes a measure in either way. -/
theorem BarsFrom.fresh_iff {passed measure : Rat} (hmeasure : 0 < measure) (hpassed : 0 ≤ passed)
    {row : List Entry} (h : BarsFrom passed measure row) :
    BarsFrom 0 measure row ↔ (∃ k : Nat, passed = k * measure) ∨
      ∀ first, first <+: row.map Entry.note → first ≠ [] →
        ¬ Measures measure (beatsOf first) ∧ ¬ Measures measure (passed + beatsOf first) := by
  constructor
  · intro hfresh
    by_cases hk : ∃ k : Nat, passed = k * measure
    · exact .inl hk
    · right
      intro first hfirst hne
      obtain ⟨part, hpart, rfl⟩ := List.prefix_map_iff.mp hfirst
      rcases List.eq_nil_or_concat' part with rfl | ⟨before, entry, rfl⟩
      · exact absurd rfl hne
      · have hbar := h before entry hpart
        have hbar' := hfresh before entry hpart
        rw [zero_add] at hbar'
        have hnone : entry.bar ≠ true := by
          intro hx
          exact hk (Measures.sub hmeasure hpassed (hbar'.mp hx) (hbar.mp hx))
        exact ⟨fun hm => hnone (hbar'.mpr hm), fun hm => hnone (hbar.mpr hm)⟩
  · intro hcase before entry hpart
    have hne : (before ++ [entry]).map Entry.note ≠ [] := by simp
    rw [h before entry hpart, zero_add]
    rcases hcase with ⟨k, rfl⟩ | hnone
    · exact Measures.add_iff hmeasure (beatsOf_pos hne) k
    · obtain ⟨hm, hm'⟩ := hnone _ (hpart.map _) hne
      exact iff_of_false hm' hm

/-- A body goes on with a note or with the closing bar, never with a bar and a blank. -/
theorem body_ne_bar {row : List Entry} (h : ∀ entry ∈ row, entry.note.Playable)
    (rest : List Char) : row.flatMap Entry.text ++ ['|', '\n'] ≠ '|' :: ' ' :: rest := by
  cases row with
  | nil => simp
  | cons entry row =>
    obtain ⟨hne, _, hbar⟩ := token_note (h entry (List.mem_cons_self ..))
    obtain ⟨c, token, htoken⟩ := List.exists_cons_of_ne_nil hne
    rw [htoken, List.mem_cons, not_or] at hbar
    rw [List.flatMap_cons, Entry.text, htoken]
    intro heq
    exact hbar.1 (List.cons.inj heq).1.symm

theorem row_inj {row row' : List Entry} (hnotes : row.map Entry.note = row'.map Entry.note)
    (h : ∀ entry ∈ row, entry.note.Playable) (h' : ∀ entry ∈ row', entry.note.Playable)
    (heq : row.flatMap Entry.text ++ ['|', '\n'] = row'.flatMap Entry.text ++ ['|', '\n']) :
    row = row' := by
  induction row generalizing row' with
  | nil => exact (List.map_eq_nil_iff.mp hnotes.symm).symm
  | cons entry row ih =>
    cases row' with
    | nil => cases hnotes
    | cons entry' row' =>
      obtain ⟨note, bar⟩ := entry
      obtain ⟨note', bar'⟩ := entry'
      obtain ⟨hnote, hmore⟩ := List.cons.inj hnotes
      have hrow := fun e he => h e (List.mem_cons_of_mem _ he)
      have hrow' := fun e he => h' e (List.mem_cons_of_mem _ he)
      cases (hnote : note = note')
      simp only [List.flatMap_cons, Entry.text, List.append_assoc, List.append_cancel_left_eq,
        List.cons_append, List.cons.injEq, true_and] at heq
      cases bar <;> cases bar'
      · rw [ih hmore hrow hrow' heq]
      · exact absurd heq (body_ne_bar hrow _)
      · exact absurd heq.symm (body_ne_bar hrow' _)
      · rw [ih hmore hrow hrow' (List.append_cancel_left heq)]

end Abc

theorem Tally.closes_play_iff {tally : Tally} (h : tally.Sound) {length : Int}
    (hlength : tally.measure = some length) (duration : Duration) :
    (tally.play duration).closes = true ↔
      Measures (length / 4) ((tally.written - tally.origin) / 4 + duration.beats) := by
  have hcloses : (tally.play duration).closes = true ↔
      length ∣ tally.written + duration.sixteenths - tally.origin := by
    rw [Int.dvd_iff_emod_eq_zero]
    simp only [closes, play, hlength]
    exact decide_eq_true_iff
  have hbeats : (tally.written - tally.origin : Rat) / 4 + duration.beats =
      ((tally.written + duration.sixteenths - tally.origin : Int) : Rat) / 4 := by
    rw [Duration.beats_quarters]
    push_cast
    ring
  have hpassed : 0 < tally.written + duration.sixteenths - tally.origin := by
    have hle := h.origin_le
    have hpos := sixteenths_pos duration
    omega
  rw [hcloses, hbeats]
  constructor
  · rintro ⟨k, hk⟩
    rw [hk] at hpassed ⊢
    have hkpos : 0 < k := (mul_pos_iff_of_pos_left (h.measure_pos length hlength)).mp hpassed
    lift k to Nat using hkpos.le
    refine ⟨k, by omega, ?_⟩
    push_cast
    ring
  · rintro ⟨k, _, hk⟩
    refine ⟨k, ?_⟩
    have hrat : ((tally.written + duration.sixteenths - tally.origin : Int) : Rat) =
        length * k := by linarith
    exact_mod_cast hrat

theorem Tally.barsFrom_entries {tally : Tally} (h : tally.Sound) {length : Int}
    (hlength : tally.measure = some length) (notes : List Note) :
    Abc.BarsFrom ((tally.written - tally.origin) / 4) (length / 4)
      (Abc.entries (Abc.Bars.byMeter.grid tally.clock) tally.clock notes) := by
  rw [Abc.BarsFrom]
  induction notes generalizing tally with
  | nil => exact .nil _ _
  | cons n rest ih =>
    have hgrid : Abc.Bars.byMeter.grid (tally.play n.duration).clock =
        Abc.Bars.byMeter.grid tally.clock := rfl
    have hrest := ih (h.play n.duration) hlength
    rw [hgrid, clock_play] at hrest
    rw [Abc.entries]
    apply Abc.BarsWhere.cons
    · rw [← clock_play, closesAt_clock h, closes_play_iff h hlength]
    · have hstart : ((tally.play n.duration).written - (tally.play n.duration).origin : Rat) / 4 =
          (tally.written - tally.origin) / 4 + n.duration.beats := by
        rw [Duration.beats_quarters]
        simp only [play]
        push_cast
        ring
      rwa [hstart] at hrest

/-! ## The meter in force -/

namespace Tally

theorem measure_setMeter (tally : Tally) (length : Int) :
    (tally.setMeter length).measure = some length := by
  obtain ⟨written, origin, measure⟩ := tally
  cases measure <;> rfl

theorem measure_playAll (tally : Tally) (notes : List Note) :
    (tally.playAll notes).measure = tally.measure := by
  induction notes generalizing tally with
  | nil => rfl
  | cons n rest ih => exact ih (tally.play n.duration)

theorem header_of_meter {program : Program} {numerator denominator : Int}
    (h : program.meter? = some (numerator, denominator)) (tally : Tally) :
    tally.header program = tally.setMeter (16 * numerator / denominator) := by
  rw [header, h]

end Tally

def accepted [FrontMatter.Reader] (sources : List String) : List Program :=
  sources.filterMap fun source => (accept source).toOption

theorem accepted_concat [FrontMatter.Reader] (sources : List String) (source : String) :
    accepted (sources ++ [source]) = accepted sources ++ (accept source).toOption.toList := by
  rw [accepted, List.filterMap_append]
  cases h : accept source <;> simp [accepted, h, Except.toOption]

theorem valid_of_mem_accepted [FrontMatter.Reader] {sources : List String} {program : Program}
    (h : program ∈ accepted sources) : program.Valid := by
  obtain ⟨source, _, hsome⟩ := List.mem_filterMap.mp h
  have haccept : accept source = .ok program := by
    cases hp : accept source with
    | error error =>
      rw [hp] at hsome
      cases hsome
    | ok found =>
      rw [hp] at hsome
      cases hsome
      rfl
  exact Program.valid_of_check (accept_eq_ok.mp haccept).2

namespace Ledger

theorem score_new : new.score = (Score.new : Score Rat) := by
  rw [score, new, Tally.clock_start]
  rfl

theorem foldl_append_sound [FrontMatter.Reader] {ledger : Ledger} (h : ledger.tally.Sound)
    (sources : List String) : (sources.foldl append ledger).tally.Sound := by
  induction sources generalizing ledger with
  | nil => exact h
  | cons source rest ih => exact ih (append_sound h source)

/-- A refused fragment leaves the meter, an accepted one puts its own into force. -/
theorem measure_foldl_append [FrontMatter.Reader] {sources : List String} {previous : Program}
    (hlast : (accepted sources).getLast? = some previous) {numerator denominator : Int}
    (hmeter : previous.meter? = some (numerator, denominator)) (ledger : Ledger) :
    (sources.foldl append ledger).tally.measure = some (16 * numerator / denominator) := by
  induction sources using List.reverseRecOn with
  | nil => cases hlast
  | append_singleton rest source ih =>
    rw [accepted_concat] at hlast
    rw [List.foldl_concat, append]
    cases hp : accept source with
    | error error =>
      rw [hp] at hlast
      refine ih ?_
      simpa [Except.toOption] using hlast
    | ok program =>
      rw [hp] at hlast
      cases List.getLast?_concat.symm.trans hlast
      dsimp only
      rw [Tally.measure_playAll, Tally.header_of_meter hmeter, Tally.measure_setMeter]

end Ledger

/-! ## A fragment in another meter -/

/-- The text that comes with the source is the program with the bars of the row. -/
structure Score.Adds [FrontMatter.Reader] (score : Score Rat) (source : String) (program : Program)
    (row : List Abc.Entry) : Prop where
  notes : row.map Abc.Entry.note = program.notes
  text : (score.append source).2.text.toList = score.text.toList ++
    Abc.ended (Abc.sheetLines program.title program.declarations row)

theorem Program.Valid.meter_inRange {program : Program} (h : program.Valid)
    {numerator denominator : Int} (hmeter : program.meter? = some (numerator, denominator)) :
    (Declaration.timeSignature numerator denominator).InRange := by
  obtain ⟨n, d, hone, hrange⟩ := h.meter
  rw [Program.meter?_of_filterMap hone] at hmeter
  cases hmeter
  exact hrange

theorem measure_quarters {numerator denominator : Int} (h : denominator ∈ [2, 4, 8, 16]) :
    ((16 * numerator / denominator : Int) : Rat) / 4 = 4 * numerator / denominator := by
  rw [← measureBeats_quarters h, measureBeats, Beat.ofRatio_eq]
  push_cast
  ring

/-- The row of entries that is written is the only one that can be read from the text. -/
theorem Score.Adds.unique [FrontMatter.Reader] {score : Score Rat} {source : String}
    {program : Program} (h : program.Valid) {row row' : List Abc.Entry}
    (hrow : score.Adds source program row) (hrow' : score.Adds source program row') :
    row = row' := by
  have htext := hrow.text.symm.trans hrow'.text
  rw [Abc.ended_sheetLines, Abc.ended_sheetLines] at htext
  exact Abc.row_inj (hrow.notes.trans hrow'.notes.symm) (h.playable_of_mem_row hrow.notes)
    (h.playable_of_mem_row hrow'.notes) (List.append_cancel_left (List.append_cancel_left htext))

/-- The notes of a program with the bars that they have in the ledger. -/
def Ledger.row (ledger : Ledger) (program : Program) : List Abc.Entry :=
  let clock := (ledger.tally.header program).clock
  Abc.entries (Abc.Bars.byMeter.grid clock) clock program.notes

theorem Ledger.adds [FrontMatter.Reader] (ledger : Ledger) {source : String} {program : Program}
    (hprogram : accept source = .ok program) (hbars : BarsByMeter source) :
    ledger.score.Adds source program (ledger.row program) := by
  obtain ⟨hparse, hcheck⟩ := accept_eq_ok.mp hprogram
  have hoptions : (Abc.Options.ofMetadata program.metadata : Abc.Options Rat) =
      ⟨program.title, .byMeter⟩ := by
    rw [Abc.Options.ofMetadata, hbars program hparse]
    rfl
  refine ⟨Abc.map_note_entries _ _ _, ?_⟩
  rw [Score.append_of_ok hprogram, String.toList_append, Score.addition, Abc.toList_emit, hoptions,
    row, Tally.clock_header _ (Program.valid_of_check hcheck)]
  rfl

/-- The beats of an open measure, counted from the origin of the grid. -/
def Clock.passed (clock : Clock Rat) : Rat :=
  clock.beats - clock.origin

/-- A measure of another length starts a new grid, one of the same length goes on with the old. -/
theorem Ledger.barsFrom {ledger : Ledger} (h : ledger.tally.Sound) {program : Program}
    (hvalid : program.Valid) {n' d' n d : Int} (hd' : d' ∈ [2, 4, 8, 16])
    (hmeasure : ledger.tally.measure = some (16 * n' / d'))
    (hmeter : program.meter? = some (n, d)) :
    Abc.BarsFrom (if (4 * n' / d' : Rat) = 4 * n / d then ledger.score.clock.passed else 0)
      (4 * n / d) (ledger.row program) := by
  have hd := (hvalid.meter_inRange hmeter).2
  have hlength : (ledger.tally.header program).measure = some (16 * n / d) := by
    rw [Tally.header_of_meter hmeter, Tally.measure_setMeter]
  have hbars := Tally.barsFrom_entries (h.header hvalid) hlength program.notes
  have hsame : (4 * n' / d' : Rat) = 4 * n / d ↔ 16 * n' / d' = 16 * n / d := by
    rw [← measure_quarters hd, ← measure_quarters hd', div_left_inj' (by norm_num), Int.cast_inj]
  have hstart : ((ledger.tally.header program).written -
      (ledger.tally.header program).origin : Rat) / 4 =
        if (4 * n' / d' : Rat) = 4 * n / d then ledger.score.clock.passed else 0 := by
    simp only [hsame, Tally.header_of_meter hmeter, Tally.setMeter, hmeasure, Clock.passed,
      Ledger.score, Tally.clock]
    by_cases hlengths : 16 * n' / d' = 16 * n / d
    · simp [hlengths, sub_div]
    · simp [hlengths]
  rwa [hstart, measure_quarters hd] at hbars

theorem barsByMeter_of_accept [FrontMatter.Reader] {source : String} {program : Program}
    (h : accept source = .ok program) (hbars : program.metadata.barBeats = none) :
    BarsByMeter source := by
  intro other hother
  rw [(accept_eq_ok.mp h).1] at hother
  cases hother
  exact hbars

theorem Ledger.passed_nonneg {ledger : Ledger} (h : ledger.tally.Sound) :
    0 ≤ ledger.score.clock.passed := by
  have hle : (ledger.tally.origin : Rat) ≤ ledger.tally.written := Int.cast_le.mpr h.origin_le
  show (0 : Rat) ≤ ledger.tally.written / 4 - ledger.tally.origin / 4
  linarith

theorem measure_pos {numerator denominator : Int}
    (h : (Declaration.timeSignature numerator denominator).InRange) :
    (0 : Rat) < 4 * numerator / denominator := by
  obtain ⟨⟨hn, _⟩, hd⟩ := h
  rw [← measure_quarters hd]
  have hpos : (0 : Rat) < (16 * numerator / denominator : Int) :=
    Int.cast_pos.mpr (measureLength_pos hn hd)
  linarith

/-- The bars of a fragment count from its own start if its measure has another length than the one
before it, and otherwise from the origin of the old grid, whatever the numbers of the two time
signatures. So the fragment opens a fresh measure exactly if the lengths differ, or a measure
begins with it, or none is closed in it by either count. -/
theorem append_freshMeasure [FrontMatter.Reader] (sources : List String) (source : String)
    (hbars : ∀ s ∈ sources ++ [source], BarsByMeter s) {previous program : Program}
    (hprevious : (accepted sources).getLast? = some previous)
    (hprogram : accept source = .ok program) {n' d' n d : Int}
    (hmeter' : previous.meter? = some (n', d')) (hmeter : program.meter? = some (n, d))
    {score : Score Rat} (hscore : score = Score.new.appendAll sources) :
    (∃ row, score.Adds source program row ∧
      Abc.BarsFrom (if (4 * n' / d' : Rat) = 4 * n / d then score.clock.passed else 0)
        (4 * n / d) row) ∧
    ((∃ row, score.Adds source program row ∧ Abc.BarsFrom 0 (4 * n / d) row) ↔
      (4 * n' / d' : Rat) ≠ 4 * n / d ∨ (∃ k : Nat, score.clock.passed = k * (4 * n / d)) ∨
      ∀ first, first <+: program.notes → first ≠ [] →
        ¬ Measures (4 * n / d) (Abc.beatsOf first) ∧
          ¬ Measures (4 * n / d) (score.clock.passed + Abc.beatsOf first)) := by
  have hsources := fun s hs => hbars s (List.mem_append_left _ hs)
  have hvalid := Program.valid_of_check (accept_eq_ok.mp hprogram).2
  have hprevious_valid := valid_of_mem_accepted (List.mem_of_getLast? hprevious)
  have hd' := (hprevious_valid.meter_inRange hmeter').2
  rw [← Ledger.score_new, Ledger.score_appendAll Tally.start_sound hsources] at hscore
  subst hscore
  have hsound := @Ledger.foldl_append_sound _ Ledger.new Tally.start_sound sources
  have hmeasure := Ledger.measure_foldl_append hprevious hmeter' Ledger.new
  have hadds := (sources.foldl Ledger.append Ledger.new).adds hprogram (hbars source (by simp))
  have hfrom := Ledger.barsFrom hsound hvalid hd' hmeasure hmeter
  -- The text gives the bars, so the fragment is written fresh if its one row of entries is.
  have hrow : (∃ row, (sources.foldl Ledger.append Ledger.new).score.Adds source program row ∧
      Abc.BarsFrom 0 (4 * n / d) row) ↔
      Abc.BarsFrom 0 (4 * n / d) ((sources.foldl Ledger.append Ledger.new).row program) :=
    ⟨fun ⟨_, hrow, hfresh⟩ => hrow.unique hvalid hadds ▸ hfresh, fun hfresh => ⟨_, hadds, hfresh⟩⟩
  refine ⟨⟨_, hadds, hfrom⟩, ?_⟩
  rw [hrow]
  by_cases hlengths : (4 * n' / d' : Rat) = 4 * n / d
  · rw [if_pos hlengths] at hfrom
    rw [hfrom.fresh_iff (measure_pos (hvalid.meter_inRange hmeter)) (Ledger.passed_nonneg hsound),
      hadds.notes]
    exact ⟨.inr, fun h => h.resolve_left (not_not_intro hlengths)⟩
  · rw [if_neg hlengths] at hfrom
    exact iff_of_true hfrom (.inl hlengths)

def twoFour : String := "Tempo 60\nCompas 2/4\nTonalidad Do M\nDo4 Negra"

def threeFour : String := "Tempo 60\nCompas 3/4\nTonalidad Do M\nRe4 Blanca\nMi4 Negra"

theorem append_freshMeasure_threeFour : ∃ previous program : Program,
    (∀ s ∈ [twoFour] ++ [threeFour], BarsByMeter s) ∧
    (accepted [twoFour]).getLast? = some previous ∧ accept threeFour = .ok program ∧
    previous.meter? = some (2, 4) ∧ program.meter? = some (3, 4) ∧
    ∃ row, (Score.new.appendAll [twoFour]).Adds threeFour program row ∧
      Abc.BarsFrom 0 (4 * (3 : Int) / (4 : Int)) row := by
  let previous : Program :=
    { declarations := [.tempo 60, .timeSignature 2 4, .key "Do" .major]
      notes := [⟨"Do", 4, .quarter⟩] }
  let program : Program :=
    { declarations := [.tempo 60, .timeSignature 3 4, .key "Do" .major]
      notes := [⟨"Re", 4, .half⟩, ⟨"Mi", 4, .quarter⟩] }
  have htwo : accept twoFour = .ok previous := by decide +kernel
  have hthree : accept threeFour = .ok program := by decide +kernel
  have hbars : ∀ s ∈ [twoFour] ++ [threeFour], BarsByMeter s := by
    simp [barsByMeter_of_accept htwo rfl, barsByMeter_of_accept hthree rfl]
  have hprevious : (accepted [twoFour]).getLast? = some previous := by
    simp [accepted, htwo, Except.toOption]
  have hmeter : previous.meter? = some (2, 4) := rfl
  have hmeter' : program.meter? = some (3, 4) := rfl
  refine ⟨previous, program, hbars, hprevious, hthree, hmeter, hmeter', ?_⟩
  exact (append_freshMeasure [twoFour] threeFour hbars hprevious hthree hmeter hmeter' rfl).2.mpr
    (.inl (by norm_num))

def oneOfThree : String := "Tempo 60\nCompas 3/4\nTonalidad Do M\nDo4 Negra"

/-- A measure in 6/8, which is as long as one in 3/4. -/
def sixEight : String := "Tempo 60\nCompas 6/8\nTonalidad Do M\nRe4 Blanca\nMi4 Negra"

/-- The bar stands two beats into the new meter, where the old measure ends. -/
theorem append_sixEight : ∃ previous program : Program,
    (∀ s ∈ [oneOfThree] ++ [sixEight], BarsByMeter s) ∧
    (accepted [oneOfThree]).getLast? = some previous ∧ accept sixEight = .ok program ∧
    previous.meter? = some (3, 4) ∧ program.meter? = some (6, 8) ∧
    ¬ ∃ row, (Score.new.appendAll [oneOfThree]).Adds sixEight program row ∧
      Abc.BarsFrom 0 (4 * (6 : Int) / (8 : Int)) row := by
  let previous : Program :=
    { declarations := [.tempo 60, .timeSignature 3 4, .key "Do" .major]
      notes := [⟨"Do", 4, .quarter⟩] }
  let program : Program :=
    { declarations := [.tempo 60, .timeSignature 6 8, .key "Do" .major]
      notes := [⟨"Re", 4, .half⟩, ⟨"Mi", 4, .quarter⟩] }
  have hthree : accept oneOfThree = .ok previous := by decide +kernel
  have hsix : accept sixEight = .ok program := by decide +kernel
  have hbars : ∀ s ∈ [oneOfThree] ++ [sixEight], BarsByMeter s := by
    simp [barsByMeter_of_accept hthree rfl, barsByMeter_of_accept hsix rfl]
  have hprevious : (accepted [oneOfThree]).getLast? = some previous := by
    simp [accepted, hthree, Except.toOption]
  refine ⟨previous, program, hbars, hprevious, hsix, rfl, rfl, ?_⟩
  rintro ⟨row, hrow, hfresh⟩
  have hscore : Score.new.appendAll [oneOfThree] = (Ledger.new.append oneOfThree).score := by
    rw [← Ledger.score_new]
    exact Ledger.score_appendAll Tally.start_sound fun s hs => hbars s (by simp_all)
  rw [hscore] at hrow
  have hadds := (Ledger.new.append oneOfThree).adds hsix (barsByMeter_of_accept hsix rfl)
  have hvalid := Program.valid_of_check (accept_eq_ok.mp hsix).2
  have hfirst : [] ++ [⟨⟨"Re", 4, .half⟩, true⟩] <+: row := by
    rw [hrow.unique hvalid hadds, Ledger.append, hthree]
    decide +kernel
  have hle := ((hfresh _ _ hfirst).mp rfl).le (by norm_num)
  norm_num [Abc.beatsOf, Duration.beats_quarters, Duration.sixteenths] at hle

end Solfege
