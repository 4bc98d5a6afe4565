import Solfege.Proofs.Sixteenths

/-!
# Solfege.Proofs.Refusal

What is left behind by a receiver that has room for so many characters and refuses the rest.

The text is cut at the last character that fits (`writeWithin_text`). The clock stands where the
last segment that fitted put it: `clock_headerSegments` and `clock_bodySegments` say which
declarations and which notes these are, in terms of how far their texts reach.

`emit_within` puts the two together, for any cut of any program.
-/

namespace Solfege

/-! ## Items within a text -/

section Within

variable {α : Type}

/-- The items that lie within the text, where `reach i a` is the text up to the end of `a`, the
item in place `i`. -/
def within (reach : Nat → α → String) (items : List α) (text : String) : List α :=
  (items.zipIdx.filter fun x => decide ((reach x.2 x.1).toList <+: text.toList)).map Prod.fst

/-- The items for which there is room, where `size i a` counts the characters up to their end. -/
def fitting (size : Nat → α → Nat) (items : List α) (room : Nat) : List α :=
  (items.zipIdx.filter fun x => decide (size x.2 x.1 ≤ room)).map Prod.fst

/-- In a text that was cut, an item lies within it if there was room for it. -/
theorem within_take {reach : Nat → α → String} {items : List α} {full : List Char}
    (hreach : ∀ i a, items[i]? = some a → (reach i a).toList <+: full) (room : Nat) :
    within reach items (String.ofList (full.take room)) =
      fitting (fun i a => (reach i a).length) items room := by
  rw [within, fitting]
  congr 1
  apply List.filter_congr
  rintro ⟨a, i⟩ hmem
  have hfull := hreach i a (List.mem_zipIdx_iff_getElem?.mp hmem)
  rw [decide_eq_decide, String.toList_ofList, List.prefix_take_iff, String.length_toList]
  exact ⟨And.right, fun hroom => ⟨hfull, hroom⟩⟩

theorem within_all {reach : Nat → α → String} {items : List α} {text : String}
    (hreach : ∀ i a, items[i]? = some a → (reach i a).toList <+: text.toList) :
    within reach items text = items := by
  rw [within, List.filter_eq_self.mpr, List.zipIdx_map_fst]
  rintro ⟨a, i⟩ hmem
  exact decide_eq_true (hreach i a (List.mem_zipIdx_iff_getElem?.mp hmem))

theorem fitting_cons (size : Nat → α → Nat) (a : α) (rest : List α) (room : Nat) :
    fitting size (a :: rest) room =
      (if size 0 a ≤ room then [a] else []) ++ fitting (fun i => size (i + 1)) rest room := by
  rw [fitting, fitting, List.zipIdx_cons, List.zipIdx_succ, List.filter_cons]
  rw [List.filter_map]
  split <;> simp_all [Function.comp_def]

theorem fitting_add {k room : Nat} (hk : k ≤ room) (size : Nat → α → Nat) (items : List α) :
    fitting (fun i a => k + size i a) items room = fitting size items (room - k) := by
  rw [fitting, fitting]
  congr 1
  apply List.filter_congr
  intro x _
  rw [decide_eq_decide]
  omega

theorem fitting_add_of_lt {k room : Nat} (hk : room < k) (size : Nat → α → Nat)
    (items : List α) : fitting (fun i a => k + size i a) items room = [] := by
  rw [fitting, List.map_eq_nil_iff, List.filter_eq_nil_iff]
  intro x _
  simp only [decide_eq_true_eq]
  omega

theorem fitting_all {size : Nat → α → Nat} {items : List α} {room : Nat}
    (h : ∀ i a, size i a ≤ room) : fitting size items room = items := by
  rw [fitting, List.filter_eq_self.mpr, List.zipIdx_map_fst]
  intro x _
  exact decide_eq_true (h x.2 x.1)

end Within

namespace Abc

variable {β : Type}

/-! ## Rows of segments -/

theorem writeWithin_text (room : Nat) (clock : Clock β) (row : List (Segment β)) :
    (writeWithin room clock row).text = String.ofList ((textOf row).toList.take room) := by
  induction row generalizing room clock with
  | nil => simp [writeWithin, textOf]
  | cons segment rest ih =>
    rw [writeWithin]
    split
    · rename_i hfits
      have htake : segment.text.toList.take room = segment.text.toList :=
        List.take_of_length_le (by rwa [String.length_toList])
      apply String.toList_injective
      simp only [ih, String.toList_append, String.toList_ofList, textOf_cons, List.take_append,
        String.length_toList, htake]
    · rename_i hfull
      apply String.toList_injective
      have hzero : room - segment.text.length = 0 := by omega
      simp only [String.toList_ofList, textOf_cons, String.toList_append, List.take_append,
        String.length_toList, hzero, List.take_zero, List.append_nil]

theorem writeWithin_complete (room : Nat) (clock : Clock β) (row : List (Segment β)) :
    (writeWithin room clock row).complete = true ↔ (textOf row).length ≤ room := by
  induction row generalizing room clock with
  | nil => simp [writeWithin, textOf]
  | cons segment rest ih =>
    rw [writeWithin, textOf_cons, String.length_append]
    split
    · rename_i hfits
      show (writeWithin _ _ rest).complete = true ↔ _
      rw [ih]
      omega
    · rename_i hfull
      simp only [Bool.false_eq_true, false_iff]
      omega

/-- Only the clocks matter to what follows a row that fits. -/
theorem writeWithin_append_of_le {room : Nat} {first : List (Segment β)}
    (h : (textOf first).length ≤ room) (clock : Clock β) (second : List (Segment β)) :
    (writeWithin room clock (first ++ second)).clock =
      (writeWithin (room - (textOf first).length) (writeAll clock first).clock second).clock := by
  induction first generalizing room clock with
  | nil => rfl
  | cons segment rest ih =>
    rw [textOf_cons, String.length_append] at h
    have hlast : (writeAll clock (segment :: rest)).clock =
        (writeAll segment.clock rest).clock := by
      simp only [writeAll, List.getLast?_cons, Option.map_some, Option.getD_some]
      cases rest.getLast? <;> rfl
    rw [List.cons_append, writeWithin, if_pos (by omega)]
    show (writeWithin _ segment.clock (rest ++ second)).clock = _
    rw [ih (by omega), hlast, textOf_cons, String.length_append, Nat.sub_sub]

theorem writeWithin_append_of_lt {room : Nat} {first : List (Segment β)}
    (h : room < (textOf first).length) (clock : Clock β) (second : List (Segment β)) :
    (writeWithin room clock (first ++ second)).clock = (writeWithin room clock first).clock := by
  induction first generalizing room clock with
  | nil => simp [textOf] at h
  | cons segment rest ih =>
    rw [textOf_cons, String.length_append] at h
    rw [List.cons_append, writeWithin, writeWithin]
    split
    · exact ih (by omega) segment.clock
    · rfl

/-! ## Header and body -/

def leadSegments (title : String) (clock : Clock β) : List (Segment β) :=
  [⟨"X:1\n", clock, []⟩, ⟨"T:" ++ title ++ "\n", clock, []⟩]

theorem clock_leadSegments (room : Nat) (title : String) (clock : Clock β) :
    (writeWithin room clock (leadSegments title clock)).clock = clock := by
  rw [leadSegments, writeWithin, writeWithin, writeWithin]
  split
  · split <;> rfl
  · rfl

theorem length_headerText (title : String) (clock : Clock β) (ds : List Declaration) :
    (headerText title ds).length =
      (textOf (leadSegments title clock)).length +
        (String.join (ds.map declarationText)).length := by
  rw [headerText, String.length_append, leadSegments, textOf_cons, textOf_cons]
  simp [textOf]

variable [Beat β]

theorem writeAll_headerSegments (bars : Bars β) (clock : Clock β) (ds : List Declaration) :
    (writeAll clock (headerSegments bars clock ds)).clock = headerClock bars clock ds := by
  induction ds generalizing clock with
  | nil => rfl
  | cons d rest ih =>
    rw [headerClock, ← ih]
    simp only [writeAll, headerSegments, List.getLast?_cons, Option.map_some, Option.getD_some]
    cases (headerSegments bars (declarationSegment bars clock d).clock rest).getLast? <;> rfl

def declarationSize (ds : List Declaration) (i : Nat) (_ : Declaration) : Nat :=
  (String.join ((ds.take (i + 1)).map declarationText)).length

theorem clock_headerSegments (room : Nat) (bars : Bars β) (clock : Clock β)
    (ds : List Declaration) :
    (writeWithin room clock (headerSegments bars clock ds)).clock =
      headerClock bars clock (fitting (declarationSize ds) ds room) := by
  induction ds generalizing room clock with
  | nil => rfl
  | cons d rest ih =>
    have hsize : (fun i => declarationSize (d :: rest) (i + 1)) =
        fun i e => (declarationText d).length + declarationSize rest i e := by
      funext i e
      simp [declarationSize]
    have hzero : declarationSize (d :: rest) 0 d = (declarationText d).length := by
      simp [declarationSize]
    rw [fitting_cons, hsize, hzero, headerSegments, writeWithin, declarationSegment_text]
    by_cases hfits : (declarationText d).length ≤ room
    · rw [if_pos hfits, if_pos hfits, fitting_add hfits]
      exact ih _ _
    · rw [if_neg hfits, if_neg hfits, fitting_add_of_lt (by omega)]
      rfl

/-- The characters of the notes before place `i`, bars included, and of the note that stands
there, with its blank. -/
def noteSize (grid : Option (Grid β)) (clock : Clock β) (notes : List Note) (i : Nat) (n : Note) :
    Nat :=
  (textOf (bodySegments grid clock (notes.take i))).length + (note n ++ " ").length

def noteText (grid : Option (Grid β)) (clock : Clock β) (n : Note) : String :=
  note n ++ " " ++ if barAt grid (clock.advance n.duration).beats then "| " else ""

/-- A note counts if it fitted with its blank, whatever becomes of the bar after it. -/
theorem clock_noteSegments (room : Nat) (grid : Option (Grid β)) (clock : Clock β) (n : Note)
    (more : List (Segment β)) :
    (writeWithin room clock (noteSegments grid clock n ++ more)).clock =
      if (noteText grid clock n).length ≤ room then
        (writeWithin (room - (noteText grid clock n).length) (clock.advance n.duration) more).clock
      else if (note n ++ " ").length ≤ room then clock.advance n.duration
      else clock := by
  have hbar : "| ".length = 2 := rfl
  rw [noteSegments, noteText, String.length_append]
  cases barAt grid (clock.advance n.duration).beats with
  | false =>
    simp only [Bool.false_eq_true, if_false, String.length_empty, Nat.add_zero]
    rw [List.singleton_append, writeWithin]
    by_cases hnote : (note n ++ " ").length ≤ room
    · rw [if_pos hnote, if_pos hnote]
    · rw [if_neg hnote, if_neg hnote, if_neg hnote]
  | true =>
    simp only [if_true, hbar, List.cons_append, List.nil_append, writeWithin]
    by_cases hnote : (note n ++ " ").length ≤ room
    · by_cases hboth : (note n ++ " ").length + 2 ≤ room
      · rw [if_pos hnote, if_pos hboth, if_pos (by omega), Nat.sub_sub]
      · rw [if_pos hnote, if_neg hboth, if_neg (by omega), if_pos hnote]
    · rw [if_neg hnote, if_neg hnote, if_neg (by omega)]

theorem clock_bodySegments (room : Nat) (grid : Option (Grid β)) (clock : Clock β)
    (notes : List Note) :
    (writeWithin room clock
        (bodySegments grid clock notes ++ [⟨"|\n", bodyClock clock notes, []⟩])).clock =
      bodyClock clock (fitting (noteSize grid clock notes) notes room) := by
  induction notes generalizing room clock with
  | nil =>
    rw [bodySegments, List.nil_append, writeWithin]
    split <;> rfl
  | cons n rest ih =>
    have hsize : (fun i => noteSize grid clock (n :: rest) (i + 1)) = fun i m =>
        (noteText grid clock n).length + noteSize grid (clock.advance n.duration) rest i m := by
      funext i m
      rw [noteSize, List.take_succ_cons, textOf_bodySegments_cons, String.length_append, noteSize,
        noteText, Nat.add_assoc]
    have hzero : noteSize grid clock (n :: rest) 0 n = (note n ++ " ").length := by
      simp [noteSize, bodySegments, textOf]
    have hle : (note n ++ " ").length ≤ (noteText grid clock n).length := by
      rw [noteText, String.length_append (note n ++ " ")]
      exact Nat.le_add_right _ _
    rw [fitting_cons, hsize, hzero, bodySegments, List.append_assoc, clock_noteSegments]
    by_cases hboth : (noteText grid clock n).length ≤ room
    · have hrest := ih (room - (noteText grid clock n).length) (clock.advance n.duration)
      rw [if_pos hboth, if_pos (Nat.le_trans hle hboth), fitting_add hboth, bodyClock_append,
        bodyClock_cons, hrest]
      rfl
    · rw [if_neg hboth, fitting_add_of_lt (by omega)]
      split <;> rfl

/-! ## Whole emissions -/

/-- The text up to the note `n` in place `i`, with the blank after it. -/
def noteReach (options : Options β) (clock : Clock β) (program : Program) (i : Nat) (n : Note) :
    String :=
  headerText options.title program.declarations ++
    bodyText options.bars (headerClock options.bars clock program.declarations)
      (program.notes.take i) ++ (note n ++ " ")

/-- The text up to the declaration in place `i`, with all of its lines. -/
def declarationReach (title : String) (declarations : List Declaration) (i : Nat)
    (_ : Declaration) : String :=
  headerText title (declarations.take (i + 1))

/-- The notes that lie within the text, each with the blank after it. -/
def notesWithin (options : Options β) (clock : Clock β) (program : Program) (text : String) :
    List Note :=
  within (noteReach options clock program) program.notes text

/-- The time signatures of which both lines lie within the text. -/
def metersWithin (title : String) (declarations : List Declaration) (text : String) :
    List (Int × Int) :=
  (within (declarationReach title declarations) declarations text).filterMap Declaration.meter?

theorem headerText_append (title : String) (first second : List Declaration) :
    headerText title (first ++ second) =
      headerText title first ++ String.join (second.map declarationText) := by
  simp [headerText, String.append_assoc]

theorem declarationReach_prefix (options : Options β) (clock : Clock β) (program : Program)
    (i : Nat) (d : Declaration) :
    (declarationReach options.title program.declarations i d).toList <+:
      (emit none options clock program).text.toList := by
  have hsplit := headerText_append options.title (program.declarations.take (i + 1))
    (program.declarations.drop (i + 1))
  rw [List.take_append_drop] at hsplit
  rw [emit_text, hsplit, declarationReach]
  simp only [String.toList_append, List.append_assoc]
  exact List.prefix_append _ _

theorem noteReach_prefix (options : Options β) (clock : Clock β) (program : Program) {i : Nat}
    {n : Note} (h : program.notes[i]? = some n) :
    (noteReach options clock program i n).toList <+:
      (emit none options clock program).text.toList := by
  obtain ⟨hi, rfl⟩ := List.getElem?_eq_some_iff.mp h
  have hsplit : program.notes = program.notes.take i ++ program.notes[i] ::
      program.notes.drop (i + 1) := by
    rw [← List.drop_eq_getElem_cons hi, List.take_append_drop]
  have hbody := bodyText_append options.bars
    (headerClock options.bars clock program.declarations) (program.notes.take i)
    (program.notes[i] :: program.notes.drop (i + 1))
  rw [← hsplit] at hbody
  rw [emit_text]
  show _ <+: (headerText _ _ ++ bodyText options.bars _ program.notes ++ _).toList
  rw [hbody, noteReach, bodyText, bodyText, textOf_bodySegments_cons]
  simp only [String.toList_append, List.append_assoc]
  refine (List.prefix_append_right_inj _).mpr ((List.prefix_append_right_inj _).mpr ?_)
  exact (List.prefix_append_right_inj _).mpr (List.prefix_append _ _)

theorem segments_eq (options : Options β) (clock : Clock β) (program : Program) :
    segments options clock program =
      leadSegments options.title clock ++ (headerSegments options.bars clock program.declarations ++
        (bodySegments
            (options.bars.grid (headerClock options.bars clock program.declarations))
            (headerClock options.bars clock program.declarations) program.notes ++
          [⟨"|\n", bodyClock (headerClock options.bars clock program.declarations) program.notes,
            []⟩])) := by
  simp [segments, leadSegments]

theorem declarationSize_le (ds : List Declaration) (i : Nat) (d : Declaration) :
    declarationSize ds i d ≤ (String.join (ds.map declarationText)).length := by
  conv_rhs => rw [← List.take_append_drop (i + 1) ds]
  rw [declarationSize, List.map_append, String.join_append, String.length_append]
  exact Nat.le_add_right _ _

/-- The clock of a cut emission, in sizes. The cut falls before the declarations, among them, or
after them. -/
theorem clock_writeWithin_segments (room : Nat) (options : Options β) (clock : Clock β)
    (program : Program) :
    (writeWithin room clock (segments options clock program)).clock =
      bodyClock
        (headerClock options.bars clock
          (fitting (fun i d => (declarationReach options.title program.declarations i d).length)
            program.declarations room))
        (fitting (fun i n => (noteReach options clock program i n).length)
          program.notes room) := by
  have hdeclaration : (fun i d => (declarationReach options.title program.declarations i d).length)
      = fun i d => (textOf (leadSegments options.title clock)).length +
          declarationSize program.declarations i d := by
    funext i d
    exact length_headerText options.title clock _
  have hnote : (fun i n => (noteReach options clock program i n).length) = fun i n =>
      (headerText options.title program.declarations).length +
        noteSize (options.bars.grid (headerClock options.bars clock program.declarations))
          (headerClock options.bars clock program.declarations) program.notes i n := by
    funext i n
    rw [noteReach, String.length_append, String.length_append, Nat.add_assoc]
    rfl
  have hheader := length_headerText options.title clock program.declarations
  rw [hdeclaration, hnote, segments_eq]
  by_cases hlead : (textOf (leadSegments options.title clock)).length ≤ room
  · have hlast : (writeAll clock (leadSegments options.title clock)).clock = clock := rfl
    rw [writeWithin_append_of_le hlead, hlast, fitting_add hlead]
    by_cases hdecl : (String.join (program.declarations.map declarationText)).length ≤
        room - (textOf (leadSegments options.title clock)).length
    · have hall : fitting (declarationSize program.declarations) program.declarations
          (room - (textOf (leadSegments options.title clock)).length) = program.declarations :=
        fitting_all fun i d =>
          Nat.le_trans (declarationSize_le program.declarations i d) hdecl
      rw [← textOf_headerSegments options.bars clock] at hdecl hheader
      rw [writeWithin_append_of_le hdecl, writeAll_headerSegments, clock_bodySegments, hall,
        fitting_add (by omega), hheader, Nat.sub_sub]
    · -- A declaration was cut, so no note can have been reached.
      rw [← textOf_headerSegments options.bars clock] at hdecl hheader
      rw [writeWithin_append_of_lt (by omega), clock_headerSegments,
        fitting_add_of_lt (by omega)]
      rfl
  · rw [writeWithin_append_of_lt (by omega), clock_leadSegments, fitting_add_of_lt (by omega),
      fitting_add_of_lt (by omega)]
    rfl

theorem text_emit_some (room : Nat) (options : Options β) (clock : Clock β) (program : Program) :
    (emit (some room) options clock program).text =
      String.ofList ((emit none options clock program).text.toList.take room) :=
  writeWithin_text room clock (segments options clock program)

/-- The declarations and the notes that set the clock of a cut emission are those that can be read
off its text. -/
theorem clock_emit_some (room : Nat) (options : Options β) (clock : Clock β) (program : Program) :
    (emit (some room) options clock program).clock =
      bodyClock
        (headerClock options.bars clock
          (within (declarationReach options.title program.declarations) program.declarations
            (emit (some room) options clock program).text))
        (notesWithin options clock program (emit (some room) options clock program).text) := by
  rw [text_emit_some, notesWithin,
    within_take fun i d _ => declarationReach_prefix options clock program i d,
    within_take fun i n h => noteReach_prefix options clock program h]
  exact clock_writeWithin_segments room options clock program

/-- Whoever takes the text, the beats move on by the notes that lie within what was taken. -/
theorem beats_emit (sink : Option Nat) (options : Options β) (clock : Clock β)
    (program : Program) :
    (emit sink options clock program).clock.beats =
      (notesWithin options clock program (emit sink options clock program).text).foldl
        (fun beats n => beats + n.duration.beats) clock.beats := by
  cases sink with
  | none =>
    rw [notesWithin, within_all fun i n h => noteReach_prefix options clock program h, emit_clock,
      bodyClock_beats, headerClock_beats]
  | some room =>
    rw [clock_emit_some, bodyClock_beats, headerClock_beats]

/-- The clock after time signatures. Bars at a fixed distance take no notice of them. -/
def metered (bars : Bars β) (clock : Clock β) (meters : List (Int × Int)) : Clock β :=
  match bars with
  | .byMeter =>
    meters.foldl (fun clock meter => clock.setMeter (measureBeats meter.1 meter.2)) clock
  | .every _ => clock

theorem headerClock_eq_metered (bars : Bars β) (clock : Clock β) (ds : List Declaration) :
    headerClock bars clock ds = metered bars clock (ds.filterMap Declaration.meter?) := by
  cases bars with
  | byMeter => exact headerClock_byMeter clock ds
  | every length => exact headerClock_every length clock ds

/-- A receiver with room for `room` characters takes just these, and all is well exactly if that
is the whole text. The beats have moved on by the notes that lie, with their blanks, within the
text taken, and the grid is that of the time signatures whose lines do. A bare count is left at the
beats of the clock that starts from it, whether the text is taken in full or refused, so it too has
moved on by the notes within the text taken. -/
theorem emit_within (options : Options β) (clock : Clock β) (program : Program) (room : Nat) :
    let full := (emit none options clock program).text
    let part := emit (some room) options clock program
    let header := metered options.bars clock
      (metersWithin options.title program.declarations part.text)
    part.text = String.ofList (full.toList.take (min room full.length)) ∧
    (part.complete = true ↔ full.length ≤ room) ∧
    part.clock.beats = (notesWithin options clock program part.text).foldl
      (fun beats n => beats + n.duration.beats) clock.beats ∧
    part.clock.origin = header.origin ∧ part.clock.measure = header.measure ∧
    ∀ (sink : Option Nat) (count : β),
      let counted := emitCounting sink options count program
      counted.2 = (emit sink options (.ofBeats count) program).clock.beats ∧
      counted.2 = (notesWithin options (.ofBeats count) program counted.1.text).foldl
        (fun beats n => beats + n.duration.beats) count := by
  intro full part header
  have hclock : part.clock = bodyClock header (notesWithin options clock program part.text) := by
    rw [clock_emit_some, headerClock_eq_metered]
    rfl
  refine ⟨?_, writeWithin_complete room clock (segments options clock program),
    beats_emit (some room) options clock program, ?_, ?_,
    fun sink count => ⟨rfl, beats_emit sink options (.ofBeats count) program⟩⟩
  · rw [← String.length_toList, ← List.take_eq_take_min]
    exact text_emit_some room options clock program
  · rw [hclock, bodyClock_origin]
  · rw [hclock, bodyClock_measure]

end Abc
end Solfege
