import Mathlib.Algebra.BigOperators.Group.List.Basic
import Solfege.Proofs.Decodable
import Solfege.Yaml.Fields

/-!
# Solfege.Proofs.SheetLayout

The text of a program, line by line.

Whatever the program, its text is the lines of `Abc.sheetLines` with a break after each
(`toList_toAbc`). In a valid program the lines hold no break of their own, all but one: the title
is copied as it stands. So the text has the seven lines of the layout exactly if the title has no
break in it (`toAbc_layout`); otherwise each break in the title makes a further line, and what
follows it is a line of the header that nobody declared.

* `Abc.Entry`      — a note of the body, with the bar after it or without.
* `Abc.sheetLines` — the lines.
* `Program.Layout` — what the lines of a program should be.
-/

namespace Solfege
namespace Abc

/-! ## The body -/

structure Entry where
  note : Note
  bar : Bool
  deriving DecidableEq

/-- A note, a blank, and a bar with a blank after it. -/
def Entry.text (entry : Entry) : List Char :=
  (Abc.note entry.note).toList ++ ' ' :: if entry.bar then ['|', ' '] else []

section Body

variable {β : Type} [Beat β]

/-- The notes with the bars that the grid gives them. -/
def entries (grid : Option (Grid β)) : Clock β → List Note → List Entry
  | _, [] => []
  | clock, n :: rest =>
    ⟨n, barAt grid (clock.advance n.duration).beats⟩ :: entries grid (clock.advance n.duration) rest

theorem map_note_entries (grid : Option (Grid β)) (clock : Clock β) (notes : List Note) :
    (entries grid clock notes).map Entry.note = notes := by
  induction notes generalizing clock with
  | nil => rfl
  | cons n rest ih => rw [entries, List.map_cons, ih]

theorem toList_bodySegments (grid : Option (Grid β)) (clock : Clock β) (notes : List Note) :
    (textOf (bodySegments grid clock notes)).toList =
      (entries grid clock notes).flatMap Entry.text := by
  induction notes generalizing clock with
  | nil => rfl
  | cons n rest ih =>
    rw [textOf_bodySegments_cons, entries, List.flatMap_cons, String.toList_append, ih, Entry.text]
    split <;> simp_all

end Body

/-! ## Lines -/

/-- Lines, with a break after each. -/
def ended (lines : List (List Char)) : List Char :=
  lines.flatMap (· ++ ['\n'])

def declarationLines : Declaration → List (List Char)
  | .tempo bpm => ["Q:1/4=".toList ++ bpm.repr.toList]
  | .timeSignature numerator denominator =>
    ["M:".toList ++ (numerator.repr.toList ++ '/' :: denominator.repr.toList), "L:1/8".toList]
  | .key root mode => ["K:".toList ++ (key root mode).toList]

def belowTitle (declarations : List Declaration) (row : List Entry) : List (List Char) :=
  declarations.flatMap declarationLines ++ [row.flatMap Entry.text ++ ['|']]

/-- The lines of a piece. -/
def sheetLines (title : String) (declarations : List Declaration) (row : List Entry) :
    List (List Char) :=
  "X:1".toList :: ("T:".toList ++ title.toList) :: belowTitle declarations row

theorem ended_cons (line : List Char) (rest : List (List Char)) :
    ended (line :: rest) = line ++ '\n' :: ended rest := by
  simp [ended]

theorem ended_declarationLines (d : Declaration) :
    ended (declarationLines d) = (declarationText d).toList := by
  rw [toList_declarationText]
  cases d <;> simp [declarationLines, ended]

theorem ended_sheetLines (title : String) (declarations : List Declaration) (row : List Entry) :
    ended (sheetLines title declarations row) =
      (headerText title declarations).toList ++ (row.flatMap Entry.text ++ "|\n".toList) := by
  have hdeclarations : (String.join (declarations.map declarationText)).toList =
      ended (declarations.flatMap declarationLines) := by
    rw [String.toList_join, List.flatMap_map, ended, List.flatMap_assoc]
    refine List.flatMap_congr fun d _ => ?_
    exact (ended_declarationLines d).symm
  rw [sheetLines, belowTitle, headerText, String.toList_append, hdeclarations]
  simp [ended]

/-- What is written from a clock, also where the program is not valid. -/
theorem toList_emit {β : Type} [Beat β] (options : Options β) (clock : Clock β)
    (program : Program) :
    (emit none options clock program).text.toList =
      ended (sheetLines options.title program.declarations
        (entries (options.bars.grid (headerClock options.bars clock program.declarations))
          (headerClock options.bars clock program.declarations) program.notes)) := by
  rw [emit_text, String.toList_append, String.toList_append, toList_bodySegments, ended_sheetLines,
    List.append_assoc]

theorem count_ended {lines : List (List Char)} (h : ∀ line ∈ lines, '\n' ∉ line) :
    (ended lines).count '\n' = lines.length := by
  induction lines with
  | nil => rfl
  | cons line rest ih =>
    have hrest := ih fun other ho => h other (List.mem_cons_of_mem _ ho)
    have hline := List.count_eq_zero_of_not_mem (h line (List.mem_cons_self ..))
    rw [ended_cons, List.count_append, List.count_cons_self, hrest, hline, List.length_cons,
      Nat.zero_add]

theorem token_note {n : Note} (h : n.Playable) :
    (note n).toList ≠ [] ∧ ' ' ∉ (note n).toList ∧ '|' ∉ (note n).toList := by
  obtain ⟨step, accidental, hpitch⟩ := h.1.pitch
  refine ⟨by simp [toList_note hpitch], blank_not_mem_note h, ?_⟩
  exact fun hmem => absurd (mem_noteCharacters h hmem) (by decide)

theorem declarationLines_unbroken {d : Declaration} (h : d.InRange) :
    ∀ line ∈ declarationLines d, '\n' ∉ line := by
  have hrepr := fun z => @not_mem_repr '\n' rfl (by decide) z
  cases d with
  | tempo bpm => simp [declarationLines, hrepr]
  | timeSignature numerator denominator => simp [declarationLines, hrepr]
  | key root mode => simp [declarationLines, newline_not_mem_key h mode]

/-- A time signature takes two lines, one for itself and one for the unit of length. -/
theorem length_declarationLines (d : Declaration) :
    (declarationLines d).length = if d.kind = .timeSignature then 2 else 1 := by
  cases d <;> rfl

end Abc

namespace Program

theorem Valid.playable_of_mem_row {program : Program} (h : program.Valid) {row : List Abc.Entry}
    (hrow : row.map Abc.Entry.note = program.notes) :
    ∀ entry ∈ row, entry.note.Playable := by
  intro entry hentry
  apply h.playable
  rw [← hrow]
  exact List.mem_map_of_mem hentry

theorem Valid.body_unbroken {program : Program} (h : program.Valid) {row : List Abc.Entry}
    (hrow : row.map Abc.Entry.note = program.notes) : '\n' ∉ row.flatMap Abc.Entry.text := by
  rw [List.mem_flatMap]
  rintro ⟨entry, hentry, hmem⟩
  rw [Abc.Entry.text, List.mem_append] at hmem
  rcases hmem with hmem | hmem
  · exact absurd (Abc.mem_noteCharacters (h.playable_of_mem_row hrow entry hentry) hmem) (by decide)
  · revert hmem
    cases entry.bar <;> decide

theorem Valid.length_belowTitle {program : Program} (h : program.Valid) (row : List Abc.Entry) :
    (Abc.belowTitle program.declarations row).length = 5 := by
  have hlengths : program.declarations.map (fun d => (Abc.declarationLines d).length) =
      (program.declarations.map Declaration.kind).map fun kind =>
        if kind = .timeSignature then 2 else 1 := by
    rw [List.map_map]
    exact List.map_congr_left fun d _ => Abc.length_declarationLines d
  rw [Abc.belowTitle, List.length_append, List.length_flatMap, hlengths,
    (h.kinds_perm.map _).sum_eq]
  rfl

theorem Valid.belowTitle_unbroken {program : Program} (h : program.Valid) {row : List Abc.Entry}
    (hrow : row.map Abc.Entry.note = program.notes) :
    ∀ line ∈ Abc.belowTitle program.declarations row, '\n' ∉ line := by
  intro line hl
  rw [Abc.belowTitle, List.mem_append, List.mem_flatMap, List.mem_singleton] at hl
  rcases hl with ⟨d, hd, hl⟩ | rfl
  · exact Abc.declarationLines_unbroken (h.inRange d hd) line hl
  · simp [h.body_unbroken hrow]

/-- The title in the header. -/
def title (program : Program) : String :=
  program.metadata.title.getD "Generated"

/-- Seven lines: the two of the head, one or two for each declaration, the three kinds once each
and in the order of the source, and the notes with bars after some of them. -/
structure Layout (program : Program) (lines : List (List Char)) : Prop where
  seven : lines.length = 7
  unbroken : ∀ line ∈ lines, '\n' ∉ line
  once : (program.declarations.map Declaration.kind).Perm Kind.all
  tokens : ∀ n ∈ program.notes, (Abc.note n).toList ≠ [] ∧ ' ' ∉ (Abc.note n).toList ∧
    '|' ∉ (Abc.note n).toList
  body : ∃ row : List Abc.Entry, row.map Abc.Entry.note = program.notes ∧
    lines = Abc.sheetLines program.title program.declarations row

theorem toList_toAbc (program : Program) : ∃ row : List Abc.Entry,
    row.map Abc.Entry.note = program.notes ∧
      program.toAbc.toList = Abc.ended (Abc.sheetLines program.title program.declarations row) :=
  ⟨_, Abc.map_note_entries _ _ _,
    Abc.toList_emit (Abc.Options.ofMetadata program.metadata : Abc.Options Float) .start program⟩

theorem Layout.newline_not_mem_title {program : Program} {lines : List (List Char)}
    (h : program.Layout lines) : '\n' ∉ program.title.toList := by
  obtain ⟨row, _, rfl⟩ := h.body
  have hline := h.unbroken ("T:".toList ++ program.title.toList) (by simp [Abc.sheetLines])
  exact fun hmem => hline (List.mem_append_right _ hmem)

theorem Valid.layout {program : Program} (h : program.Valid)
    (htitle : '\n' ∉ program.title.toList) {row : List Abc.Entry}
    (hrow : row.map Abc.Entry.note = program.notes) :
    program.Layout (Abc.sheetLines program.title program.declarations row) where
  seven := by rw [Abc.sheetLines, List.length_cons, List.length_cons, h.length_belowTitle]
  unbroken := by
    intro line hl
    rw [Abc.sheetLines, List.mem_cons, List.mem_cons] at hl
    rcases hl with rfl | rfl | hl
    · decide
    · simp [htitle]
    · exact h.belowTitle_unbroken hrow line hl
  once := h.kinds_perm
  tokens := fun n hn => Abc.token_note (h.playable n hn)
  body := ⟨row, hrow, rfl⟩

theorem Valid.count_toAbc {program : Program} (h : program.Valid) :
    program.toAbc.toList.count '\n' = 7 + program.title.toList.count '\n' := by
  obtain ⟨row, hrow, htext⟩ := program.toList_toAbc
  have hbelow : (Abc.ended (Abc.belowTitle program.declarations row)).count '\n' = 5 := by
    rw [Abc.count_ended (h.belowTitle_unbroken hrow), h.length_belowTitle]
  have hhead : "X:1".toList.count '\n' = 0 ∧ "T:".toList.count '\n' = 0 := by decide
  rw [htext, Abc.sheetLines, Abc.ended_cons, Abc.ended_cons, List.count_append,
    List.count_cons_self, List.count_append, List.count_cons_self, List.count_append, hbelow]
  omega

/-- A valid program has the layout exactly if no break is in the title; every break in the title
makes one line more. -/
theorem toAbc_layout (program : Program) (h : program.check = .ok ()) :
    ((∃ lines, program.Layout lines ∧ program.toAbc.toList = Abc.ended lines) ↔
      '\n' ∉ program.title.toList) ∧
    program.toAbc.toList.count '\n' = 7 + program.title.toList.count '\n' := by
  have hvalid := valid_of_check h
  refine ⟨⟨?_, ?_⟩, hvalid.count_toAbc⟩
  · rintro ⟨lines, hlayout, _⟩
    exact hlayout.newline_not_mem_title
  · intro htitle
    obtain ⟨row, hrow, htext⟩ := program.toList_toAbc
    exact ⟨_, hvalid.layout htitle hrow, htext⟩

/-- A title that looks like a line of the header, but is on one line. -/
def besideTitle : Program :=
  { metadata := { title := some "Vals: M:3/4" }
    declarations := [.key "Sib" .minor, .tempo 90, .timeSignature 12 16]
    notes := [⟨"Do#", 5, .half⟩, ⟨"La", 0, .quarter⟩] }

theorem toAbc_layout_besideTitle : besideTitle.check = .ok () ∧
    ∃ lines, besideTitle.Layout lines ∧ besideTitle.toAbc.toList = Abc.ended lines := by
  have hcheck : besideTitle.check = .ok () := by rfl
  exact ⟨hcheck, (toAbc_layout besideTitle hcheck).1.mpr (by decide)⟩

/-- A quoted title with a break in it, and a time signature after the break. -/
def forged : String :=
  "---\ntitle: \"Uno\\nM:3/4\"\n---\nTempo 60\nCompas 2/4\nTonalidad Do M\nDo4 Blanca"

/-- The source is accepted, but its text has eight lines and not the layout. -/
theorem toAbc_forged : ∃ program, accept forged = .ok program ∧
    (¬ ∃ lines, program.Layout lines ∧ program.toAbc.toList = Abc.ended lines) ∧
    program.toAbc.toList.count '\n' = 8 := by
  let program : Program :=
    { metadata := { title := some "Uno\nM:3/4" }
      declarations := [.tempo 60, .timeSignature 2 4, .key "Do" .major]
      notes := [⟨"Do", 4, .half⟩] }
  have haccept : accept forged = .ok program := by decide +kernel
  have hvalid := valid_of_check (accept_eq_ok.mp haccept).2
  have htitle : program.title.toList.count '\n' = 1 := by decide
  refine ⟨program, haccept, ?_, ?_⟩
  · rintro ⟨lines, hlayout, _⟩
    exact absurd hlayout.newline_not_mem_title (by decide)
  · rw [hvalid.count_toAbc, htitle]

end Program
end Solfege
