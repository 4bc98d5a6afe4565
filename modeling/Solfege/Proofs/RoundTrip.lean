import Solfege.Proofs.FirstViolation
import Solfege.Proofs.LineGrammar

/-!
# Solfege.Proofs.RoundTrip

A program reads back from its text.

* `Program.Writable`  — names are words and numbers fit: what a source can say.
* `Program.ReadsBack` — the text of the program says its declarations and its notes, in order.
* `readsBack_exactly` — the programs that read back are the writable ones. Every program that was
  read from a source is among them, and so is every program that passes the check.

The text is a row of lines, one for each item and an empty one between the two groups. A line
lexes to the tokens of its item (`Item.lexes_text`) and these have its form (`Item.lineForm`).
-/

namespace Solfege

/-! ## What a source can say -/

/-- The number can be written, and is not above the largest 32-bit integer. -/
def Numeral (value : Int) : Prop :=
  0 ≤ value ∧ value ≤ 2147483647

def Declaration.Writable : Declaration → Prop
  | .tempo bpm => Numeral bpm
  | .timeSignature numerator denominator => Numeral numerator ∧ Numeral denominator
  | .key root _ => IsWord root

def Note.Writable (note : Note) : Prop :=
  IsWord note.name ∧ Numeral note.octave

def Item.Writable : Item → Prop
  | .declaration d => d.Writable
  | .note n => n.Writable

structure Program.Writable (program : Program) : Prop where
  declarations : ∀ d ∈ program.declarations, d.Writable
  notes : ∀ n ∈ program.notes, n.Writable

def Program.ReadsBack [FrontMatter.Reader] (program : Program) : Prop :=
  parse program.text =
    .ok { metadata := {}, declarations := program.declarations, notes := program.notes }

/-! ## The text of an item -/

namespace Item

def text : Item → List Char
  | .declaration d => d.text.toList
  | .note n => n.text.toList

/-- The tokens that the item is written in. -/
def tokens : Item → List Token
  | .declaration (.tempo bpm) => [.tempo, .blank, .number bpm.toNat]
  | .declaration (.timeSignature numerator denominator) =>
    [.meter, .blank, .number numerator.toNat, .slash, .number denominator.toNat]
  | .declaration (.key root mode) => [.key, .blank, .word root, .blank, .mode mode]
  | .note ⟨name, octave, duration⟩ =>
    [.word name, .number octave.toNat, .blank, .duration duration]

end Item

theorem Numeral.clamp_toNat {value : Int} (h : Numeral value) : clamp value.toNat = value := by
  obtain ⟨hlow, hhigh⟩ := h
  rw [clamp]
  omega

theorem numeral_clamp (value : Nat) : Numeral (clamp value) := by
  rw [Numeral, clamp]
  omega

/-- The digits of a number that can be written, in front of a text. -/
theorem Lexes.numeral {value : Int} (hvalue : Numeral value) {rest : List Char}
    {tokens : List Token} (hrest : Leaves Char.isDigit rest) (h : Lexes rest tokens) :
    Lexes (value.repr.toList ++ rest) (.number value.toNat :: tokens) := by
  obtain ⟨n, rfl⟩ := Int.eq_ofNat_of_zero_le hvalue.1
  have hmax : n ≤ Token.maxNumber := by
    have := hvalue.2
    rw [Token.maxNumber]
    omega
  exact .number hmax hrest h

theorem Numeral.leaves {value : Int} (h : Numeral value) {p : Char → Bool}
    (hp : ∀ c : Char, c.isDigit = true → p c = false) (rest : List Char) :
    Leaves p (value.repr.toList ++ rest) := by
  obtain ⟨n, rfl⟩ := Int.eq_ofNat_of_zero_le h.1
  exact leaves_repr hp n rest

namespace Item

theorem lexes_text {item : Item} (h : item.Writable) : Lexes item.text item.tokens := by
  match item, h with
  | .declaration (.tempo bpm), hbpm =>
    have htext : (Declaration.tempo bpm).text.toList =
        "Tempo".toList ++ ' ' :: (bpm.repr.toList ++ []) := by
      rw [Declaration.text, String.toList_append, List.append_nil]
      rfl
    rw [text, htext]
    exact .word _ (by decide) (by decide) rfl (.blank (.numeral hbpm rfl .nil))
  | .declaration (.timeSignature numerator denominator), ⟨hn, hd⟩ =>
    have htext : (Declaration.timeSignature numerator denominator).text.toList =
        "Compas".toList ++ ' ' ::
          (numerator.repr.toList ++ '/' :: (denominator.repr.toList ++ [])) := by
      simp [Declaration.text]
    rw [text, htext]
    refine .word _ (by decide) (by decide) rfl (.blank (.numeral hn rfl ?_))
    -- A digit after the slash, so no comment starts here.
    have hslash : ∀ c : Char, c.isDigit = true → decide (c = '/') = false := by
      intro c hc
      rw [decide_eq_false_iff_not]
      rintro rfl
      cases hc
    exact .slash (hd.leaves hslash _) (.numeral hd rfl .nil)
  | .declaration (.key root mode), hroot =>
    have htext : (Declaration.key root mode).text.toList =
        "Tonalidad".toList ++ ' ' :: (root.toList ++ ' ' :: (mode.mark.toList ++ [])) := by
      simp [Declaration.text]
    rw [text, htext]
    refine .word _ (by decide) (by decide) rfl (.blank (.plainWord hroot rfl (.blank ?_)))
    cases mode <;> exact .word _ (by decide) (by decide) rfl .nil
  | .note ⟨name, octave, duration⟩, ⟨hname, hoctave⟩ =>
    have htext : (Note.mk name octave duration).text.toList =
        name.toList ++ (octave.repr.toList ++ ' ' :: (duration.name.toList ++ [])) := by
      simp [Note.text, Note.pitchText]
    rw [text, htext]
    -- The octave follows at once, and its first digit is what ends the name.
    have hword := fun rest => hoctave.leaves (fun _ => Piece.isWordChar_of_isDigit) rest
    refine .plainWord hname (hword _) (.numeral hoctave rfl (.blank ?_))
    cases duration <;> exact .word _ (by decide) (by decide) rfl .nil

theorem lineForm {item : Item} (h : item.Writable) : LineForm item.tokens (some item) := by
  match item, h with
  | .declaration (.tempo bpm), hbpm =>
    have hform : LineForm [.tempo, .blank, .number bpm.toNat] _ := .tempo rfl
    rwa [hbpm.clamp_toNat] at hform
  | .declaration (.timeSignature numerator denominator), ⟨hn, hd⟩ =>
    have hform : LineForm
        [.meter, .blank, .number numerator.toNat, .slash, .number denominator.toNat] _ :=
      .timeSignature rfl
    rwa [hn.clamp_toNat, hd.clamp_toNat] at hform
  | .declaration (.key root mode), _ => exact .key rfl
  | .note ⟨name, octave, duration⟩, ⟨_, hoctave⟩ =>
    have hform : LineForm [.word name, .number octave.toNat, .blank, .duration duration] _ :=
      .note rfl ⟨[], _, rfl⟩
    rwa [show clamp octave.toNat = octave from hoctave.clamp_toNat] at hform

theorem newline_not_mem_text {item : Item} (h : item.Writable) : '\n' ∉ item.text := by
  intro hn
  have hmem := (lexes_text h).newline_mem hn
  match item with
  | .declaration (.tempo _) => simp [tokens] at hmem
  | .declaration (.timeSignature _ _) => simp [tokens] at hmem
  | .declaration (.key _ _) => simp [tokens] at hmem
  | .note ⟨_, _, _⟩ => simp [tokens] at hmem

theorem lineReads_text {item : Item} (h : item.Writable) : LineReads item.text (some item) :=
  ⟨item.tokens, (lexes_beforeComment (newline_not_mem_text h)).mpr (lexes_text h), lineForm h⟩

/-- The names of the settings and of the durations keep a line from being a delimiter. -/
theorem isDelimiter_text (item : Item) : FrontMatter.isDelimiter item.text = false := by
  match item with
  | .declaration d =>
    have hmem : 'o' ∈ d.text.toList := by
      cases d <;> simp [Declaration.text]
    exact FrontMatter.isDelimiter_of_mem hmem (by decide) (by decide)
  | .note n =>
    have hmem : 'a' ∈ n.text.toList := by
      obtain ⟨name, octave, duration⟩ := n
      cases duration <;> simp [Note.text, Duration.name]
    exact FrontMatter.isDelimiter_of_mem hmem (by decide) (by decide)

end Item

/-! ## The text of a program -/

/-- A line of a text: of an item, or empty. -/
def lineText (item : Option Item) : List Char :=
  item.elim [] Item.text

theorem lineReads_nil : LineReads [] none :=
  ⟨[], .nil, .empty rfl⟩

theorem split_flatMap_lineText {rows : List (Option Item)}
    (h : ∀ row ∈ rows, '\n' ∉ lineText row) :
    Text.split (rows.flatMap fun row => lineText row ++ ['\n']) = rows.map lineText ++ [[]] := by
  induction rows with
  | nil => rfl
  | cons row rest ih =>
    rw [List.flatMap_cons, List.append_assoc, List.singleton_append,
      Text.split_append_newline (h row (List.mem_cons_self ..)),
      ih fun other ho => h other (List.mem_cons_of_mem _ ho)]
    rfl

namespace Program

/-- The lines of the text: declarations, an empty line between the groups, notes. -/
def rows (program : Program) : List (Option Item) :=
  program.declarations.map (some ∘ .declaration) ++
    (if program.declarations = [] ∨ program.notes = [] then [] else [none]) ++
    program.notes.map (some ∘ .note)

theorem toList_text (program : Program) :
    program.text.toList = program.rows.flatMap fun row => lineText row ++ ['\n'] := by
  obtain ⟨metadata, declarations, notes⟩ := program
  simp only [text, rows]
  split <;> simp [List.flatMap_map, lineText, Item.text, Function.comp_def]

theorem ofItems_rows (program : Program) :
    ofItems {} (program.rows.filterMap id) =
      { metadata := {}, declarations := program.declarations, notes := program.notes } := by
  obtain ⟨metadata, declarations, notes⟩ := program
  simp only [rows, ofItems]
  split <;> simp [List.filterMap_append, List.filterMap_map, Function.comp_def,
    Item.declaration?, Item.note?]

theorem writable_of_mem_rows {program : Program} (h : program.Writable) {item : Item}
    (hmem : some item ∈ program.rows) : item.Writable := by
  rw [rows, List.mem_append, List.mem_append] at hmem
  rcases hmem with (hd | hgap) | hn
  · obtain ⟨d, hmem, heq⟩ := List.mem_map.mp hd
    cases heq
    exact h.declarations d hmem
  · split at hgap
    · cases hgap
    · cases List.mem_singleton.mp hgap
  · obtain ⟨n, hmem, heq⟩ := List.mem_map.mp hn
    cases heq
    exact h.notes n hmem

theorem row_reads {program : Program} (h : program.Writable) {row : Option Item}
    (hrow : row ∈ program.rows) : '\n' ∉ lineText row ∧ LineReads (lineText row) row ∧
      FrontMatter.isDelimiter (lineText row) = false := by
  cases row with
  | none => exact ⟨List.not_mem_nil, lineReads_nil, rfl⟩
  | some item =>
    have hw := writable_of_mem_rows h hrow
    exact ⟨item.newline_not_mem_text hw, item.lineReads_text hw, item.isDelimiter_text⟩

/-- The text ends with a break, and the stretch after it is empty. -/
theorem split_text {program : Program} (h : program.Writable) :
    Text.split program.text.toList = program.rows.map lineText ++ [[]] := by
  rw [toList_text]
  exact split_flatMap_lineText fun row hrow => (row_reads h hrow).1

theorem isDelimiter_of_mem_text {program : Program} (h : program.Writable) {line : List Char}
    (hl : line ∈ Text.split program.text.toList) : FrontMatter.isDelimiter line = false := by
  rw [split_text h, List.mem_append, List.mem_singleton] at hl
  rcases hl with hl | rfl
  · obtain ⟨row, hrow, rfl⟩ := List.mem_map.mp hl
    exact (row_reads h hrow).2.2
  · rfl

theorem readsBack_of_writable [FrontMatter.Reader] {program : Program} (h : program.Writable) :
    program.ReadsBack := by
  have hmusic := fun line => @isDelimiter_of_mem_text program h line
  refine (parse_eq_ok_of_no_delimiter hmusic).mpr ⟨program.rows ++ [none], ?_, ?_⟩
  · -- The stretch after the last break is read as an empty line.
    rw [split_text h]
    refine List.rel_append ?_ (.cons lineReads_nil .nil)
    rw [List.forall₂_map_left_iff, List.forall₂_same]
    exact fun row hrow => (row_reads h hrow).2.1
  · rw [List.filterMap_append, List.filterMap_cons_none rfl, List.filterMap_nil, List.append_nil,
      ofItems_rows]

end Program

/-! ## What is read or checked can be written -/

theorem Item.writable_of_lineReads {line : List Char} {item : Item}
    (h : LineReads line (some item)) : item.Writable := by
  obtain ⟨tokens, hlex, hform⟩ := h
  have hword : ∀ word, .word word ∈ visible tokens → IsWord word := by
    intro word hw
    exact hlex.isWord (List.mem_filter.mp hw).1
  cases hform with
  | tempo hv => exact numeral_clamp _
  | timeSignature hv => exact ⟨numeral_clamp _, numeral_clamp _⟩
  | key hv => exact hword _ (by simp [hv])
  | note hv _ => exact ⟨hword _ (by simp [hv]), numeral_clamp _⟩

/-- No spelling is a keyword. -/
theorem isWord_append :
    ∀ base ∈ stepNames, ∀ accidental ∈ ["", "#", "b"], IsWord (base ++ accidental) := by
  decide

theorem Spelling.isWord {name : String} (h : Spelling name) : IsWord name := by
  obtain ⟨base, hbase, accidental, haccidental, rfl⟩ := h
  exact isWord_append base hbase accidental haccidental

theorem Declaration.writable_of_inRange {declaration : Declaration} (h : declaration.InRange) :
    declaration.Writable := by
  cases declaration with
  | tempo bpm =>
    obtain ⟨hlow, hhigh⟩ := h
    exact ⟨by omega, by omega⟩
  | timeSignature numerator denominator =>
    obtain ⟨⟨hlow, hhigh⟩, hd⟩ := h
    simp only [List.mem_cons, List.not_mem_nil, or_false] at hd
    exact ⟨⟨by omega, by omega⟩, ⟨by omega, by omega⟩⟩
  | key root mode => exact Spelling.isWord h

theorem Note.writable_of_playable {note : Note} (h : note.Playable) : note.Writable := by
  obtain ⟨hname, hlow, hhigh⟩ := h
  exact ⟨hname.isWord, hlow, by omega⟩

namespace Program

theorem writable_ofItems {metadata : Metadata} {items : List Item}
    (h : ∀ item ∈ items, item.Writable) : (ofItems metadata items).Writable := by
  constructor
  · intro d hd
    obtain ⟨item, hmem, hitem⟩ := List.mem_filterMap.mp hd
    cases item with
    | declaration _ =>
      cases hitem
      exact h _ hmem
    | note _ => cases hitem
  · intro n hn
    obtain ⟨item, hmem, hitem⟩ := List.mem_filterMap.mp hn
    cases item with
    | declaration _ => cases hitem
    | note _ =>
      cases hitem
      exact h _ hmem

theorem writable_of_parse [FrontMatter.Reader] {source : String} {program : Program}
    (h : parse source = .ok program) : program.Writable := by
  simp only [parse] at h
  split at h
  · cases h
  · split at h
    · cases h
    · rename_i hmusic
      cases h
      obtain ⟨found, hall, rfl⟩ := parseMusic_eq_ok.mp hmusic
      apply writable_ofItems
      intro item hitem
      obtain ⟨row, hrow, rfl⟩ := List.mem_filterMap.mp hitem
      obtain ⟨line, hreads⟩ := exists_forall₂_iff.mp ⟨_, hall.flip⟩ _ hrow
      exact Item.writable_of_lineReads hreads

theorem writable_of_check {program : Program} (h : program.check = .ok ()) :
    program.Writable := by
  have hvalid := valid_of_check h
  exact ⟨fun d hd => d.writable_of_inRange (hvalid.inRange d hd),
    fun n hn => n.writable_of_playable (hvalid.playable n hn)⟩

/-- A program reads back from its text exactly if it can be written. What was read from a source
can be, with front matter or without, and so can what passes the check. -/
theorem readsBack_exactly [FrontMatter.Reader] (program : Program) :
    (program.ReadsBack ↔ program.Writable) ∧
      (∀ source, parse source = .ok program → program.ReadsBack) ∧
      (program.check = .ok () → program.ReadsBack) := by
  refine ⟨⟨?_, readsBack_of_writable⟩, ?_, ?_⟩
  · intro h
    have hread := writable_of_parse h
    exact ⟨hread.declarations, hread.notes⟩
  · intro source h
    exact readsBack_of_writable (writable_of_parse h)
  · intro h
    exact readsBack_of_writable (writable_of_check h)

/-- A title, a comment, a key outside the scale and an octave above the keyboard. -/
def titled : String :=
  "---\ntitle: Nana\n---\ntempo 090 // lento\nTONALIDAD Ñ# m\nRe99 NEGRA"

/-- All but the title is kept. -/
theorem readsBack_titled : ∃ program : Program, parse titled = .ok program ∧
    parse program.text =
      .ok { declarations := [.tempo 90, .key "Ñ#" .minor], notes := [⟨"Re", 99, .quarter⟩] } := by
  have hparse : parse titled =
      .ok { metadata := { title := some "Nana" }
            declarations := [.tempo 90, .key "Ñ#" .minor]
            notes := [⟨"Re", 99, .quarter⟩] } := by
    decide +kernel
  exact ⟨_, hparse, (readsBack_exactly _).2.1 titled hparse⟩

end Program
end Solfege
