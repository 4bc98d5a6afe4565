import Mathlib.Data.List.Forall2
import Solfege.Proofs.LexForms
import Solfege.Proofs.LineForm
import Solfege.Source
import Solfege.Yaml.Fields

/-!
# Solfege.Proofs.LineGrammar

A source is read line by line: no item reaches over a break, and a program is what its lines say,
in order.

* `LineReads`       — a line of text says an item, or nothing.
* `parseMusic_eq_ok` — a music text is read exactly if all its lines are.
* `parse_lineReads` — the same for a source without delimiters.

The lexemes of a text, cut at the breaks among them, are the lexemes of its lines
(`tokens_linesOf`); that lemma carries everything here.
-/

namespace Solfege

/-! ## Rows of lexemes -/

theorem locate_append (p : Position) (first second : List Piece) :
    locate p (first ++ second) =
      locate p first ++ locate (p.after (first.flatMap Piece.source)) second := by
  induction first generalizing p with
  | nil => rfl
  | cons piece rest ih =>
    cases piece with
    | token token source =>
      simp only [List.cons_append, locate, ih, List.flatMap_cons, Piece.source,
        Position.after_append]
    | comment source =>
      simp only [List.cons_append, locate, ih, List.flatMap_cons, Piece.source,
        Position.after_append]

/-- The lexemes before a break, the break, and those after it. -/
theorem locate_break {first : List Char} (h : (pieces first).2 = []) (p : Position)
    (rest : List Char) :
    locate p (pieces (first ++ '\n' :: rest)).1 =
      locate p (pieces first).1 ++ ⟨.newline, ['\n'], p.after first⟩ ::
        locate (p.after (first ++ ['\n'])) (pieces rest).1 := by
  rw [pieces_append_newline h, locate_append, source_pieces_of_lex h, locate,
    Position.after_append]

theorem newline_not_mem_pieces {text : List Char} (h : '\n' ∉ text) :
    ∀ piece ∈ (pieces text).1, piece.token? ≠ some .newline := by
  induction text using pieceInduction with
  | stop text hn =>
    rw [pieces_of_next?_none hn]
    intro piece hp
    cases hp
  | step text piece rest hn ih =>
    have hrest : '\n' ∉ rest := by
      intro hr
      apply h
      rw [← Piece.source_append_of_next? hn]
      exact List.mem_append_right _ hr
    rw [pieces_of_next? hn]
    intro other ho
    rcases List.mem_cons.mp ho with rfl | ho
    · intro htoken
      cases other with
      | token token source =>
        cases htoken
        exact h (Piece.newline_mem_of_next? hn)
      | comment source => cases htoken
    · exact ih hrest other ho

theorem newline_not_mem_locate {text : List Char} (h : '\n' ∉ text) (p : Position) :
    ∀ x ∈ locate p (pieces text).1, x.token ≠ .newline := by
  intro x hx hnewline
  have hmem : Token.newline ∈ (locate p (pieces text).1).map Lexeme.token :=
    List.mem_map.mpr ⟨x, hx, hnewline⟩
  rw [map_token_locate, List.mem_filterMap] at hmem
  obtain ⟨piece, hp, htoken⟩ := hmem
  exact newline_not_mem_pieces h piece hp htoken

theorem pieces_split {text : List Char} :
    (pieces text).2 = [] ↔ ∀ line ∈ Text.split text, (pieces line).2 = [] := by
  induction text using Text.lineInduction with
  | last text hn => simp [Text.split_of_no_newline hn]
  | line first rest hf ih =>
    rw [Text.split_append_newline hf, List.forall_mem_cons, ← ih]
    by_cases hfirst : (pieces first).2 = []
    · simp [pieces_append_newline hfirst, hfirst]
    · simp [pieces_append_newline_of_stop hfirst, hfirst]

theorem pieces_of_append_newline {first rest : List Char} (hf : '\n' ∉ first)
    (h : (pieces (first ++ '\n' :: rest)).2 = []) :
    (pieces first).2 = [] ∧ (pieces rest).2 = [] := by
  rw [pieces_split, Text.split_append_newline hf, List.forall_mem_cons, ← pieces_split] at h
  exact h

/-- The tokens of each line of lexemes are those of the line of text. -/
theorem tokens_linesOf {text : List Char} (h : (pieces text).2 = []) (p stop : Position) :
    (linesOf stop (locate p (pieces text).1)).map Line.tokens =
      (Text.split text).map fun line => (pieces line).1.filterMap Piece.token? := by
  induction text using Text.lineInduction generalizing p with
  | last text hn =>
    rw [Text.split_of_no_newline hn, linesOf_of_no_newline (newline_not_mem_locate hn p)]
    simp [Line.tokens, map_token_locate]
  | line first rest hf ih =>
    obtain ⟨hfirst, hrest⟩ := pieces_of_append_newline hf h
    rw [locate_break hfirst, Text.split_append_newline hf,
      linesOf_append_newline (newline_not_mem_locate hf p) stop rfl, List.map_cons, List.map_cons,
      ih hrest, Line.tokens, map_token_locate]

/-! ## Items -/

/-- The items of the lines that have one. -/
theorem readItems_eq_ok {lines : List Line} {items : List Item} :
    readItems lines = .ok items ↔ ∃ found : List (Option Item),
      List.Forall₂ (fun line item => line.item? = .ok item) lines found ∧
        items = found.filterMap id := by
  induction lines generalizing items with
  | nil =>
    constructor
    · intro h
      cases h
      exact ⟨[], .nil, rfl⟩
    · rintro ⟨_, ⟨⟩, rfl⟩
      rfl
  | cons line rest ih =>
    constructor
    · intro h
      rw [readItems] at h
      split at h
      · cases h
      · rename_i hline
        obtain ⟨found, hall, rfl⟩ := ih.mp h
        exact ⟨none :: found, .cons hline hall, rfl⟩
      · rename_i item hline
        split at h
        · cases h
        · rename_i more hmore
          cases h
          obtain ⟨found, hall, rfl⟩ := ih.mp hmore
          exact ⟨some item :: found, .cons hline hall, rfl⟩
    · rintro ⟨_, ⟨⟩, rfl⟩
      rename_i item found hline hall
      have hrest := ih.mpr ⟨found, hall, rfl⟩
      cases item with
      | none =>
        rw [readItems, hline]
        exact hrest
      | some item =>
        rw [readItems, hline, hrest]
        rfl

/-- The line, up to its comment, gives tokens of a form that says the item. -/
def LineReads (line : List Char) (item : Option Item) : Prop :=
  ∃ tokens, Lexes (beforeComment line) tokens ∧ LineForm tokens item

theorem lineReads_iff {line : List Char} (h : '\n' ∉ line) {item : Option Item} :
    LineReads line item ↔
      (pieces line).2 = [] ∧ LineForm ((pieces line).1.filterMap Piece.token?) item := by
  simp only [LineReads, lexes_beforeComment h, lexes_iff]
  constructor
  · rintro ⟨_, ⟨hnil, rfl⟩, hform⟩
    exact ⟨hnil, hform⟩
  · rintro ⟨hnil, hform⟩
    exact ⟨_, ⟨hnil, rfl⟩, hform⟩

section Forall₂

variable {α β : Type} {R S : α → β → Prop} {l : List α}

theorem forall₂_congr_of_mem {m : List β} (h : ∀ a ∈ l, ∀ b, R a b ↔ S a b) :
    List.Forall₂ R l m ↔ List.Forall₂ S l m := by
  induction l generalizing m with
  | nil => simp
  | cons a rest ih =>
    have hrest := fun m' => @ih m' fun b hb => h b (List.mem_cons_of_mem _ hb)
    simp only [List.forall₂_cons_left_iff, h a (List.mem_cons_self ..), hrest]

theorem exists_forall₂_iff : (∃ m, List.Forall₂ R l m) ↔ ∀ a ∈ l, ∃ b, R a b := by
  induction l with
  | nil => simp
  | cons a rest ih =>
    rw [List.forall_mem_cons, ← ih]
    constructor
    · rintro ⟨_, ⟨⟩⟩
      rename_i b m ha hm
      exact ⟨⟨b, ha⟩, m, hm⟩
    · rintro ⟨⟨b, ha⟩, m, hm⟩
      exact ⟨b :: m, .cons ha hm⟩

end Forall₂

theorem forall₂_lineReads {text : List Char} {found : List (Option Item)} :
    List.Forall₂ LineReads (Text.split text) found ↔ (pieces text).2 = [] ∧
      List.Forall₂ LineForm
        ((Text.split text).map fun line => (pieces line).1.filterMap Piece.token?) found := by
  rw [List.forall₂_map_left_iff, pieces_split, ← List.forall₂_and_left]
  exact forall₂_congr_of_mem fun line hl _ => lineReads_iff (Text.not_mem_of_mem_split hl)

theorem readItems_linesOf {text : List Char} (h : (pieces text).2 = []) (stop : Position)
    {items : List Item} :
    readItems (linesOf stop (locate .start (pieces text).1)) = .ok items ↔
      ∃ found, List.Forall₂ LineReads (Text.split text) found ∧ items = found.filterMap id := by
  rw [readItems_eq_ok]
  simp only [forall₂_lineReads, h, true_and, ← tokens_linesOf h .start stop,
    List.forall₂_map_left_iff, Line.item?_eq_ok]

theorem parseMusic_eq_ok {metadata : Metadata} {music : List Char} {program : Program} :
    parseMusic metadata music = .ok program ↔ ∃ found,
      List.Forall₂ LineReads (Text.split music) found ∧
        program = Program.ofItems metadata (found.filterMap id) := by
  constructor
  · intro h
    rw [parseMusic] at h
    split at h
    · cases h
    · rename_i lexemes hlex
      split at h
      · cases h
      · rename_i items hitems
        cases h
        rw [LexemeCursor.items_start] at hitems
        obtain ⟨hnil, rfl⟩ := pieces_of_lex hlex
        obtain ⟨found, hall, rfl⟩ := (readItems_linesOf hnil _).mp hitems
        exact ⟨found, hall, rfl⟩
  · rintro ⟨found, hall, rfl⟩
    have hnil := (forall₂_lineReads.mp hall).1
    have hitems := fun stop => (readItems_linesOf hnil stop).mpr ⟨found, hall, rfl⟩
    simp only [parseMusic, lex_of_pieces hnil, LexemeCursor.items_start, hitems]

theorem parse_of_no_delimiter [FrontMatter.Reader] {source : String}
    (h : ∀ line ∈ Text.split source.toList, FrontMatter.isDelimiter line = false) :
    parse source = match parseMusic {} source.toList with
      | .error fault => .error (.parse fault)
      | .ok program => .ok program := by
  rw [parse, FrontMatter.divide_of_no_delimiter h]
  rfl

theorem parse_eq_ok_of_no_delimiter [FrontMatter.Reader] {source : String}
    (h : ∀ line ∈ Text.split source.toList, FrontMatter.isDelimiter line = false)
    {program : Program} :
    parse source = .ok program ↔ ∃ found,
      List.Forall₂ LineReads (Text.split source.toList) found ∧
        program = Program.ofItems {} (found.filterMap id) := by
  rw [← parseMusic_eq_ok, parse_of_no_delimiter h]
  cases parseMusic {} source.toList <;> simp

/-- A source without delimiters is read exactly if each of its lines is, and what is read are the
declarations and the notes of the lines in order, without metadata. -/
theorem parse_lineReads [FrontMatter.Reader] (source : String)
    (h : ∀ line ∈ Text.split source.toList, Text.trim line ≠ ['-', '-', '-']) :
    ((∃ program, parse source = .ok program) ↔
      ∀ line ∈ Text.split source.toList, ∃ item, LineReads line item) ∧
    ∀ program, parse source = .ok program ↔ ∃ items : List (Option Item),
      List.Forall₂ LineReads (Text.split source.toList) items ∧
        program.metadata = {} ∧
        program.declarations = items.filterMap (·.bind Item.declaration?) ∧
        program.notes = items.filterMap (·.bind Item.note?) := by
  have hparse := fun program => @parse_eq_ok_of_no_delimiter _ source
    (fun line hl => decide_eq_false (h line hl)) program
  constructor
  · rw [← exists_forall₂_iff]
    constructor
    · rintro ⟨program, hp⟩
      obtain ⟨found, hall, _⟩ := (hparse program).mp hp
      exact ⟨found, hall⟩
    · rintro ⟨found, hall⟩
      exact ⟨_, (hparse _).mpr ⟨found, hall, rfl⟩⟩
  · intro program
    rw [hparse program]
    obtain ⟨metadata, declarations, notes⟩ := program
    simp [Program.ofItems, List.filterMap_filterMap]

/-- A tempo, a blank line with a comment and an indented note. -/
theorem parse_lineReads_three_lines :
    (∀ line ∈ Text.split "Tempo 60\n // dos\n\tDo#5Negra".toList,
      Text.trim line ≠ ['-', '-', '-']) ∧
    ∀ line ∈ Text.split "Tempo 60\n // dos\n\tDo#5Negra".toList, ∃ item, LineReads line item := by
  have h : ∀ line ∈ Text.split "Tempo 60\n // dos\n\tDo#5Negra".toList,
      Text.trim line ≠ ['-', '-', '-'] := by decide
  have hparse : parse "Tempo 60\n // dos\n\tDo#5Negra" =
      .ok { declarations := [.tempo 60], notes := [⟨"Do#", 5, .quarter⟩] } := by
    decide +kernel
  exact ⟨h, (parse_lineReads _ h).1.mp ⟨_, hparse⟩⟩

end Solfege
