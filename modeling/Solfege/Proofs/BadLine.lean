import Solfege.Proofs.Blocks

/-!
# Solfege.Proofs.BadLine

A source that cannot be read is blamed on its first bad line.

* `blamed_of_parseMusic`  — where the complaint is placed: at a lexeme, unless the last line breaks
  off too early.
* `inBlock_of_cut?`       — the lines of the block, found by counting delimiters.
* `reading_of_music`      — every other line of the source is read under its own number.
* `parse_error_firstBad`  — the number of the line that is blamed, and the place in it.
-/

namespace Solfege

/-! ## The lines of a text -/

def onLine (l : Nat) (lexemes : List Lexeme) : List Lexeme :=
  lexemes.filter (·.position.line = l)

theorem onLine_eq_nil {lexemes : List Lexeme} {l : Nat}
    (h : ∀ x ∈ lexemes, x.position.line ≠ l) : onLine l lexemes = [] :=
  List.filter_eq_nil_iff.mpr fun x hx => by simpa using h x hx

theorem line_endOf {lexemes : List Lexeme} {l : Nat} (hne : onLine l lexemes ≠ [])
    (hsuffix : onLine l lexemes <:+ lexemes) : (endOf lexemes).line = l := by
  obtain ⟨before, hbefore⟩ := hsuffix
  have hlast : lexemes.getLast? = some ((onLine l lexemes).getLast hne) := by
    rw [← List.getLast?_eq_some_getLast hne]
    nth_rewrite 1 [← hbefore]
    rw [List.getLast?_append, List.getLast?_eq_some_getLast hne]
    rfl
  have hmem := List.getLast_mem hne
  rw [endOf, hlast]
  exact of_decide_eq_true (List.mem_filter.mp hmem).2

/-- A line stops at a break among the lexemes, or it is the last one, and then it has all the
lexemes with its number. -/
theorem stop_of_mem_linesOf {text : List Char} (hlex : (pieces text).2 = []) {p stop : Position}
    {line : Line} (h : line ∈ linesOf stop (locate p (pieces text).1)) :
    line.lexemes ⊆ locate p (pieces text).1 ∧
      ((∃ x ∈ locate p (pieces text).1, x.position = line.stop) ∨
        line.stop = stop ∧ line.lexemes <:+ locate p (pieces text).1 ∧
          ∃ l ≥ p.line, onLine l (locate p (pieces text).1) = line.lexemes) := by
  induction text using Text.lineInduction generalizing p with
  | last text hn =>
    rw [linesOf_of_no_newline (newline_not_mem_locate hn p), List.mem_singleton] at h
    subst h
    refine ⟨List.Subset.refl _, .inr ⟨rfl, List.suffix_refl _, p.line, Nat.le_refl _, ?_⟩⟩
    refine List.filter_eq_self.mpr fun x hx => decide_eq_true (line_of_mem_locate ?_ hx)
    rwa [source_pieces_of_lex hlex]
  | line first rest hf ih =>
    obtain ⟨hfirst, hrest⟩ := pieces_of_append_newline hf hlex
    rw [linesOf_locate_newline hf hfirst] at h
    rw [locate_newline hf hfirst]
    rcases List.mem_cons.mp h with rfl | h
    · exact ⟨List.subset_append_left _ _,
        .inl ⟨_, List.mem_append_right _ (List.mem_cons_self ..), rfl⟩⟩
    · obtain ⟨hsubset, hstop⟩ := ih hrest h
      have hmem : ∀ x ∈ locate ⟨p.line + 1, 1⟩ (pieces rest).1, x ∈ locate p (pieces first).1 ++
          ⟨.newline, ['\n'], p.after first⟩ :: locate ⟨p.line + 1, 1⟩ (pieces rest).1 :=
        fun x hx => List.mem_append_right _ (List.mem_cons_of_mem _ hx)
      refine ⟨fun x hx => hmem x (hsubset hx), ?_⟩
      rcases hstop with ⟨x, hx, hposition⟩ | ⟨hend, hsuffix, l, hl, hline⟩
      · exact .inl ⟨x, hmem x hx, hposition⟩
      · -- The lines above have smaller numbers, so they add nothing to the lexemes on line `l`.
        have hearlier : ∀ x ∈ locate p (pieces first).1, x.position.line ≠ l := by
          intro x hx
          rw [line_of_mem_locate (by rwa [source_pieces_of_lex hfirst]) hx]
          exact Nat.ne_of_lt hl
        have hbreak : (p.after first).line ≠ l := by
          rw [Position.line_after hf]
          exact Nat.ne_of_lt hl
        refine .inr ⟨hend, ?_, l, Nat.le_of_succ_le hl, ?_⟩
        · exact hsuffix.trans ((List.suffix_cons _ _).trans (List.suffix_append _ _))
        · have hnil := onLine_eq_nil hearlier
          rw [onLine] at hnil hline ⊢
          rw [List.filter_append, hnil, List.filter_cons_of_neg (by simpa using hbreak), hline]
          rfl

theorem mem_of_readItems {lines : List Line} {fault : Fault}
    (h : readItems lines = .error fault) : ∃ line ∈ lines, line.item? = .error fault := by
  induction lines with
  | nil => cases h
  | cons line rest ih =>
    have hrest : readItems rest = .error fault →
        ∃ other ∈ line :: rest, other.item? = .error fault := by
      intro hr
      obtain ⟨other, hmem, hfault⟩ := ih hr
      exact ⟨other, List.mem_cons_of_mem _ hmem, hfault⟩
    rw [readItems] at h
    split at h
    · rename_i hline
      cases h
      exact ⟨line, List.mem_cons_self .., hline⟩
    · exact hrest h
    · split at h <;> cases h
      rename_i hr
      exact hrest hr

/-- A fault of a text is placed at one of its lexemes; if not, the reader is at the end of the text
and the last line unfinished. -/
theorem blamed_of_parseMusic {metadata : Metadata} {music : List Char} {lexemes : List Lexeme}
    {fault : Fault} (hlex : lex music = .ok lexemes)
    (h : parseMusic metadata music = .error fault) :
    (∃ lexeme ∈ lexemes, lexeme.position = fault.position) ∨
      fault.position = endOf lexemes ∧
        Unfinished ((onLine fault.position.line lexemes).map Lexeme.token) := by
  have hitems : readItems (linesOf (endOf lexemes) lexemes) = .error fault := by
    rw [parseMusic, hlex] at h
    dsimp only at h
    rw [LexemeCursor.items_start] at h
    split at h <;> cases h
    assumption
  obtain ⟨line, hmem, hfault⟩ := mem_of_readItems hitems
  obtain ⟨hpieces, rfl⟩ := pieces_of_lex hlex
  obtain ⟨hsubset, hends⟩ := stop_of_mem_linesOf hpieces hmem
  rcases Line.item?_blames hfault with ⟨lexeme, hl, hposition⟩ | ⟨hstop, hunfinished⟩
  · exact .inl ⟨lexeme, hsubset hl, hposition.symm⟩
  · rcases hends with ⟨lexeme, hl, hposition⟩ | ⟨hend, hsuffix, l, _, hline⟩
    · exact .inl ⟨lexeme, hl, hposition.trans hstop.symm⟩
    · right
      have hne := (Line.item?_fault_position hfault).1
      have hposition := hstop.trans hend
      rw [← hline] at hne hsuffix
      rw [hposition, line_endOf hne hsuffix, hline]
      exact ⟨rfl, hunfinished⟩

/-! ## Lines outside the block -/

/-- There are two marks, and `k` is from the first of them to the second. -/
structure Enclosed (marks : List Bool) (k : Nat) : Prop where
  two : 2 ≤ marks.count true
  opened : 1 ≤ (marks.take (k + 1)).count true
  unclosed : (marks.take k).count true ≤ 1

theorem count_take_le (marks : List Bool) {i j : Nat} (h : i ≤ j) :
    (marks.take i).count true ≤ (marks.take j).count true :=
  ((List.take_prefix_take_left h).sublist).count_le true

theorem count_take_of_append {marks front back : List Bool} (h : marks = front ++ back) {i : Nat}
    (hi : i = front.length) : (marks.take i).count true = front.count true := by
  rw [h, hi, List.take_left]

/-- How many marks there are before a place tells where the place is. -/
theorem enclosed_iff {before inside after : List Bool} {k : Nat} (hbefore : before.count true = 0)
    (hinside : inside.count true = 0) :
    Enclosed (before ++ true :: (inside ++ true :: after)) k ↔
      before.length ≤ k ∧ k ≤ before.length + inside.length + 1 := by
  generalize hmarks : before ++ true :: (inside ++ true :: after) = marks
  have hunopened := count_take_of_append hmarks.symm rfl
  have hopened : (marks.take (before.length + 1)).count true = 1 := by
    rw [@count_take_of_append marks (before ++ [true]) (inside ++ true :: after)
      (by simp [← hmarks]) _ (by simp)]
    simp [hbefore]
  have hunclosed : (marks.take (before.length + inside.length + 1)).count true = 1 := by
    rw [@count_take_of_append marks (before ++ true :: inside) (true :: after)
      (by simp [← hmarks]) _ (by simp; omega)]
    simp [hbefore, hinside]
  have hclosed : (marks.take (before.length + inside.length + 2)).count true = 2 := by
    rw [@count_take_of_append marks (before ++ true :: (inside ++ [true])) after
      (by simp [← hmarks]) _ (by simp; omega)]
    simp [hbefore, hinside]
  -- The count grows with the place, and these four values of it fix the rest.
  constructor
  · rintro ⟨_, hopen, hopen'⟩
    constructor
    · by_contra hk
      have hle := count_take_le marks (show k + 1 ≤ before.length by omega)
      omega
    · by_contra hk
      have hle := count_take_le marks (show before.length + inside.length + 2 ≤ k by omega)
      omega
  · rintro ⟨hfirst, hlast⟩
    have htwo := (List.take_sublist (before.length + inside.length + 2) marks).count_le true
    have hopen := count_take_le marks (show before.length + 1 ≤ k + 1 by omega)
    have hopen' := count_take_le marks hlast
    exact ⟨by omega, by omega, by omega⟩

namespace FrontMatter

/-- Line `k`, counted from zero, is one of the block, its delimiters included. -/
def InBlock (lines : List (List Char)) (k : Nat) : Prop :=
  Enclosed (lines.map isDelimiter) k

theorem count_map_isDelimiter {part : List (List Char)}
    (h : ∀ line ∈ part, isDelimiter line = false) : (part.map isDelimiter).count true = 0 := by
  rw [List.count_eq_zero, List.mem_map]
  rintro ⟨line, hl, htrue⟩
  rw [h line hl] at htrue
  cases htrue

theorem isDelimiter_of_dropWhile {lines : List (List Char)}
    (h : lines.dropWhile (!isDelimiter ·) = []) : ∀ line ∈ lines, isDelimiter line = false := by
  intro line hl
  simpa using List.dropWhile_eq_nil_iff.mp h line hl

theorem count_of_cut?_none {lines : List (List Char)} (h : cut? lines = none) :
    (lines.map isDelimiter).count true ≤ 1 := by
  rw [cut?] at h
  split at h
  · rename_i hnone
    rw [count_map_isDelimiter (isDelimiter_of_dropWhile hnone)]
    exact Nat.zero_le 1
  · rename_i opening rest hopening
    split at h
    · rename_i hnone
      obtain ⟨hlines, hbefore, hdelimits⟩ := eq_of_dropWhile hopening
      rw [hlines, List.map_append, List.map_cons, List.count_append, hdelimits,
        List.count_cons_self, count_map_isDelimiter hbefore,
        count_map_isDelimiter (isDelimiter_of_dropWhile hnone)]
    · cases h

theorem map_isDelimiter_split (source : List Char) :
    ∃ n, (Text.split source).map isDelimiter =
      (Text.lines source).map isDelimiter ++ List.replicate n false :=
  map_ofStretches fun line _ => isDelimiter_dropReturn line

theorem not_inBlock_of_cut?_none {source : List Char} (h : cut? (Text.lines source) = none)
    (k : Nat) : ¬ InBlock (Text.split source) k := by
  intro hblock
  obtain ⟨n, hmarks⟩ := map_isDelimiter_split source
  have htwo := hblock.two
  have hcount := count_of_cut?_none h
  rw [hmarks, List.count_append, List.count_replicate] at htwo
  exact absurd (htwo.trans (by simpa using hcount)) (by decide)

theorem inBlock_of_cut? {source : List Char} {cut : Cut} (h : cut? (Text.lines source) = some cut)
    {k : Nat} : InBlock (Text.split source) k ↔
      cut.before.length ≤ k ∧ k ≤ cut.before.length + cut.inside.length + 1 := by
  obtain ⟨opening, closing, hlines, hbefore, hopening, hinside, hclosing⟩ := eq_of_cut? h
  obtain ⟨n, hmarks⟩ := map_isDelimiter_split source
  have hparts : (Text.split source).map isDelimiter =
      cut.before.map isDelimiter ++ true :: (cut.inside.map isDelimiter ++
        true :: (cut.after.map isDelimiter ++ List.replicate n false)) := by
    rw [hmarks, hlines]
    simp [hopening, hclosing]
  rw [InBlock, hparts, enclosed_iff (count_map_isDelimiter hbefore) (count_map_isDelimiter hinside),
    List.length_map, List.length_map]

/-- The music has the lines of the file under their own numbers, and empty ones for the block. -/
theorem getElem?_split_music {source : List Char} {cut : Cut}
    (h : cut? (Text.lines source) = some cut) (k : Nat) :
    (InBlock (Text.split source) k → (Text.split cut.music)[k]? = some []) ∧
      (¬ InBlock (Text.split source) k → (Text.split cut.music)[k]? = (Text.lines source)[k]?) := by
  obtain ⟨opening, closing, hlines, _⟩ := eq_of_cut? h
  rw [inBlock_of_cut? h, split_music_of_cut? h, hlines]
  constructor
  · rintro ⟨hfirst, hlast⟩
    rw [List.getElem?_append_left (by simp; omega), List.getElem?_append_right hfirst,
      List.getElem?_replicate_of_lt (by omega)]
  · intro houtside
    by_cases habove : k < cut.before.length
    · rw [List.getElem?_append_left (by simp; omega), List.getElem?_append_left habove,
        List.getElem?_append_left habove]
    · -- Below the block the lines that it replaces are as many as the empty ones.
      have hblock : cut.before ++ opening :: (cut.inside ++ closing :: cut.after) =
          (cut.before ++ opening :: (cut.inside ++ [closing])) ++ cut.after := by
        simp
      rw [hblock, List.getElem?_append_right (by simp; omega),
        List.getElem?_append_right (by simp; omega)]
      simp

/-- A line of the music is read as the line of the source with its number, and a line of the block
as an empty one. -/
theorem reading_of_music {source : List Char} {k : Nat} {r : Reading}
    (h : ((Text.split (divide source).2).map reading)[k]? = some r) :
    InBlock (Text.split source) k ∧ r = .tells none ∨
      ¬ InBlock (Text.split source) k ∧ ((Text.split source).map reading)[k]? = some r := by
  rw [divide] at h
  split at h
  · rename_i hcut
    exact .inr ⟨not_inBlock_of_cut?_none hcut k, h⟩
  · rename_i cut hcut
    obtain ⟨hinside, houtside⟩ := getElem?_split_music hcut k
    rw [List.getElem?_map] at h
    by_cases hblock : InBlock (Text.split source) k
    · rw [hinside hblock, Option.map_some, reading_nil] at h
      exact .inl ⟨hblock, (Option.some.inj h).symm⟩
    · obtain ⟨n, hsource⟩ := @map_reading_ofStretches (Text.split source)
        fun line => Text.not_mem_of_mem_split
      rw [houtside hblock, ← List.getElem?_map] at h
      refine .inr ⟨hblock, ?_⟩
      rw [hsource, ← Text.lines, List.getElem?_append_left (List.getElem?_eq_some_iff.mp h).1, h]

end FrontMatter

/-! ## The first bad line -/

/-- The line says no item, and it is not blank. -/
def Bad (line : List Char) : Prop :=
  ∀ item, ¬ LineReads line item

/-- Line `k`, counted from zero, is the first bad one outside the block. -/
structure FirstBad (lines : List (List Char)) (k : Nat) : Prop where
  bad : ∃ line, lines[k]? = some line ∧ Bad line
  outside : ¬ FrontMatter.InBlock lines k
  first : ∀ j < k, ∀ line, lines[j]? = some line → ¬ FrontMatter.InBlock lines j → ¬ Bad line

theorem bad_iff {line : List Char} (h : '\n' ∉ line) :
    Bad line ↔ ∀ item, reading line ≠ .tells item :=
  forall_congr' fun _ => not_congr (lineReads_iff_tells h)

theorem firstBad_of_parseMusic {metadata : Metadata} {source : List Char} {lexemes : List Lexeme}
    {fault : Fault} (hlex : lex (FrontMatter.divide source).2 = .ok lexemes)
    (h : parseMusic metadata (FrontMatter.divide source).2 = .error fault) :
    ∃ k, fault.position.line = k + 1 ∧ FirstBad (Text.split source) k := by
  have hfirst := firstFault_of_parseMusic h
  have hlexes := not_stuck_iff.mpr (pieces_of_lex hlex).1
  generalize hline : fault.position.line = l, fault.complaint = complaint at hfirst
  cases hfirst with
  | @stuck before after c hreadings _ =>
    exact absurd rfl (hlexes (.stuck c) (by rw [hreadings]; simp) c)
  | @faulty before after complaint hreadings _ hbefore =>
    have hfaulty : ((Text.split (FrontMatter.divide source).2).map reading)[before.length]? =
        some (.faulty complaint) := by
      rw [hreadings]
      simp
    rcases FrontMatter.reading_of_music hfaulty with ⟨_, hblank⟩ | ⟨houtside, hsource⟩
    · cases hblank
    · refine ⟨before.length, rfl, ?_, houtside, fun j hj line hl hout => ?_⟩
      · rw [List.getElem?_map, Option.map_eq_some_iff] at hsource
        obtain ⟨line, hl, hreading⟩ := hsource
        have hunbroken := Text.not_mem_of_mem_split (List.mem_of_getElem? hl)
        exact ⟨line, hl, (bad_iff hunbroken).mpr (by simp [hreading])⟩
      · obtain ⟨item, htells⟩ := hbefore _ (List.getElem_mem hj)
        have htold : ((Text.split (FrontMatter.divide source).2).map reading)[j]? =
            some (.tells item) := by
          rw [hreadings, List.getElem?_append_left hj, List.getElem?_eq_getElem hj, htells]
        rcases FrontMatter.reading_of_music htold with ⟨hblock, _⟩ | ⟨_, hsource⟩
        · exact absurd hblock hout
        · rw [List.getElem?_map, hl] at hsource
          have hunbroken := Text.not_mem_of_mem_split (List.mem_of_getElem? hl)
          exact fun hbad => (bad_iff hunbroken).mp hbad item (Option.some.inj hsource)

theorem parseMusic_of_parse [FrontMatter.Reader] {source : String} {metadata : Metadata}
    {error : Error} (hmetadata : metadataOf (FrontMatter.divide source.toList).1 = .ok metadata)
    (h : parse source = .error error) :
    ∃ fault, error = .parse fault ∧
      parseMusic metadata (FrontMatter.divide source.toList).2 = .error fault := by
  simp only [parse, hmetadata] at h
  split at h <;> cases h
  rename_i fault hfault
  exact ⟨fault, rfl, hfault⟩

/-- A source with metadata that can be read and music that lexes, if it cannot be read, is blamed on
its first bad line outside the block, by the number that the line has in the source. The complaint
is placed at a token of that line or at the break after it; only if the tokens run out before the
line is complete is it placed after the last of them. -/
theorem parse_error_firstBad [FrontMatter.Reader] {source : String} {metadata : Metadata}
    {lexemes : List Lexeme}
    {error : Error} (hmetadata : metadataOf (FrontMatter.divide source.toList).1 = .ok metadata)
    (htokens : tokenize source = .ok lexemes) (h : parse source = .error error) :
    ∃ fault k, error = .parse fault ∧ fault.position.line = k + 1 ∧
      FirstBad (Text.split source.toList) k ∧
      ((∃ lexeme ∈ lexemes, lexeme.position = fault.position) ∨
        fault.position = endOf lexemes ∧
          Unfinished ((onLine fault.position.line lexemes).map Lexeme.token)) := by
  obtain ⟨fault, rfl, hmusic⟩ := parseMusic_of_parse hmetadata h
  obtain ⟨k, hline, hfirst⟩ := firstBad_of_parseMusic htokens hmusic
  exact ⟨fault, k, rfl, hline, hfirst, blamed_of_parseMusic htokens hmusic⟩

/-- A blank stands before the octave on the last line. -/
def strayOctave : String := "---\ntitle: Vals\n---\n// uno\nDo 4"

def strayOctaveLexemes : List Lexeme :=
  [⟨.newline, ['\n'], ⟨1, 1⟩⟩, ⟨.newline, ['\n'], ⟨2, 1⟩⟩, ⟨.newline, ['\n'], ⟨3, 1⟩⟩,
    ⟨.newline, ['\n'], ⟨4, 7⟩⟩, ⟨.word "Do", ['D', 'o'], ⟨5, 1⟩⟩, ⟨.blank, [' '], ⟨5, 3⟩⟩,
    ⟨.number 4, ['4'], ⟨5, 4⟩⟩]

theorem parse_error_firstBad_strayOctave :
    metadataOf (FrontMatter.divide strayOctave.toList).1 = .ok { title := some "Vals" } ∧
      tokenize strayOctave = .ok strayOctaveLexemes ∧
      parse strayOctave = .error (.parse ⟨⟨5, 3⟩, .expectedOctave "Do"⟩) ∧
      FirstBad (Text.split strayOctave.toList) 4 := by
  have hmetadata : metadataOf (FrontMatter.divide strayOctave.toList).1 =
      .ok { title := some "Vals" } := by
    decide +kernel
  have htokens : tokenize strayOctave = .ok strayOctaveLexemes := by decide +kernel
  have hparse : parse strayOctave = .error (.parse ⟨⟨5, 3⟩, .expectedOctave "Do"⟩) := by
    decide +kernel
  obtain ⟨_, k, ⟨⟩, hline, hfirst, _⟩ := parse_error_firstBad hmetadata htokens hparse
  cases hline
  exact ⟨hmetadata, htokens, hparse, hfirst⟩

end Solfege
