import Solfege.Proofs.Readings
import Solfege.Proofs.Written

/-!
# Solfege.Proofs.LineEndings

A return before each break of a source changes nothing but columns.

A source with front matter loses its returns when it is cut into lines, so that what is read is the
same text. A source without any keeps them, and then each line ends in a blank; but a text is read
by what its lines come to (`parseMusic_congr`), and a line comes to the same with a blank at its
end.

* `divide_withReturns` — the same content, and music that is read alike.
* `parse_withReturns`  — the same program, or the same complaint about the same line.
-/

namespace Solfege

/-! ## Lines with returns -/

namespace Text

/-- The text with a return before each break. -/
def withReturns (text : List Char) : List Char :=
  text.flatMap fun c => if c = '\n' then ['\r', '\n'] else [c]

theorem withReturns_of_no_newline {text : List Char} (h : '\n' ∉ text) :
    withReturns text = text := by
  induction text with
  | nil => rfl
  | cons c rest ih =>
    rw [List.mem_cons, not_or] at h
    have hrest := ih h.2
    rw [withReturns] at hrest ⊢
    rw [List.flatMap_cons, hrest, if_neg (Ne.symm h.1), List.singleton_append]

theorem withReturns_append_newline {first : List Char} (h : '\n' ∉ first) (rest : List Char) :
    withReturns (first ++ '\n' :: rest) = (first ++ ['\r']) ++ '\n' :: withReturns rest := by
  have hfirst := withReturns_of_no_newline h
  rw [withReturns] at hfirst ⊢
  rw [List.flatMap_append, hfirst, List.flatMap_cons, if_pos rfl, List.append_assoc]
  rfl

theorem split_ne_nil (text : List Char) : split text ≠ [] := by
  induction text using lineInduction with
  | last text hn => simp [split_of_no_newline hn]
  | line first rest hf _ => simp [split_append_newline hf]

theorem lines_append_newline {first : List Char} (h : '\n' ∉ first) (rest : List Char) :
    lines (first ++ '\n' :: rest) = dropReturn first :: lines rest := by
  rw [lines, split_append_newline h]
  exact ofStretches_append [first] (split_ne_nil rest)

theorem dropReturn_of_no_return {line : List Char} (h : '\r' ∉ line) : dropReturn line = line := by
  rw [dropReturn, if_neg fun hlast => h (List.mem_of_getLast? hlast)]

theorem lines_withReturns {text : List Char} (h : '\r' ∉ text) :
    lines (withReturns text) = lines text := by
  induction text using lineInduction with
  | last text hn => rw [withReturns_of_no_newline hn]
  | line first rest hf ih =>
    have hfirst : '\r' ∉ first := fun hm => h (List.mem_append_left _ hm)
    have hrest : '\r' ∉ rest :=
      fun hm => h (List.mem_append_right _ (List.mem_cons_of_mem _ hm))
    have hreturn : dropReturn (first ++ ['\r']) = first := by simp [dropReturn]
    rw [withReturns_append_newline hf, lines_append_newline (by simp [hf]), hreturn, ih hrest,
      lines_append_newline hf, dropReturn_of_no_return hfirst]

end Text

theorem map_reading_withReturns (text : List Char) :
    (Text.split (Text.withReturns text)).map reading = (Text.split text).map reading := by
  induction text using Text.lineInduction with
  | last text hn => rw [Text.withReturns_of_no_newline hn]
  | line first rest hf ih =>
    rw [Text.withReturns_append_newline hf, Text.split_append_newline (by simp [hf]),
      Text.split_append_newline hf, List.map_cons, List.map_cons, ih, reading_append_return hf]

/-! ## What is read -/

/-- What a text is read as depends on what its lines come to. -/
theorem parseMusic_congr {text other : List Char}
    (h : (Text.split other).map reading = (Text.split text).map reading) (metadata : Metadata) :
    (∀ program, parseMusic metadata other = .ok program ↔
      parseMusic metadata text = .ok program) ∧
    ∀ fault, parseMusic metadata text = .error fault →
      ∃ column, parseMusic metadata other =
        .error ⟨⟨fault.position.line, column⟩, fault.complaint⟩ := by
  constructor
  · intro program
    rw [parseMusic_eq_ok_iff, parseMusic_eq_ok_iff, h]
  · intro fault hfault
    have hfirst := firstFault_of_parseMusic hfault
    rw [← h] at hfirst
    exact parseMusic_of_firstFault hfirst metadata

theorem FrontMatter.divide_withReturns {source : List Char} (h : '\r' ∉ source) :
    (divide (Text.withReturns source)).1 = (divide source).1 ∧
      (Text.split (divide (Text.withReturns source)).2).map reading =
        (Text.split (divide source).2).map reading := by
  rw [divide, divide, Text.lines_withReturns h]
  split
  · exact ⟨rfl, map_reading_withReturns source⟩
  · exact ⟨rfl, rfl⟩

/-- The source with a return before each break. -/
def withReturns (source : String) : String :=
  String.ofList (Text.withReturns source.toList)

/-- Two sources with the same content and with lines that come to the same. -/
theorem parse_congr [FrontMatter.Reader] {source other : String}
    (hcontent : (FrontMatter.divide other.toList).1 = (FrontMatter.divide source.toList).1)
    (hreadings : (Text.split (FrontMatter.divide other.toList).2).map reading =
      (Text.split (FrontMatter.divide source.toList).2).map reading) :
    (∀ program, parse other = .ok program ↔ parse source = .ok program) ∧
    (∀ fault, parse other = .error (.metadata fault) ↔
      parse source = .error (.metadata fault)) ∧
    ∀ fault, parse source = .error (.parse fault) →
      ∃ column, parse other =
        .error (.parse ⟨⟨fault.position.line, column⟩, fault.complaint⟩) := by
  cases hmetadata : metadataOf (FrontMatter.divide source.toList).1 with
  | error fault => simp [parse, hcontent, hmetadata]
  | ok metadata =>
    obtain ⟨hok, herror⟩ := parseMusic_congr hreadings metadata
    simp only [parse, hcontent, hmetadata]
    cases hmusic : parseMusic metadata (FrontMatter.divide source.toList).2 with
    | ok program =>
      rw [(hok program).mpr hmusic]
      simp
    | error fault =>
      obtain ⟨column, hother⟩ := herror fault hmusic
      rw [hother]
      simp

theorem compile_eq_ok [FrontMatter.Reader] {source abc : String} :
    compile source = .ok abc ↔ ∃ program, accept source = .ok program ∧ program.toAbc = abc := by
  rw [compile]
  cases accept source <;> simp [Except.map]

/-- A source without returns is read alike when each of its breaks gets one: with the same content
of its front matter, as the same program, with the same fault in its metadata, or with the same
complaint about the same line. So it compiles to the same text. -/
theorem parse_withReturns [FrontMatter.Reader] {source : String} (h : '\r' ∉ source.toList) :
    (FrontMatter.divide (withReturns source).toList).1 = (FrontMatter.divide source.toList).1 ∧
    (∀ program, parse (withReturns source) = .ok program ↔ parse source = .ok program) ∧
    (∀ fault, parse (withReturns source) = .error (.metadata fault) ↔
      parse source = .error (.metadata fault)) ∧
    (∀ fault, parse source = .error (.parse fault) →
      ∃ column, parse (withReturns source) =
        .error (.parse ⟨⟨fault.position.line, column⟩, fault.complaint⟩)) ∧
    ∀ abc, compile (withReturns source) = .ok abc ↔ compile source = .ok abc := by
  obtain ⟨hcontent, hreadings⟩ := FrontMatter.divide_withReturns h
  rw [← @String.toList_ofList (Text.withReturns source.toList), ← withReturns]
    at hcontent hreadings
  obtain ⟨hok, hmetadata, hparse⟩ := parse_congr hcontent hreadings
  refine ⟨hcontent, hok, hmetadata, hparse, fun abc => ?_⟩
  simp only [compile_eq_ok, accept_eq_ok, hok]

/-- The note has no duration, and the complaint is placed at the break, after the return. -/
theorem parse_withReturns_unfinished :
    '\r' ∉ "Tempo 60\nDo4\n".toList ∧
      withReturns "Tempo 60\nDo4\n" = "Tempo 60\r\nDo4\r\n" ∧
      parse "Tempo 60\nDo4\n" = .error (.parse ⟨⟨2, 4⟩, .expectedDuration "Do" 4⟩) ∧
      ∃ column, parse "Tempo 60\r\nDo4\r\n" =
        .error (.parse ⟨⟨2, column⟩, .expectedDuration "Do" 4⟩) := by
  have hplain : '\r' ∉ "Tempo 60\nDo4\n".toList := by decide
  have hreturns : withReturns "Tempo 60\nDo4\n" = "Tempo 60\r\nDo4\r\n" := by decide +kernel
  have hfault : parse "Tempo 60\nDo4\n" =
      .error (.parse ⟨⟨2, 4⟩, .expectedDuration "Do" 4⟩) := by
    decide +kernel
  obtain ⟨_, _, _, hparse, _⟩ := parse_withReturns hplain
  rw [hreturns] at hparse
  exact ⟨hplain, hreturns, hfault, hparse _ hfault⟩

/-- The return takes up a column. -/
example : parse "Tempo 60\r\nDo4\r\n" =
    .error (.parse ⟨⟨2, 5⟩, .expectedDuration "Do" 4⟩) := by
  decide +kernel

end Solfege
