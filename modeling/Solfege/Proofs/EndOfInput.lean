import Solfege.Proofs.InPlace

/-!
# Solfege.Proofs.EndOfInput

Where a complaint is placed when no token is left.

A complaint about a token is placed where the token starts, so one that is placed at no token was
made after the last of them. The reader then counts one column on from the start of the last token,
whatever its length. That is just past a token of one character and inside any longer one.

* `Lexeme.pastEnd`     — the place after the last character of a lexeme.
* `parse_error_atEnd`  — the complaint is just past the last token exactly if the token has one
  character.
* `parse_error_inside` — a complaint in the middle of a number.
-/

namespace Solfege

/-- On the line of the lexeme, in the column after its last character. -/
def Lexeme.pastEnd (lexeme : Lexeme) : Position :=
  ⟨lexeme.position.line, lexeme.position.column + lexeme.source.length⟩

section Last

variable {lexemes : List Lexeme} {last : Lexeme}

theorem endOf_eq (h : lexemes.getLast? = some last) :
    endOf lexemes = ⟨last.position.line, last.position.column + 1⟩ := by
  rw [endOf, h]

theorem endOf_eq_pastEnd_iff (h : lexemes.getLast? = some last) :
    endOf lexemes = last.pastEnd ↔ last.source.length = 1 := by
  rw [endOf_eq h, Lexeme.pastEnd, Position.mk.injEq]
  omega

theorem covers_endOf_iff (h : lexemes.getLast? = some last) :
    last.Covers (endOf lexemes) ↔ 1 < last.source.length := by
  rw [endOf_eq h, Lexeme.Covers]
  dsimp only
  omega

end Last

theorem parseMusic_of_fault [FrontMatter.Reader] {source : String} {fault : Fault}
    (h : parse source = .error (.parse fault)) :
    ∃ metadata, parseMusic metadata (FrontMatter.divide source.toList).2 = .error fault := by
  cases hmetadata : metadataOf (FrontMatter.divide source.toList).1 with
  | error metadataFault =>
    simp only [parse, hmetadata] at h
    cases h
  | ok metadata =>
    obtain ⟨found, heq, hmusic⟩ := parseMusic_of_parse hmetadata h
    cases heq
    exact ⟨metadata, hmusic⟩

/-- A text without tokens is read, so a complaint has tokens before it. -/
theorem ne_nil_of_parseMusic {metadata : Metadata} {music : List Char} {lexemes : List Lexeme}
    {fault : Fault} (hlex : lex music = .ok lexemes)
    (h : parseMusic metadata music = .error fault) : lexemes ≠ [] := by
  rintro rfl
  have hitems : readItems (linesOf (endOf []) []) = .ok [] := rfl
  simp only [parseMusic, hlex, LexemeCursor.items_start, hitems] at h
  cases h

/-- A source that lexes and is refused with a complaint that is placed at none of its tokens breaks
off on its last line. The complaint is one column after the start of the last token: just past the
token exactly if it has one character, and inside it otherwise. -/
theorem parse_error_atEnd [FrontMatter.Reader] {source : String} {lexemes : List Lexeme}
    {fault : Fault}
    (htokens : tokenize source = .ok lexemes) (h : parse source = .error (.parse fault))
    (hend : ∀ lexeme ∈ lexemes, lexeme.position ≠ fault.position) :
    ∃ last, lexemes.getLast? = some last ∧
      Unfinished ((onLine last.position.line lexemes).map Lexeme.token) ∧
      fault.position = ⟨last.position.line, last.position.column + 1⟩ ∧
      (fault.position = last.pastEnd ↔ last.source.length = 1) ∧
      (last.Covers fault.position ↔ 1 < last.source.length) := by
  obtain ⟨metadata, hmusic⟩ := parseMusic_of_fault h
  have hne := ne_nil_of_parseMusic htokens hmusic
  have hlast := List.getLast?_eq_some_getLast hne
  rcases blamed_of_parseMusic htokens hmusic with ⟨lexeme, hmem, hposition⟩ | ⟨hposition, hline⟩
  · exact absurd hposition (hend lexeme hmem)
  · rw [hposition] at hline ⊢
    rw [endOf_eq hlast] at hline
    exact ⟨_, hlast, hline, endOf_eq hlast, endOf_eq_pastEnd_iff hlast, covers_endOf_iff hlast⟩

/-- A numerator of one digit, and no slash after it. -/
theorem parse_error_atEnd_oneDigit :
    tokenize "Compas 7" = .ok [⟨.meter, "Compas".toList, ⟨1, 1⟩⟩, ⟨.blank, [' '], ⟨1, 7⟩⟩,
        ⟨.number 7, ['7'], ⟨1, 8⟩⟩] ∧
      parse "Compas 7" = .error (.parse ⟨⟨1, 9⟩, .expectedSlash⟩) ∧
      Lexeme.pastEnd ⟨.number 7, ['7'], ⟨1, 8⟩⟩ = ⟨1, 9⟩ := by
  have htokens : tokenize "Compas 7" = .ok [⟨.meter, "Compas".toList, ⟨1, 1⟩⟩,
      ⟨.blank, [' '], ⟨1, 7⟩⟩, ⟨.number 7, ['7'], ⟨1, 8⟩⟩] := by
    decide +kernel
  have hparse : parse "Compas 7" = .error (.parse ⟨⟨1, 9⟩, .expectedSlash⟩) := by
    decide +kernel
  obtain ⟨_, ⟨⟩, _, _, hpast, _⟩ := parse_error_atEnd htokens hparse (by decide)
  exact ⟨htokens, hparse, (hpast.mpr rfl).symm⟩

/-- With two digits the complaint is at the second of them, although no token is left. -/
theorem parse_error_inside :
    tokenize "Compas 12" = .ok [⟨.meter, "Compas".toList, ⟨1, 1⟩⟩, ⟨.blank, [' '], ⟨1, 7⟩⟩,
        ⟨.number 12, ['1', '2'], ⟨1, 8⟩⟩] ∧
      parse "Compas 12" = .error (.parse ⟨⟨1, 9⟩, .expectedSlash⟩) ∧
      Lexeme.pastEnd ⟨.number 12, ['1', '2'], ⟨1, 8⟩⟩ ≠ ⟨1, 9⟩ := by
  decide +kernel

end Solfege
