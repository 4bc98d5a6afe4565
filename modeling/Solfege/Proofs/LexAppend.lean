import Solfege.Proofs.LineGrammar
import Solfege.Proofs.Lossless

/-!
# Solfege.Proofs.LexAppend

Two texts with a line break between them. Nothing that the lexer has begun goes on behind a break,
so the second text is lexed as it would be alone, only further down.

* `Position.down`        — as many lines further down, in the same column.
* `locate_down`          — lexemes that are located further down are the same ones, moved.
* `locate_append_newline` — the lexemes above, the break, and those below.
* `lex_append_newline`   — the answer for both texts, from the answers for each.
-/

namespace Solfege

def Position.down (n : Nat) (p : Position) : Position :=
  { p with line := p.line + n }

def Lexeme.down (n : Nat) (lexeme : Lexeme) : Lexeme :=
  { lexeme with position := lexeme.position.down n }

def Fault.down (n : Nat) (fault : Fault) : Fault :=
  { fault with position := fault.position.down n }

/-- A text has one line more than breaks. -/
def lineCount (text : String) : Nat :=
  text.toList.count '\n' + 1

/-! ## Further down -/

theorem Position.next_down (n : Nat) (p : Position) (c : Char) :
    (p.down n).next c = (p.next c).down n := by
  by_cases h : c = '\n'
  · simp only [next, down, if_pos h]
    congr 1
    omega
  · simp only [next, down, if_neg h]

theorem Position.after_down (n : Nat) (p : Position) (text : List Char) :
    (p.down n).after text = (p.after text).down n := by
  induction text generalizing p with
  | nil => rfl
  | cons c rest ih => rw [after_cons, after_cons, next_down, ih]

theorem locate_down (n : Nat) (p : Position) (found : List Piece) :
    locate (p.down n) found = (locate p found).map (Lexeme.down n) := by
  induction found generalizing p with
  | nil => rfl
  | cons piece rest ih =>
    cases piece with
    | token token source =>
      rw [locate, locate, Position.after_down, ih, List.map_cons]
      rfl
    | comment source => rw [locate, locate, Position.after_down, ih]

/-- A break ends the column that the text above has reached, and only its lines are left to
count. -/
theorem start_after_newline (above : String) :
    Position.start.after (above.toList ++ ['\n']) = Position.start.down (lineCount above) := by
  rw [start_after, positionOf_append_char, Position.next, if_pos rfl]
  rfl

/-! ## Above and below a break -/

variable {above below : String}

theorem locate_append_newline (h : (pieces above.toList).2 = []) :
    locate .start (pieces (above.toList ++ '\n' :: below.toList)).1 =
      locate .start (pieces above.toList).1 ++ ⟨.newline, ['\n'], positionOf above.toList⟩ ::
        (locate .start (pieces below.toList).1).map (Lexeme.down (lineCount above)) := by
  rw [locate_break h, start_after_newline, locate_down, start_after]

theorem lex_of_stuck {text left : List Char} {c : Char} (h : (pieces text).2 = c :: left) :
    lex text = .error
      ⟨Position.start.after ((pieces text).1.flatMap Piece.source), .unexpectedCharacter c⟩ := by
  simp only [lex, h]

/-- What has been read up to a character below the break that starts no piece. -/
theorem start_after_pieces (h : (pieces above.toList).2 = []) :
    Position.start.after
        ((pieces (above.toList ++ '\n' :: below.toList)).1.flatMap Piece.source) =
      (Position.start.after ((pieces below.toList).1.flatMap Piece.source)).down
        (lineCount above) := by
  have hread : (pieces (above.toList ++ '\n' :: below.toList)).1.flatMap Piece.source =
      above.toList ++ ['\n'] ++ (pieces below.toList).1.flatMap Piece.source := by
    rw [pieces_append_newline h, List.flatMap_append, source_pieces_of_lex h, List.flatMap_cons,
      Piece.source, List.append_assoc]
  rw [hread, Position.after_append, start_after_newline, Position.after_down]

/-- A text, a break and another text. If the first does not lex, that is the answer. If it does,
its tokens are followed by the break, where the text ends, and by those of the second text, or its
complaint, as many lines further down as the first text has. -/
theorem lex_append_newline (above below : String) :
    lex (above ++ "\n" ++ below).toList =
      match lex above.toList, lex below.toList with
      | .error fault, _ => .error fault
      | .ok _, .error fault => .error (fault.down (lineCount above))
      | .ok first, .ok second =>
        .ok (first ++ ⟨.newline, ['\n'], positionOf above.toList⟩ ::
          second.map (Lexeme.down (lineCount above))) := by
  have htext : (above ++ "\n" ++ below).toList = above.toList ++ '\n' :: below.toList := by
    simp
  rw [htext]
  cases habove : (pieces above.toList).2 with
  | cons c left =>
    have hstop : (pieces above.toList).2 ≠ [] := by simp [habove]
    have hwhole := pieces_append_newline_of_stop hstop below.toList
    have hleft : (pieces (above.toList ++ '\n' :: below.toList)).2 =
        c :: (left ++ '\n' :: below.toList) := by
      rw [hwhole, habove]
      rfl
    rw [lex_of_stuck hleft, lex_of_stuck habove, hwhole]
  | nil =>
    have hwhole := pieces_append_newline habove below.toList
    have hleft : (pieces (above.toList ++ '\n' :: below.toList)).2 = (pieces below.toList).2 := by
      rw [hwhole]
    cases hbelow : (pieces below.toList).2 with
    | cons c left =>
      rw [lex_of_stuck (hleft.trans hbelow), lex_of_pieces habove, lex_of_stuck hbelow,
        start_after_pieces habove]
      rfl
    | nil =>
      rw [lex_of_pieces (hleft.trans hbelow), lex_of_pieces habove, lex_of_pieces hbelow,
        locate_append_newline habove]

/-- Two slashes with a break between them start no comment. -/
example : lex "2/\n/4".toList = .ok [⟨.number 2, ['2'], ⟨1, 1⟩⟩, ⟨.slash, ['/'], ⟨1, 2⟩⟩,
    ⟨.newline, ['\n'], ⟨1, 3⟩⟩, ⟨.slash, ['/'], ⟨2, 1⟩⟩, ⟨.number 4, ['4'], ⟨2, 2⟩⟩] := by
  decide +kernel

end Solfege
