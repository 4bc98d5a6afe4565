import Mathlib.Logic.Function.Iterate
import Solfege.Proofs.Lossless

/-!
# Solfege.Proofs.ByteCursor

Reading a text with a cursor that counts bytes.

The cursor moves by characters and keeps, beside line and column, the number of bytes it has passed;
words and numbers are cut out of the text between two such numbers, which is possible only where
characters meet.

* `Cursor.advance_between` — one character further, all four fields keep in step.
* `slice?_append`          — what lies between two such numbers can be cut out.
* `Cursor.round?_between`  — one round of the cursor takes the lexer's next piece.
* `lex_lossless`           — the cut of a text, and the cursor that finds it.
-/

namespace Solfege

/-- The text between two byte offsets, if each is where a character ends or the text starts. -/
def slice? (text : String) (first last : Nat) : Option String :=
  if h : String.Pos.Raw.IsValid text ⟨first⟩ ∧ String.Pos.Raw.IsValid text ⟨last⟩ ∧
      first ≤ last then
    some (text.extract ⟨⟨first⟩, h.1⟩ ⟨⟨last⟩, h.2.1⟩)
  else none

/-- A place in a text: the characters to come, where the next of them stands, and the number of
bytes before it. -/
structure Cursor where
  text : String
  rest : List Char
  position : Position
  offset : Nat

namespace Cursor

def start (text : String) : Cursor :=
  ⟨text, text.toList, .start, 0⟩

def advance (k : Cursor) : Cursor :=
  match k.rest with
  | [] => k
  | c :: rest =>
    { k with rest := rest, position := k.position.next c, offset := k.offset + c.utf8Size }

def skip (p : Char → Bool) (k : Cursor) : Cursor :=
  match h : k.rest with
  | [] => k
  | c :: _ =>
    have : k.advance.rest.length < k.rest.length := by simp [advance, h]
    if p c then skip p k.advance else k
termination_by k.rest.length

def atComment? (k : Cursor) : Option Bool :=
  (slice? k.text k.offset k.text.utf8ByteSize).map fun ahead => ['/', '/'] <+: ahead.toList

inductive Round where
  | done
  | passed (after : Cursor)
  | read (lexeme : Lexeme) (after : Cursor)
  | refused (fault : Fault)

/-- A token made of the text up to a later cursor. -/
def take? (k after : Cursor) (token : List Char → Token) : Option Round :=
  (slice? k.text k.offset after.offset).map fun source =>
    .read ⟨token source.toList, source.toList, k.position⟩ after

/-- One round, or nothing if it were to cut the text inside a character. -/
def round? (k : Cursor) : Option Round :=
  match k.rest with
  | [] => some .done
  | c :: _ =>
    k.atComment?.bind fun comment =>
      if comment then some (.passed (k.skip (· ≠ '\n')))
      else if c = '/' then some (.read ⟨.slash, [c], k.position⟩ k.advance)
      else if c = '\n' then some (.read ⟨.newline, [c], k.position⟩ k.advance)
      else if Piece.isBlank c then some (.read ⟨.blank, [c], k.position⟩ k.advance)
      else if c.isDigit then k.take? (k.skip Char.isDigit) Token.ofDigits
      else if Text.isAlphabetic c then k.take? (k.skip Piece.isWordChar) Token.ofWord
      else some (.refused ⟨k.position, .unexpectedCharacter c⟩)

/-- Round after round, the cursor comes to this answer. -/
inductive Reads : Cursor → Except Fault (List Lexeme) → Prop where
  | done {k : Cursor} : k.round? = some .done → Reads k (.ok [])
  | passed {k after : Cursor} {answer : Except Fault (List Lexeme)} :
      k.round? = some (.passed after) → Reads after answer → Reads k answer
  | read {k after : Cursor} {lexeme : Lexeme} {answer : Except Fault (List Lexeme)} :
      k.round? = some (.read lexeme after) → Reads after answer →
      Reads k (answer.map (lexeme :: ·))
  | refused {k : Cursor} {fault : Fault} : k.round? = some (.refused fault) →
      Reads k (.error fault)

theorem Reads.unique {k : Cursor} {first second : Except Fault (List Lexeme)} (h : Reads k first)
    (hsecond : Reads k second) : first = second := by
  induction h generalizing second with
  | done hround =>
    cases hsecond with
    | done => rfl
    | passed h | read h | refused h =>
      rw [hround] at h
      cases h
  | passed hround _ ih =>
    cases hsecond with
    | passed h hrest =>
      rw [hround] at h
      cases h
      exact ih hrest
    | done h | read h | refused h =>
      rw [hround] at h
      cases h
  | read hround _ ih =>
    cases hsecond with
    | read h hrest =>
      rw [hround] at h
      cases h
      rw [ih hrest]
    | done h | passed h | refused h =>
      rw [hround] at h
      cases h
  | refused hround =>
    cases hsecond with
    | refused h =>
      rw [hround] at h
      cases h
      rfl
    | done h | passed h | read h =>
      rw [hround] at h
      cases h

/-! ## Between what has been read and what has not -/

def between (read rest : List Char) : Cursor :=
  ⟨String.ofList (read ++ rest), rest, positionOf read, (String.ofList read).utf8ByteSize⟩

theorem start_eq (text : String) : start text = between [] text.toList := by
  simp [start, between]
  rfl

theorem advance_between (read : List Char) (c : Char) (rest : List Char) :
    (between read (c :: rest)).advance = between (read ++ [c]) rest := by
  have hsize : (String.ofList (read ++ [c])).utf8ByteSize =
      (String.ofList read).utf8ByteSize + c.utf8Size := by
    simp
  simp only [advance, between, hsize, positionOf_append_char, List.append_assoc]
  rfl

theorem skip_between (p : Char → Bool) (read rest : List Char) :
    (between read rest).skip p = between (read ++ rest.takeWhile p) (rest.dropWhile p) := by
  induction rest generalizing read with
  | nil =>
    rw [skip]
    simp [between]
  | cons c rest ih =>
    have hstep : (between read (c :: rest)).skip p =
        if p c then (between read (c :: rest)).advance.skip p else between read (c :: rest) := by
      rw [skip]
      rfl
    rw [hstep, advance_between, ih]
    by_cases hc : p c = true
    · simp [hc]
    · simp [hc]

end Cursor

theorem slice?_append (before source after : String) :
    slice? (before ++ (source ++ after)) before.utf8ByteSize (before ++ source).utf8ByteSize =
      some source := by
  have hfirst : String.Pos.Raw.IsValid (before ++ (source ++ after)) ⟨before.utf8ByteSize⟩ :=
    String.Pos.Raw.isValid_iff_exists_append.mpr ⟨before, source ++ after, rfl, rfl⟩
  have hlast : String.Pos.Raw.IsValid (before ++ (source ++ after))
      ⟨(before ++ source).utf8ByteSize⟩ :=
    String.Pos.Raw.isValid_iff_exists_append.mpr
      ⟨before ++ source, after, String.append_assoc.symm, rfl⟩
  have hle : before.utf8ByteSize ≤ (before ++ source).utf8ByteSize := by
    rw [String.utf8ByteSize_append]
    exact Nat.le_add_right _ _
  have hbytes : (before ++ (source ++ after)).toByteArray.extract before.utf8ByteSize
      (before ++ source).utf8ByteSize = source.toByteArray := by
    rw [String.toByteArray_append, String.toByteArray_append, String.utf8ByteSize_append,
      ← String.size_toByteArray, ← String.size_toByteArray]
    have hskip := ByteArray.extract_append_size_add (a := before.toByteArray)
      (b := source.toByteArray ++ after.toByteArray) (i := 0) (j := source.toByteArray.size)
    rwa [Nat.add_zero, ByteArray.extract_append_eq_left rfl] at hskip
  rw [slice?, dif_pos ⟨hfirst, hlast, hle⟩]
  exact congrArg some (String.toByteArray_inj.mp hbytes)

namespace Cursor

/-! ## One round -/

theorem atComment?_between (read rest : List Char) :
    (between read rest).atComment? = some (decide (['/', '/'] <+: rest)) := by
  have hslice := slice?_append (String.ofList read) (String.ofList rest) ""
  rw [String.append_empty, ← String.ofList_append] at hslice
  rw [atComment?, between, hslice, Option.map_some, String.toList_ofList]

/-- What a round comes to if the text goes on with this piece. -/
def roundOf (read : List Char) : Piece × List Char → Round
  | (.comment source, rest) => .passed (between (read ++ source) rest)
  | (.token token source, rest) =>
    .read ⟨token, source, positionOf read⟩ (between (read ++ source) rest)

/-- The run of a class is cut out whole. -/
theorem take?_skip {p : Char → Bool} {c : Char} (h : p c = true) (read rest : List Char)
    (token : List Char → Token) :
    (between read (c :: rest)).take? ((between read (c :: rest)).skip p) token =
      some (roundOf read (.token (token (c :: rest.takeWhile p)) (c :: rest.takeWhile p),
        rest.dropWhile p)) := by
  have hslice := slice?_append (String.ofList read) (String.ofList (c :: rest.takeWhile p))
    (String.ofList (rest.dropWhile p))
  rw [← String.ofList_append, ← String.ofList_append, ← String.ofList_append, List.cons_append,
    List.takeWhile_append_dropWhile] at hslice
  rw [skip_between, List.takeWhile_cons_of_pos h, List.dropWhile_cons_of_pos h]
  simp only [take?, between, hslice, Option.map_some, String.toList_ofList, roundOf]

theorem slashes_iff {c : Char} {rest : List Char} :
    ['/', '/'] <+: c :: rest ↔ c = '/' ∧ rest.head? = some '/' := by
  rw [List.cons_prefix_cons, eq_comm]
  cases rest with
  | nil => simp
  | cons d tail => simp [eq_comm]

theorem round?_nil (read : List Char) : (between read []).round? = some .done := rfl

/-- One round takes the lexer's next piece, or refuses where there is none. -/
theorem round?_between (read : List Char) (c : Char) (rest : List Char) :
    (between read (c :: rest)).round? =
      some (match Piece.next? (c :: rest) with
        | some found => roundOf read found
        | none => .refused ⟨positionOf read, .unexpectedCharacter c⟩) := by
  have hrest : (between read (c :: rest)).rest = c :: rest := rfl
  have hposition : (between read (c :: rest)).position = positionOf read := rfl
  simp only [round?, hrest, hposition, atComment?_between, Option.bind_some, decide_eq_true_eq,
    slashes_iff, advance_between, Piece.next?]
  by_cases hslash : c = '/'
  · subst hslash
    by_cases hhead : rest.head? = some '/'
    · simp [hhead, roundOf, skip_between]
    · simp [hhead, roundOf]
  · by_cases hnewline : c = '\n'
    · simp [hnewline, roundOf]
    · by_cases hblank : Piece.isBlank c = true
      · simp [hslash, hnewline, hblank, roundOf]
      · by_cases hdigit : c.isDigit = true
        · simp [hslash, hnewline, hblank, hdigit, take?_skip hdigit]
        · by_cases hletter : Text.isAlphabetic c = true
          · have hword : Piece.isWordChar c = true := Piece.isWordChar_iff.mpr (.inl hletter)
            simp [hslash, hnewline, hblank, hdigit, hletter, take?_skip hword]
          · simp [hslash, hnewline, hblank, hdigit, hletter]

/-! ## All rounds -/

/-- The pieces of a text, one round for each and one more at the end. -/
theorem reads_between (read rest : List Char) :
    Reads (between read rest) (answer read (pieces rest).1 (pieces rest).2) := by
  induction rest using pieceInduction generalizing read with
  | stop rest hn =>
    rw [pieces_of_next?_none hn]
    cases rest with
    | nil => exact .done (round?_nil read)
    | cons c rest =>
      have hround := round?_between read c rest
      rw [hn] at hround
      rw [answer_nil_cons]
      exact .refused hround
  | step text piece rest hn ih =>
    obtain ⟨c, tail, rfl⟩ : ∃ c tail, text = c :: tail := by
      cases text with
      | nil => cases hn
      | cons c tail => exact ⟨c, tail, rfl⟩
    have hround := round?_between read c tail
    rw [hn] at hround
    rw [pieces_of_next? hn]
    have hmore := ih (read ++ piece.source)
    cases piece with
    | comment source =>
      rw [answer_comment]
      exact .passed hround hmore
    | token token source =>
      rw [answer_token]
      exact .read hround hmore

theorem reads_start_iff {text : String} {found : Except Fault (List Lexeme)} :
    Reads (start text) found ↔ found = lex text.toList := by
  have hreads : Reads (start text) (lex text.toList) := by
    rw [start_eq, lex_eq_answer (cut_pieces text.toList)]
    exact reads_between [] text.toList
  constructor
  · exact fun h => h.unique hreads
  · rintro rfl
    exact hreads

theorem iterate_advance (n : Nat) (read rest : List Char) :
    advance^[n] (between read rest) = between (read ++ rest.take n) (rest.drop n) := by
  induction n generalizing read rest with
  | zero => simp
  | succ n ih =>
    rw [Function.iterate_succ_apply]
    cases rest with
    | nil =>
      have hend : advance (between read []) = between read [] := rfl
      rw [hend, ih]
      simp
    | cons c rest =>
      rw [advance_between, ih]
      simp

theorem iterate_advance_start (n : Nat) (text : String) :
    advance^[n] (start text) = between (text.toList.take n) (text.toList.drop n) := by
  rw [start_eq, iterate_advance, List.nil_append]

end Cursor

theorem slice?_offsets (text : String) {m n : Nat} (h : m ≤ n) :
    slice? text (Cursor.advance^[m] (.start text)).offset
        (Cursor.advance^[n] (.start text)).offset =
      some (String.ofList ((text.toList.take n).drop m)) := by
  have hslice := slice?_append (String.ofList (text.toList.take m))
    (String.ofList ((text.toList.take n).drop m)) (String.ofList (text.toList.drop n))
  have hread : text.toList.take m ++ (text.toList.take n).drop m = text.toList.take n := by
    have hfirst : (text.toList.take n).take m = text.toList.take m := by
      rw [List.take_take, Nat.min_eq_left h]
    rw [← hfirst, List.take_append_drop]
  rw [← String.append_assoc, ← String.ofList_append, ← String.ofList_append, hread,
    List.take_append_drop, String.ofList_toList] at hslice
  rwa [Cursor.iterate_advance_start, Cursor.iterate_advance_start]

/-- A text is the row of its pieces, each a comment, a mark, or a word or number as long as it can
be, up to its end or to a character that starts none. The lexer's answer is that of this cut, with
the tokens, or the complaint, where counting breaks and characters puts them. A cursor that counts
bytes comes to the same answer: after any number of characters its offset is the size of these, and
what lies between two such offsets can be cut out. -/
theorem lex_lossless (text : String) :
    (∃ found left, Cut text.toList found left) ∧
      (∀ found left, Cut text.toList found left → lex text.toList = answer [] found left) ∧
      (∀ found, Cursor.Reads (.start text) found ↔ found = lex text.toList) ∧
      ∀ n, (Cursor.advance^[n] (.start text)).rest = text.toList.drop n ∧
        (Cursor.advance^[n] (.start text)).offset =
          (String.ofList (text.toList.take n)).utf8ByteSize ∧
        ∀ m ≤ n, slice? text (Cursor.advance^[m] (.start text)).offset
            (Cursor.advance^[n] (.start text)).offset =
          some (String.ofList ((text.toList.take n).drop m)) := by
  refine ⟨⟨_, _, cut_pieces text.toList⟩, fun _ _ => lex_eq_answer,
    fun _ => Cursor.reads_start_iff, fun n => ⟨?_, ?_, fun m hm => slice?_offsets text hm⟩⟩
  · rw [Cursor.iterate_advance_start]
    rfl
  · rw [Cursor.iterate_advance_start]
    rfl

def accented : String := "Sí4//ñ"

def accentedPieces : List Piece :=
  [.token (.word "Sí") ['S', 'í'], .token (.number 4) ['4'], .comment ['/', '/', 'ñ']]

/-- The second letter takes two bytes and one column. -/
theorem lex_lossless_accented :
    Cut accented.toList accentedPieces [] ∧
      lex accented.toList =
        .ok [⟨.word "Sí", ['S', 'í'], ⟨1, 1⟩⟩, ⟨.number 4, ['4'], ⟨1, 3⟩⟩] ∧
      slice? accented (Cursor.advance^[1] (.start accented)).offset
        (Cursor.advance^[2] (.start accented)).offset = some "í" := by
  have hpieces : pieces accented.toList = (accentedPieces, []) := by decide +kernel
  have hcut : Cut accented.toList accentedPieces [] := by
    have hfound := cut_pieces accented.toList
    rwa [hpieces] at hfound
  obtain ⟨_, hlex, _, hcursor⟩ := lex_lossless accented
  exact ⟨hcut, hlex _ _ hcut, (hcursor 2).2.2 1 (by decide)⟩

end Solfege
