import Solfege.Error
import Solfege.Text.Alphabetic

/-!
# Solfege.Token.Lexer

Cutting a text into lexemes.

A text is a row of pieces, each a token or a comment, and the pieces put together are the text:
nothing is lost. A comment runs from `//` to the end of its line. A piece is as long as it can
be: a word takes every letter and `#` that follows, a number every digit.

* `Piece.next?` — the first piece of a text and what follows it.
* `pieces`      — all pieces, and the rest of the text where no piece can start.
* `lex`         — the lexemes, or the fault at the first character that starts no piece.
-/

namespace Solfege

namespace Token

def lowerLetter (c : Char) : Char :=
  if c = 'Á' then 'á' else c.toLower

/-- The long keywords may be written in any case; the marks `M` and `m` differ by case alone. -/
def keyword? (word : List Char) : Option Token :=
  if word = ['M'] then some (.mode .major)
  else if word = ['m'] then some (.mode .minor)
  else
    match String.ofList (word.map lowerLetter) with
    | "tempo" => some .tempo
    | "compas" => some .meter
    | "compás" => some .meter
    | "tonalidad" => some .key
    | "mayor" => some (.mode .major)
    | "menor" => some (.mode .minor)
    | "blanca" => some (.duration .half)
    | "negra" => some (.duration .quarter)
    | "corchea" => some (.duration .eighth)
    | "semicorchea" => some (.duration .sixteenth)
    | _ => none

def ofWord (word : List Char) : Token :=
  (keyword? word).getD (.word (String.ofList word))

def maxNumber : Nat := 4294967295

/-- The number that a run of digits writes, or the largest there is. -/
def ofDigits (digits : List Char) : Token :=
  .number (min maxNumber (Decimal.Literal.digitsValue 0 digits))

end Token

/-- A stretch of a source: a token or a comment, with its characters. -/
inductive Piece where
  | token (token : Token) (source : List Char)
  | comment (source : List Char)
  deriving DecidableEq, Repr

namespace Piece

def source : Piece → List Char
  | .token _ source => source
  | .comment source => source

def isWordChar (c : Char) : Bool :=
  Text.isAlphabetic c || c = '#'

def isBlank (c : Char) : Bool :=
  c = ' ' || c = '\t' || c = '\r'

def next? : List Char → Option (Piece × List Char)
  | [] => none
  | c :: rest =>
    if c = '/' then
      if rest.head? = some '/' then
        some (.comment (c :: rest.takeWhile (· ≠ '\n')), rest.dropWhile (· ≠ '\n'))
      else some (.token .slash [c], rest)
    else if c = '\n' then some (.token .newline [c], rest)
    else if isBlank c then some (.token .blank [c], rest)
    else if c.isDigit then
      let digits := c :: rest.takeWhile Char.isDigit
      some (.token (.ofDigits digits) digits, rest.dropWhile Char.isDigit)
    else if Text.isAlphabetic c then
      let word := c :: rest.takeWhile isWordChar
      some (.token (.ofWord word) word, rest.dropWhile isWordChar)
    else none

theorem source_append_of_next? {text rest : List Char} {piece : Piece}
    (h : next? text = some (piece, rest)) : piece.source ++ rest = text := by
  cases text with
  | nil => simp [next?] at h
  | cons c tail =>
    simp only [next?] at h
    split at h
    · split at h <;> cases h
      · exact congrArg (c :: ·) List.takeWhile_append_dropWhile
      · rfl
    · split at h
      · cases h; rfl
      · split at h
        · cases h; rfl
        · split at h
          · cases h; exact congrArg (c :: ·) List.takeWhile_append_dropWhile
          · split at h
            · cases h; exact congrArg (c :: ·) List.takeWhile_append_dropWhile
            · cases h

theorem source_ne_nil_of_next? {text rest : List Char} {piece : Piece}
    (h : next? text = some (piece, rest)) : piece.source ≠ [] := by
  cases text with
  | nil => simp [next?] at h
  | cons c tail =>
    simp only [next?] at h
    split at h
    · split at h <;> cases h <;> simp [source]
    · split at h
      · cases h; simp [source]
      · split at h
        · cases h; simp [source]
        · split at h
          · cases h; simp [source]
          · split at h
            · cases h; simp [source]
            · cases h

theorem length_lt_of_next? {text rest : List Char} {piece : Piece}
    (h : next? text = some (piece, rest)) : rest.length < text.length := by
  have hpos := List.length_pos_iff.mpr (source_ne_nil_of_next? h)
  rw [← source_append_of_next? h, List.length_append]
  omega

end Piece

/-- The pieces of a text up to the first character that starts none, and the text from there. -/
def pieces (text : List Char) : List Piece × List Char :=
  match h : Piece.next? text with
  | none => ([], text)
  | some (piece, rest) =>
    have := Piece.length_lt_of_next? h
    let (more, left) := pieces rest
    (piece :: more, left)
termination_by text.length

/-- The tokens among the pieces, each at the position that the texts before it lead to. -/
def locate : Position → List Piece → List Lexeme
  | _, [] => []
  | p, .token token source :: rest => ⟨token, source, p⟩ :: locate (p.after source) rest
  | p, .comment source :: rest => locate (p.after source) rest

def lex (text : List Char) : Except Fault (List Lexeme) :=
  let (found, left) := pieces text
  match left with
  | [] => .ok (locate .start found)
  | c :: _ =>
    let read := found.flatMap Piece.source
    .error ⟨Position.start.after read, .unexpectedCharacter c⟩

end Solfege
