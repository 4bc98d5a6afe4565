/-!
# Solfege.Yaml.Cell

The characters of a YAML text with their places.

* `Cell`     — a character with its line, column and offset, all counted from zero. Columns count
  characters and offsets octets.
* `cells?`   — the cells of a text whose characters may all stand in YAML. The breaks `\r`,
  `\r\n` and next-line become `\n`; the line and paragraph separators are breaks of their own.
* `endLine?` — the text after a line of which nothing but blanks and a comment is left.
* `Gap`      — a run of blanks and breaks inside a scalar, and what folding makes of it.
-/

namespace Solfege
namespace Yaml

structure Cell where
  char : Char
  line : Nat
  column : Nat
  offset : Nat

def isPrintable (c : Char) : Bool :=
  let n := c.toNat
  n == 0x9 || n == 0xa || n == 0xd || (0x20 ≤ n && n ≤ 0x7e) || n == 0x85 ||
    (0xa0 ≤ n && n ≤ 0xd7ff) || (0xe000 ≤ n && n ≤ 0xfffd) || 0x10000 ≤ n

def lineSeparator : Char := Char.ofNat 0x2028

def paragraphSeparator : Char := Char.ofNat 0x2029

def nextLine : Char := Char.ofNat 0x85

/-- The mark of the byte order, which takes no part in a line that it starts. -/
def orderMark : Char := Char.ofNat 0xfeff

/-- The text with its ordinary breaks written as `\n`. -/
def unifyBreaks : List Char → List Char
  | [] => []
  | '\r' :: '\n' :: rest => '\n' :: unifyBreaks rest
  | c :: rest => (if c = '\r' ∨ c = nextLine then '\n' else c) :: unifyBreaks rest

def isBreak (c : Char) : Bool :=
  c = '\n' || c = lineSeparator || c = paragraphSeparator

def isBlank (c : Char) : Bool :=
  c = ' ' || c = '\t'

/-- Each character at the place that those before it lead to. -/
def place (line column offset : Nat) : List Char → List Cell
  | [] => []
  | c :: rest =>
    ⟨c, line, column, offset⟩ ::
      if isBreak c then place (line + 1) 0 (offset + c.utf8Size) rest
      else place line (column + 1) (offset + c.utf8Size) rest

def cells? (text : List Char) : Option (List Cell) :=
  if text.all isPrintable then some (place 0 0 0 (unifyBreaks text)) else none

namespace Cell

def blank (cell : Cell) : Bool := isBlank cell.char

def breaks (cell : Cell) : Bool := isBreak cell.char

def space (cell : Cell) : Bool := cell.blank || cell.breaks

end Cell

def atSpace : List Cell → Bool
  | [] => true
  | cell :: _ => cell.space

def startsWith (expected : List Char) (text : List Cell) : Bool :=
  (text.take expected.length).map Cell.char == expected

/-- The marks that end a document stand at the start of a line, before a space. -/
def atDocumentMark (text : List Cell) : Bool :=
  match text with
  | [] => false
  | cell :: _ =>
    cell.column == 0 && (startsWith ['-', '-', '-'] text || startsWith ['.', '.', '.'] text) &&
      atSpace (text.drop 3)

theorem length_dropWhile_le (p : Cell → Bool) (text : List Cell) :
    (text.dropWhile p).length ≤ text.length :=
  (List.dropWhile_suffix p).length_le

theorem length_dropWhile_lt {p : Cell → Bool} {text : List Cell}
    (h : (text.takeWhile p).isEmpty = false) : (text.dropWhile p).length < text.length := by
  have parts : (text.takeWhile p ++ text.dropWhile p).length = text.length := by
    rw [List.takeWhile_append_dropWhile]
  rw [List.length_append] at parts
  have : 0 < (text.takeWhile p).length := by
    cases found : text.takeWhile p with
    | nil =>
      rw [found] at h
      cases h
    | cons => exact Nat.succ_pos _
  omega

/-- The text after the byte order mark that a line may start with. -/
def skipOrderMark : List Cell → List Cell
  | [] => []
  | cell :: rest => if cell.column == 0 && cell.char = orderMark then rest else cell :: rest

theorem length_skipOrderMark_le (text : List Cell) :
    (skipOrderMark text).length ≤ text.length := by
  cases text with
  | nil => exact Nat.le_refl _
  | cons cell rest =>
    simp only [skipOrderMark]
    split
    · exact Nat.le_succ _
    · exact Nat.le_refl _

def skipComment (text : List Cell) : List Cell :=
  if startsWith ['#'] text then text.dropWhile (!·.breaks) else text

theorem length_skipComment_le (text : List Cell) : (skipComment text).length ≤ text.length := by
  simp only [skipComment]
  split
  · exact length_dropWhile_le _ _
  · exact Nat.le_refl _

/-- Nothing but blanks and a comment may stand on the rest of the line. -/
def endLine? (text : List Cell) : Option (List Cell) :=
  match skipComment (text.dropWhile Cell.blank) with
  | [] => some []
  | cell :: rest => if cell.breaks then some rest else none

/-- The blanks before the first break of a run, and the breaks. -/
structure Gap where
  blanks : List Char
  breaks : List Char

namespace Gap

def ofRun (run : List Cell) : Gap :=
  ⟨(run.takeWhile Cell.blank).map Cell.char, (run.filter Cell.breaks).map Cell.char⟩

/-- One ordinary break becomes a space, and of several all but the first stay. -/
def fold (gap : Gap) : List Char :=
  match gap.breaks with
  | [] => gap.blanks
  | ['\n'] => [' ']
  | '\n' :: more => more
  | all => all

end Gap

end Yaml
end Solfege
