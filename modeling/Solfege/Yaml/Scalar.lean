import Solfege.Text.Hexadecimal
import Solfege.Yaml.Cell

/-!
# Solfege.Yaml.Scalar

The three ways to write a scalar, each as a function from the text at the scalar to its value and
the text after it; `none` is a text that is no scalar.

* `plain?`  — without marks, over one line or more.
* `quoted?` — between single or double quotes.
* `block?`  — the lines under `|` or `>`.
-/

namespace Solfege
namespace Yaml

inductive Style where
  | plain
  | quoted
  | literal
  | folded
  deriving DecidableEq, Repr

namespace Plain

def isFlowMark (c : Char) : Bool :=
  c = ',' || c = '[' || c = ']' || c = '{' || c = '}'

/-- A colon ends a plain scalar before a space. -/
def atEnd (flow : Bool) (c : Char) (rest : List Cell) : Bool :=
  (c = ':' && atSpace rest) || (flow && isFlowMark c)

/-- Inside brackets a colon may not touch a bracket, a comma or a question mark. -/
def misplacedColon (flow : Bool) (c : Char) (rest : List Cell) : Bool :=
  flow && c = ':' &&
    match rest with
    | [] => false
    | next :: _ => isFlowMark next.char || next.char = '?'

def chunk? (flow : Bool) : List Cell → Option (List Char × List Cell)
  | [] => some ([], [])
  | cell :: rest =>
    if cell.space then some ([], cell :: rest)
    else if misplacedColon flow cell.char rest then none
    else if atEnd flow cell.char rest then some ([], cell :: rest)
    else
      match chunk? flow rest with
      | none => none
      | some (chars, left) => some (cell.char :: chars, left)

theorem length_chunk? {flow : Bool} {text rest : List Cell} {chars : List Char}
    (h : chunk? flow text = some (chars, rest)) : rest.length ≤ text.length := by
  induction text generalizing chars with
  | nil =>
    cases h
    exact Nat.le_refl _
  | cons cell tail ih =>
    simp only [chunk?] at h
    split at h
    · cases h
      exact Nat.le_refl _
    · split at h
      · cases h
      · split at h
        · cases h
          exact Nat.le_refl _
        · split at h
          · cases h
          · next found =>
            cases h
            exact Nat.le_succ_of_le (ih found)

/-- A tab may not stand in for the indentation of a line. -/
def badIndent (indent : Nat) (run : List Cell) : Bool :=
  (run.dropWhile Cell.blank).any fun cell => cell.char = '\t' && cell.column < indent

def outdented (flow : Bool) (indent : Nat) : List Cell → Bool
  | [] => false
  | cell :: _ => !flow && cell.column < indent

end Plain

structure PlainEnd where
  chars : List Char
  /-- The scalar was followed by a line break, which is read with it. -/
  broken : Bool
  rest : List Cell

/-- Chunks with the folded gaps between them. `gap` is the text of the gap before the next chunk,
and `broken` tells whether it holds a break. -/
def plainFrom? (flow : Bool) (indent : Nat) (gap : List Char) (broken : Bool) (text : List Cell) :
    Option PlainEnd :=
  if atDocumentMark text || startsWith ['#'] text then some ⟨[], broken, text⟩
  else
    match hchunk : Plain.chunk? flow text with
    | none => none
    | some ([], rest) => some ⟨[], broken, rest⟩
    | some (chars, rest) =>
      let run := rest.takeWhile Cell.space
      let left := rest.dropWhile Cell.space
      match hrun : run.isEmpty with
      | true => some ⟨gap ++ chars, false, left⟩
      | false =>
        if Plain.badIndent indent run then none
        else
          let next := Gap.ofRun run
          let nextBroken := !next.breaks.isEmpty
          if Plain.outdented flow indent left then some ⟨gap ++ chars, nextBroken, left⟩
          else
            have : left.length < text.length :=
              Nat.lt_of_lt_of_le (length_dropWhile_lt hrun) (Plain.length_chunk? hchunk)
            match plainFrom? flow indent next.fold nextBroken left with
            | none => none
            | some more => some { more with chars := gap ++ chars ++ more.chars }
termination_by text.length
decreasing_by assumption

def plain? (flow : Bool) (indent : Nat) (text : List Cell) : Option PlainEnd :=
  plainFrom? flow indent [] false text

namespace Quoted

def charOfCode? (code : Nat) : Option Char :=
  if code.isValidChar then some (Char.ofNat code) else none

def simpleEscape? : Char → Option Char
  | '0' => some (Char.ofNat 0x0)
  | 'a' => some (Char.ofNat 0x7)
  | 'b' => some (Char.ofNat 0x8)
  | 't' => some '\t'
  | '\t' => some '\t'
  | 'n' => some '\n'
  | 'v' => some (Char.ofNat 0xb)
  | 'f' => some (Char.ofNat 0xc)
  | 'r' => some '\r'
  | 'e' => some (Char.ofNat 0x1b)
  | ' ' => some ' '
  | '"' => some '"'
  | '/' => some '/'
  | '\\' => some '\\'
  | 'N' => some nextLine
  | '_' => some (Char.ofNat 0xa0)
  | 'L' => some lineSeparator
  | 'P' => some paragraphSeparator
  | _ => none

def codeLength? : Char → Option Nat
  | 'x' => some 2
  | 'u' => some 4
  | 'U' => some 8
  | _ => none

def escape? (letter : Char) (rest : List Cell) : Option (Char × List Cell) :=
  match codeLength? letter with
  | none => (simpleEscape? letter).map fun c => (c, rest)
  | some count =>
    let digits := (rest.take count).map Cell.char
    if digits.length = count then
      match (Text.hexValue? digits).bind charOfCode? with
      | none => none
      | some c => some (c, rest.drop count)
    else none

theorem length_escape? {letter c : Char} {rest left : List Cell}
    (h : escape? letter rest = some (c, left)) : left.length ≤ rest.length := by
  simp only [escape?] at h
  split at h
  · rw [Option.map_eq_some_iff] at h
    obtain ⟨_, _, h⟩ := h
    cases h
    exact Nat.le_refl _
  · split at h
    · split at h
      · cases h
      · cases h
        rw [List.length_drop]
        exact Nat.sub_le _ _
    · cases h

end Quoted

/-- The rest of a quoted scalar. A gap is folded; a break after a backslash is left out with the
blanks after it. A single quote is doubled between single quotes and escaped between double. -/
def quoted? (double : Bool) (text : List Cell) : Option (List Char × List Cell) :=
  match text with
  | [] => none
  | cell :: rest =>
    if atDocumentMark (cell :: rest) then none
    else if cell.space then
      have := length_dropWhile_le Cell.space rest
      match quoted? double (rest.dropWhile Cell.space) with
      | none => none
      | some (chars, left) =>
        some ((Gap.ofRun (cell :: rest.takeWhile Cell.space)).fold ++ chars, left)
    else if double && cell.char = '"' then some ([], rest)
    else if !double && cell.char = '\'' then
      match rest with
      | [] => some ([], [])
      | next :: after =>
        if next.char = '\'' then
          match quoted? double after with
          | none => none
          | some (chars, left) => some ('\'' :: chars, left)
        else some ([], next :: after)
    else if double && cell.char = '\\' then
      match rest with
      | [] => none
      | next :: after =>
        if next.breaks then
          have := length_dropWhile_le Cell.space after
          match quoted? double (after.dropWhile Cell.space) with
          | none => none
          | some (chars, left) =>
            some ((Gap.ofRun (after.takeWhile Cell.space)).breaks ++ chars, left)
        else
          match h : Quoted.escape? next.char after with
          | none => none
          | some (c, more) =>
            have := Quoted.length_escape? h
            match quoted? double more with
            | none => none
            | some (chars, left) => some (c :: chars, left)
    else
      match quoted? double rest with
      | none => none
      | some (chars, left) => some (cell.char :: chars, left)
termination_by text.length
decreasing_by all_goals simp_wf <;> omega

namespace Block

inductive Chomp where
  | strip
  | clip
  | keep
  deriving DecidableEq, Repr

structure Header where
  chomp : Chomp
  /-- Indentation beyond the surrounding block, where the header gives it. -/
  increment : Option Nat

def chomp? : Char → Option Chomp
  | '-' => some .strip
  | '+' => some .keep
  | _ => none

def increment? (c : Char) : Option Nat :=
  if c.isDigit ∧ c ≠ '0' then some (c.toNat - '0'.toNat) else none

def header? (text : List Cell) : Option (Header × List Cell) :=
  let first := text.head?.map Cell.char
  let second := (text.drop 1).head?.map Cell.char
  match first.bind chomp?, first.bind increment? with
  | some chomp, _ =>
    match second.bind increment? with
    | some n => some (⟨chomp, some n⟩, text.drop 2)
    | none => if second = some '0' then none else some (⟨chomp, none⟩, text.drop 1)
  | none, some n =>
    match second.bind chomp? with
    | some chomp => some (⟨chomp, some n⟩, text.drop 2)
    | none => some (⟨.clip, some n⟩, text.drop 1)
  | none, none => if first = some '0' then none else some (⟨.clip, none⟩, text)

/-- Indentation and empty lines: their breaks, the deepest column they reach, and the text after
them. An indentation of zero is one still to be found. A tab is no indentation. -/
def breaks? (indent deepest : Nat) : List Cell → Option (List Char × Nat × List Cell)
  | [] => some ([], deepest, [])
  | cell :: rest =>
    let inside := indent == 0 || cell.column < indent
    if inside && cell.char = ' ' then breaks? indent deepest rest
    else
      let deepest := max deepest cell.column
      if inside && cell.char = '\t' then none
      else if cell.breaks then
        match breaks? indent deepest rest with
        | none => none
        | some (found, deepest, left) => some (cell.char :: found, deepest, left)
      else some ([], deepest, cell :: rest)

theorem length_breaks? {indent deepest reached : Nat} {text left : List Cell} {found : List Char}
    (h : breaks? indent deepest text = some (found, reached, left)) :
    left.length ≤ text.length := by
  induction text generalizing deepest found with
  | nil =>
    cases h
    exact Nat.le_refl _
  | cons cell tail ih =>
    simp only [breaks?] at h
    split at h
    · exact Nat.le_succ_of_le (ih h)
    · split at h
      · cases h
      · split at h
        · split at h
          · cases h
          · next more =>
            cases h
            exact Nat.le_succ_of_le (ih more)
        · cases h
          exact Nat.le_refl _

/-- Where the last line ended: its break, whether it started with a blank, and the empty lines
after it. -/
structure Between where
  ending : List Char
  startsBlank : Bool
  empty : List Char

/-- The text between two lines. Only a folded break between two lines that start with no blank
gives way, to a space if no empty line follows it. -/
def Between.text (between : Between) (fold nextBlank : Bool) : List Char :=
  if fold && between.ending = ['\n'] && !between.startsBlank && !nextBlank then
    (if between.empty.isEmpty then [' '] else []) ++ between.empty
  else between.ending ++ between.empty

def Between.final (between : Between) (chomp : Chomp) : List Char :=
  (if chomp = .strip then [] else between.ending) ++
    (if chomp = .keep then between.empty else [])

def lines? (fold : Bool) (indent : Nat) (chomp : Chomp) (between : Between) (text : List Cell) :
    Option (List Char × List Cell) :=
  match text with
  | [] => some (between.final chomp, [])
  | cell :: rest =>
    if cell.column ≠ indent then some (between.final chomp, cell :: rest)
    else
      let line := (cell :: rest).takeWhile (!·.breaks)
      let after := (cell :: rest).dropWhile (!·.breaks)
      match h : breaks? indent 0 (after.drop 1) with
      | none => none
      | some (empty, _, left) =>
        have : left.length < (cell :: rest).length := by
          have hbreaks := length_breaks? h
          have hline := length_dropWhile_le (!·.breaks) (cell :: rest)
          rw [List.length_drop] at hbreaks
          change left.length ≤ ((cell :: rest).dropWhile (!·.breaks)).length - 1 at hbreaks
          simp only [List.length_cons] at hline ⊢
          omega
        match lines? fold indent chomp ⟨(after.take 1).map Cell.char, cell.blank, empty⟩ left with
        | none => none
        | some (chars, left) =>
          some (between.text fold cell.blank ++ line.map Cell.char ++ chars, left)
termination_by text.length
decreasing_by assumption

end Block

/-- The scalar under a block mark. `outer` is the column of the block around it, if there is one.
The indentation is that of the header, or that of the first line with text, but at least one more
than the block around. -/
def block? (fold : Bool) (outer : Option Nat) (text : List Cell) :
    Option (List Char × List Cell) :=
  match Block.header? text with
  | none => none
  | some (header, rest) =>
    match endLine? rest with
    | none => none
    | some rest =>
      let given :=
        match header.increment, outer with
        | none, _ => 0
        | some n, none => n
        | some n, some column => column + n
      match Block.breaks? given 0 rest with
      | none => none
      | some (empty, deepest, left) =>
        let least :=
          match outer with
          | none => 1
          | some column => column + 1
        let indent := if given = 0 then max deepest least else given
        Block.lines? fold indent header.chomp ⟨[], false, empty⟩ left

end Yaml
end Solfege
