import Solfege.Yaml.Directive
import Solfege.Yaml.Scalar

/-!
# Solfege.Yaml.Layout

A YAML text as a row of marks in which indentation has become brackets.

A block collection opens at a column deeper than the one around it and closes before the first
mark that stands further left. A key need not be marked: whatever could be one is remembered as a
candidate, and when a colon follows on the same line the mark of a key is put in before it, with
the opening of a mapping if its column is a new one.

* `Mark`    — a piece of structure or a scalar.
* `Layout`  — the marks so far, the open blocks and the candidates.
* `marks?`  — the marks of a text, `none` if the text has no such reading.
-/

namespace Solfege
namespace Yaml

inductive Mark where
  | directive (directive : Directive)
  | documentStart
  | documentEnd
  | openSequence
  | openMapping
  | close
  | openFlowSequence
  | closeFlowSequence
  | openFlowMapping
  | closeFlowMapping
  | entry
  | flowEntry
  | key
  | value
  | alias (name : List Char)
  | anchor (name : List Char)
  | tag (tag : WrittenTag)
  | scalar (style : Style) (text : List Char)
  deriving DecidableEq, Repr

/-- A place where a key may have started: how many marks stood before it, and its cell. -/
structure Candidate where
  before : Nat
  line : Nat
  column : Nat
  offset : Nat
  /-- At this column the block allows nothing but a key. -/
  required : Bool

structure Layout where
  marks : Array Mark := #[]
  /-- The columns of the open blocks, innermost first. -/
  indents : List Nat := []
  candidate : Option Candidate := none
  /-- The candidates outside the open flow brackets, one for each bracket. -/
  outer : List (Option Candidate) := []
  keyAllowed : Bool := true

namespace Layout

def inFlow (s : Layout) : Bool := !s.outer.isEmpty

def push (s : Layout) (mark : Mark) : Layout :=
  { s with marks := s.marks.push mark }

def insert (s : Layout) (before : Nat) (mark : Mark) : Layout :=
  { s with marks := s.marks.insertIdxIfInBounds before mark }

def deeper (s : Layout) (column : Nat) : Bool :=
  match s.indents with
  | [] => true
  | indent :: _ => indent < column

def roll (s : Layout) (column before : Nat) (opening : Mark) : Layout :=
  if !s.inFlow && s.deeper column then
    { s.insert before opening with indents := column :: s.indents }
  else s

def rollHere (s : Layout) (column : Nat) (opening : Mark) : Layout :=
  s.roll column s.marks.size opening

/-- Close the blocks whose column is not reached any more. -/
def unroll (s : Layout) (keep : Nat → Bool) : Layout :=
  if s.inFlow then s
  else
    let stillOpen := s.indents.dropWhile (!keep ·)
    let closed := s.indents.length - stillOpen.length
    { s with indents := stillOpen, marks := s.marks ++ Array.replicate closed .close }

def unrollAll (s : Layout) : Layout := s.unroll fun _ => false

/-- Give up the candidate; one that is required cannot be given up. -/
def drop? (s : Layout) : Option Layout :=
  match s.candidate with
  | some c => if c.required then none else some { s with candidate := none }
  | none => some s

/-- A key ends on the line where it started, within 1024 octets. -/
def isStale (cell : Cell) (c : Candidate) : Bool :=
  c.line < cell.line || c.offset + 1024 < cell.offset

def expire? (s : Layout) (cell : Cell) : Option Layout :=
  let stale := fun (c : Option Candidate) => c.any (isStale cell)
  let lost := fun (c : Option Candidate) => c.any fun c => isStale cell c && c.required
  if lost s.candidate || s.outer.any lost then none
  else
    some { s with
      candidate := if stale s.candidate then none else s.candidate
      outer := s.outer.map fun c => if stale c then none else c }

def save? (s : Layout) (cell : Cell) : Option Layout :=
  if s.keyAllowed then
    let required := !s.inFlow && s.indents.head? = some cell.column
    (s.drop?).map fun s =>
      { s with
        candidate := some ⟨s.marks.size, cell.line, cell.column, cell.offset, required⟩ }
  else some s

/-- The rest of a line without the byte order mark that it may start with, blanks, and a comment.
Tabs are blanks only where no key may start. -/
def skipInLine (s : Layout) (text : List Cell) : List Cell :=
  let blank := fun (cell : Cell) =>
    cell.char = ' ' || ((s.inFlow || !s.keyAllowed) && cell.char = '\t')
  skipComment ((skipOrderMark text).dropWhile blank)

theorem length_skipInLine_le (s : Layout) (text : List Cell) :
    (s.skipInLine text).length ≤ text.length :=
  Nat.le_trans (length_skipComment_le _)
    (Nat.le_trans (length_dropWhile_le _ _) (length_skipOrderMark_le text))

def toNextMark (s : Layout) (text : List Cell) : Layout × List Cell :=
  match h : s.skipInLine text with
  | [] => (s, [])
  | cell :: rest =>
    if cell.breaks then
      have : rest.length < text.length := by
        have := s.length_skipInLine_le text
        rw [h] at this
        exact this
      (if s.inFlow then s else { s with keyAllowed := true }).toNextMark rest
    else (s, cell :: rest)
termination_by text.length
decreasing_by assumption

end Layout

def name? (text : List Cell) : Option (List Char × List Cell) :=
  let name := text.takeWhile fun cell => Tag.isNameChar cell.char
  let rest := text.drop name.length
  let ended :=
    match rest with
    | [] => true
    | cell :: _ => cell.space || "?:,]\x7d%@`".toList.contains cell.char
  if name.isEmpty || !ended then none else some (name.map Cell.char, rest)

/-- Characters that start no plain scalar, whatever follows. -/
def isIndicator (c : Char) : Bool :=
  "-?:,[]\x7b\x7d#&*!|>'\"%@`".toList.contains c

def startsPlain (flow : Bool) (c : Char) (rest : List Cell) : Bool :=
  !(isBlank c || isBreak c || isIndicator c) ||
    (c = '-' && !(rest.head?.any Cell.blank)) ||
    (!flow && (c = '?' || c = ':') && !atSpace rest)

namespace Layout

def openFlow? (s : Layout) (cell : Cell) (opening : Mark) : Option Layout :=
  (s.save? cell).map fun s =>
    { s.push opening with outer := s.candidate :: s.outer, candidate := none, keyAllowed := true }

def closeFlow? (s : Layout) (closing : Mark) : Option Layout :=
  (s.drop?).map fun s =>
    let s := { s.push closing with keyAllowed := false }
    match s.outer with
    | [] => s
    | candidate :: outer => { s with candidate, outer }

/-- A mark that opens a block by itself needs a place where a key could stand. -/
def openBlock? (s : Layout) (column : Nat) (opening : Mark) : Option Layout :=
  if s.inFlow then some s
  else if s.keyAllowed then some (s.rollHere column opening)
  else none

def entry? (s : Layout) (cell : Cell) : Option Layout :=
  ((s.openBlock? cell.column .openSequence).bind drop?).map fun s =>
    { s.push .entry with keyAllowed := true }

def key? (s : Layout) (cell : Cell) : Option Layout :=
  ((s.openBlock? cell.column .openMapping).bind drop?).map fun s =>
    { s.push .key with keyAllowed := !s.inFlow }

/-- A colon after a candidate makes a key of it. -/
def value? (s : Layout) (cell : Cell) : Option Layout :=
  match s.candidate with
  | some c =>
    let s := (s.insert c.before .key).roll c.column c.before .openMapping
    some { s.push .value with candidate := none, keyAllowed := false }
  | none =>
    (s.openBlock? cell.column .openMapping).map fun s =>
      { s.push .value with keyAllowed := !s.inFlow }

def documentMark? (s : Layout) (mark : Mark) : Option Layout :=
  (s.unrollAll.drop?).map fun s => { s.push mark with keyAllowed := false }

/-- A mark that may be the start of a key. -/
def atom? (s : Layout) (cell : Cell) (mark : Mark) : Option Layout :=
  (s.save? cell).map fun s => { s.push mark with keyAllowed := false }

def step? (s : Layout) (cell : Cell) (rest : List Cell) : Option (Layout × List Cell) :=
  let text := cell :: rest
  let give := fun (next : Option Layout) (left : List Cell) => next.map fun s => (s, left)
  if cell.column == 0 && cell.char = '%' then
    match Directive.read? rest with
    | none => none
    | some (directive, left) => give (s.documentMark? (.directive directive)) left
  else if atDocumentMark text then
    give (s.documentMark? (if cell.char = '-' then .documentStart else .documentEnd))
      (text.drop 3)
  else
    match cell.char with
    | '[' => give (s.openFlow? cell .openFlowSequence) rest
    | '{' => give (s.openFlow? cell .openFlowMapping) rest
    | ']' => give (s.closeFlow? .closeFlowSequence) rest
    | '}' => give (s.closeFlow? .closeFlowMapping) rest
    | ',' => give ((s.drop?).map fun s => { s.push .flowEntry with keyAllowed := true }) rest
    | '*' =>
      match name? rest with
      | none => none
      | some (name, left) => give (s.atom? cell (.alias name)) left
    | '&' =>
      match name? rest with
      | none => none
      | some (name, left) => give (s.atom? cell (.anchor name)) left
    | '!' =>
      match WrittenTag.read? s.inFlow text with
      | none => none
      | some (tag, left) => give (s.atom? cell (.tag tag)) left
    | '\'' =>
      match quoted? false rest with
      | none => none
      | some (chars, left) => give (s.atom? cell (.scalar .quoted chars)) left
    | '"' =>
      match quoted? true rest with
      | none => none
      | some (chars, left) => give (s.atom? cell (.scalar .quoted chars)) left
    | c =>
      if c = '-' && atSpace rest then give (s.entry? cell) rest
      else if c = '?' && (s.inFlow || atSpace rest) then give (s.key? cell) rest
      else if c = ':' && (s.inFlow || atSpace rest) then give (s.value? cell) rest
      else if (c = '|' || c = '>') && !s.inFlow then
        match block? (c = '>') s.indents.head? rest with
        | none => none
        | some (chars, left) =>
          let style := if c = '>' then .folded else .literal
          give ((s.drop?).map fun s => { s.push (.scalar style chars) with keyAllowed := true })
            left
      else if startsPlain s.inFlow c rest then
        let indent :=
          match s.indents.head? with
          | none => 0
          | some column => column + 1
        match plain? s.inFlow indent text with
        | none => none
        | some found =>
          give ((s.atom? cell (.scalar .plain found.chars)).map fun s =>
            { s with keyAllowed := found.broken }) found.rest
      else none

end Layout

def marksFrom? : Nat → Layout → List Cell → Option (List Mark)
  | 0, _, _ => none
  | fuel + 1, s, text =>
    match s.toNextMark text with
    | (s, []) => (s.unrollAll.drop?).map fun s => s.marks.toList
    | (s, cell :: rest) =>
      match s.expire? cell with
      | none => none
      | some s =>
        match (s.unroll (· ≤ cell.column)).step? cell rest with
        | none => none
        | some (s, left) => marksFrom? fuel s left

/-- Every mark takes a character, so the length of the text is fuel enough. -/
def marks? (text : List Cell) : Option (List Mark) :=
  marksFrom? (text.length + 1) {} text

end Yaml
end Solfege
