import Solfege.Token.Lexer

/-!
# Solfege.Item

The items of a music text. A line that is not blank holds one item:

    Tempo <number>
    Compas <number> / <number>
    Tonalidad <word> <mode>
    <word><number> <duration>

Blanks may stand between lexemes, but not between the name of a note and its octave. A fault is
placed at the lexeme that does not fit, be it the break of the line; if there are no more lexemes,
after the last of them.

* `LexemeCursor`       — the lexemes of a text, and how many of them have been passed.
* `LexemeCursor.item`  — the item that comes next.
* `LexemeCursor.items` — all items in order, each up to the end of its line.
-/

namespace Solfege

inductive Item where
  | declaration (declaration : Declaration)
  | note (note : Note)
  deriving DecidableEq, Repr

/-- Numbers above the largest 32-bit integer stand for it. -/
def clamp (value : Nat) : Int :=
  (min value 2147483647 : Nat)

def Lexeme.isBlank (lexeme : Lexeme) : Bool :=
  lexeme.token = .blank

/-- Where a complaint about the end of the source is placed: one column after the start of its
last lexeme. -/
def endOf (lexemes : List Lexeme) : Position :=
  match lexemes.getLast? with
  | none => .start
  | some last => ⟨last.position.line, last.position.column + 1⟩

theorem except_map_eq_ok {ε α β : Type} {f : α → β} {e : Except ε α} {b : β}
    (h : e.map f = .ok b) : ∃ a, e = .ok a ∧ f a = b := by
  cases e with
  | error _ => cases h
  | ok a =>
    cases h
    exact ⟨a, rfl, rfl⟩

structure LexemeCursor where
  lexemes : List Lexeme
  index : Nat

/-- A note that lacks its duration, or a duration alone. -/
inductive Expression where
  | note (name : String) (octave : Int)
  | duration (duration : Duration)
  deriving DecidableEq, Repr

namespace LexemeCursor

def start (lexemes : List Lexeme) : LexemeCursor := ⟨lexemes, 0⟩

def current? (c : LexemeCursor) : Option Lexeme :=
  c.lexemes[c.index]?

def token? (c : LexemeCursor) : Option Token :=
  c.current?.map Lexeme.token

def advance (c : LexemeCursor) : LexemeCursor :=
  { c with index := c.index + 1 }

def skip (c : LexemeCursor) : LexemeCursor :=
  { c with index := c.index + ((c.lexemes.drop c.index).takeWhile Lexeme.isBlank).length }

def position (c : LexemeCursor) : Position :=
  match c.current? with
  | some lexeme => lexeme.position
  | none => endOf c.lexemes

def fault (c : LexemeCursor) (complaint : Complaint) : Fault :=
  ⟨c.position, complaint⟩

def number (c : LexemeCursor) (complaint : Complaint) : Except Fault (Int × LexemeCursor) :=
  match c.skip.token? with
  | some (.number value) => .ok (clamp value, c.skip.advance)
  | _ => .error (c.skip.fault complaint)

def tempo (c : LexemeCursor) : Except Fault (Declaration × LexemeCursor) :=
  match c.number .expectedTempo with
  | .error fault => .error fault
  | .ok (bpm, rest) => .ok (.tempo bpm, rest)

def timeSignature (c : LexemeCursor) : Except Fault (Declaration × LexemeCursor) :=
  match c.number .expectedNumerator with
  | .error fault => .error fault
  | .ok (numerator, rest) =>
    if rest.skip.token? = some .slash then
      match rest.skip.advance.number .expectedDenominator with
      | .error fault => .error fault
      | .ok (denominator, rest) => .ok (.timeSignature numerator denominator, rest)
    else .error (rest.skip.fault .expectedSlash)

def key (c : LexemeCursor) : Except Fault (Declaration × LexemeCursor) :=
  match c.skip.token? with
  | some (.word root) =>
    let rest := c.skip.advance.skip
    match rest.token? with
    | some (.mode mode) => .ok (.key root mode, rest.advance)
    | _ => .error (rest.fault (.expectedMode root))
  | _ => .error (c.skip.fault .expectedRoot)

/-- A name with its octave right after it, or a duration. -/
def expression (c : LexemeCursor) : Except Fault (Expression × LexemeCursor) :=
  let c := c.skip
  match c.token? with
  | none => .error (c.fault .expectedExpression)
  | some (.duration duration) => .ok (.duration duration, c.advance)
  | some (.word name) =>
    match c.advance.token? with
    | some (.number value) => .ok (.note name (clamp value), c.advance.advance)
    | _ => .error (c.advance.fault (.expectedOctave name))
  | some other => .error (c.fault (.expectedNote other))

/-- Two expressions. Whatever is wrong with the second, the complaint goes back to where it
starts. -/
def note (c : LexemeCursor) : Except Fault (Note × LexemeCursor) :=
  match c.expression with
  | .error fault => .error fault
  | .ok (.duration duration, rest) => .error (rest.fault (.orphanDuration duration))
  | .ok (.note name octave, rest) =>
    match rest.skip.expression with
    | .ok (.duration duration, rest) => .ok (⟨name, octave, duration⟩, rest)
    | _ => .error (rest.skip.fault (.expectedDuration name octave))

/-- The item that starts with the token at the cursor. -/
def item (token : Token) (c : LexemeCursor) : Except Fault (Item × LexemeCursor) :=
  match token with
  | .tempo => c.advance.tempo.map fun (d, rest) => (.declaration d, rest)
  | .meter => c.advance.timeSignature.map fun (d, rest) => (.declaration d, rest)
  | .key => c.advance.key.map fun (d, rest) => (.declaration d, rest)
  | _ => c.note.map fun (n, rest) => (.note n, rest)

/-- An item is followed by a break or by nothing. -/
def endOfLine (c : LexemeCursor) : Except Fault LexemeCursor :=
  match c.skip.token? with
  | none => .ok c.skip
  | some .newline => .ok c.skip.advance
  | some found => .error (c.skip.fault (.trailing found))

/-! Every item takes the cursor on, so that the items of a text come to an end. -/

/-- The second cursor is further on in the same lexemes. -/
structure Passes (c d : LexemeCursor) : Prop where
  lexemes : d.lexemes = c.lexemes
  index : c.index < d.index

theorem Passes.trans {a b c : LexemeCursor} (hab : a.Passes b) (hbc : b.Passes c) : a.Passes c :=
  ⟨hbc.lexemes.trans hab.lexemes, Nat.lt_trans hab.index hbc.index⟩

theorem passes_advance (c : LexemeCursor) : c.Passes c.advance :=
  ⟨rfl, Nat.lt_succ_self _⟩

theorem passes_skip_advance (c : LexemeCursor) : c.Passes c.skip.advance :=
  ⟨rfl, Nat.lt_succ_of_le (Nat.le_add_right ..)⟩

theorem Passes.of_skip {c d : LexemeCursor} (h : c.skip.Passes d) : c.Passes d :=
  ⟨h.lexemes, Nat.lt_of_le_of_lt (Nat.le_add_right ..) h.index⟩

section

variable {c rest : LexemeCursor}

theorem number_passes {complaint : Complaint} {value : Int}
    (h : c.number complaint = .ok (value, rest)) : c.Passes rest := by
  rw [number] at h
  split at h <;> cases h
  exact passes_skip_advance c

theorem tempo_passes {d : Declaration} (h : c.tempo = .ok (d, rest)) : c.Passes rest := by
  rw [tempo] at h
  split at h <;> cases h
  rename_i hnumber
  exact number_passes hnumber

theorem timeSignature_passes {d : Declaration} (h : c.timeSignature = .ok (d, rest)) :
    c.Passes rest := by
  rw [timeSignature] at h
  split at h
  · cases h
  · rename_i hnumerator
    split at h
    · split at h <;> cases h
      rename_i hdenominator
      have hslash := (passes_skip_advance _).trans (number_passes hdenominator)
      exact (number_passes hnumerator).trans hslash
    · cases h

theorem key_passes {d : Declaration} (h : c.key = .ok (d, rest)) : c.Passes rest := by
  simp only [key] at h
  split at h
  · split at h <;> cases h
    exact (passes_skip_advance c).trans (passes_skip_advance _)
  · cases h

theorem expression_passes {e : Expression} (h : c.expression = .ok (e, rest)) :
    c.Passes rest := by
  simp only [expression] at h
  split at h
  · cases h
  · cases h
    exact passes_skip_advance c
  · split at h <;> cases h
    exact (passes_skip_advance c).trans (passes_advance _)
  · cases h

theorem note_passes {n : Note} (h : c.note = .ok (n, rest)) : c.Passes rest := by
  rw [note] at h
  split at h
  · cases h
  · cases h
  · rename_i hname
    split at h <;> cases h
    rename_i hduration
    exact (expression_passes hname).trans (expression_passes hduration).of_skip

theorem item_passes {token : Token} {i : Item} (h : c.item token = .ok (i, rest)) :
    c.Passes rest := by
  unfold item at h
  split at h
  · obtain ⟨⟨_, _⟩, hd, ⟨⟩⟩ := except_map_eq_ok h
    exact (passes_advance c).trans (tempo_passes hd)
  · obtain ⟨⟨_, _⟩, hd, ⟨⟩⟩ := except_map_eq_ok h
    exact (passes_advance c).trans (timeSignature_passes hd)
  · obtain ⟨⟨_, _⟩, hd, ⟨⟩⟩ := except_map_eq_ok h
    exact (passes_advance c).trans (key_passes hd)
  · obtain ⟨⟨_, _⟩, hn, ⟨⟩⟩ := except_map_eq_ok h
    exact note_passes hn

def left (c : LexemeCursor) : Nat :=
  c.lexemes.length - c.index

theorem Passes.left_lt (h : c.Passes rest) {token : Token} (htoken : c.skip.token? = some token) :
    rest.left < c.left := by
  obtain ⟨lexeme, hcurrent, _⟩ := Option.map_eq_some_iff.mp htoken
  obtain ⟨hlt, _⟩ := List.getElem?_eq_some_iff.mp hcurrent
  have hle : c.index ≤ c.skip.index := Nat.le_add_right ..
  have hindex := h.index
  have hbound : c.skip.index < c.lexemes.length := hlt
  rw [left, left, h.lexemes]
  omega

theorem left_endOfLine_le {next : LexemeCursor} (h : rest.endOfLine = .ok next) :
    next.left ≤ rest.left := by
  rw [endOfLine] at h
  split at h <;> cases h
  · exact Nat.sub_le_sub_left (Nat.le_add_right ..) _
  · exact Nat.sub_le_sub_left (Nat.le_of_lt (passes_skip_advance rest).index) _

end

/-- The items from the cursor on, or the first fault. -/
def items (c : LexemeCursor) : Except Fault (List Item) :=
  match htoken : c.skip.token? with
  | none => .ok []
  | some .newline =>
    have := (passes_skip_advance c).left_lt htoken
    c.skip.advance.items
  | some token =>
    match hitem : c.skip.item token with
    | .error fault => .error fault
    | .ok (item, rest) =>
      match hend : rest.endOfLine with
      | .error fault => .error fault
      | .ok next =>
        have := Nat.lt_of_le_of_lt (left_endOfLine_le hend)
          ((item_passes hitem).of_skip.left_lt htoken)
        match next.items with
        | .error fault => .error fault
        | .ok items => .ok (item :: items)
termination_by c.left

end LexemeCursor

namespace Item

def declaration? : Item → Option Declaration
  | .declaration d => some d
  | .note _ => none

def note? : Item → Option Note
  | .declaration _ => none
  | .note n => some n

end Item

def Program.ofItems (metadata : Metadata) (items : List Item) : Program :=
  { metadata
    declarations := items.filterMap Item.declaration?
    notes := items.filterMap Item.note? }

end Solfege
