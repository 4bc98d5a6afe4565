import Mathlib.Data.List.DropRight
import Solfege.Item
import Solfege.Proofs.LexLines

/-!
# Solfege.Proofs.LineByLine

Items, read one line at a time.

The cursor runs through a whole text and knows a line only by the break that it meets. Here the
lexemes are cut at breaks first, and each line is read on its own, with the place of its break as
the place where it stops. Both ways lead to the same items or to the same fault at the same place
(`LexemeCursor.items_start`), so no item reaches over a break.

* `Line.item?`          — the item of a line, or its first fault; `none` if the line is blank.
* `linesOf`             — lexemes cut at line breaks.
* `readItems`           — the items of all lines in order, or the fault of the first bad one.
* `LexemeCursor.On`     — before the cursor lie the rest of a line, and its break or nothing.
* `LexemeCursor.Agrees` — what every part of the two readers keeps: equal answers on one line.
-/

namespace Solfege

/-- The lexemes of one line without its break, and the place where the line stops. -/
structure Line where
  lexemes : List Lexeme
  stop : Position
  deriving DecidableEq, Repr

namespace Line

def skip (line : Line) : Line :=
  { line with lexemes := line.lexemes.dropWhile Lexeme.isBlank }

def token? (line : Line) : Option Token :=
  line.lexemes.head?.map Lexeme.token

def tail (line : Line) : Line :=
  { line with lexemes := line.lexemes.tail }

def position (line : Line) : Position :=
  match line.lexemes with
  | [] => line.stop
  | lexeme :: _ => lexeme.position

def fault (line : Line) (complaint : Complaint) : Fault :=
  ⟨line.position, complaint⟩

def number (line : Line) (complaint : Complaint) : Except Fault (Int × Line) :=
  match line.skip.token? with
  | some (.number value) => .ok (clamp value, line.skip.tail)
  | _ => .error (line.skip.fault complaint)

def tempo (line : Line) : Except Fault (Declaration × Line) :=
  match line.number .expectedTempo with
  | .error fault => .error fault
  | .ok (bpm, rest) => .ok (.tempo bpm, rest)

def timeSignature (line : Line) : Except Fault (Declaration × Line) :=
  match line.number .expectedNumerator with
  | .error fault => .error fault
  | .ok (numerator, rest) =>
    if rest.skip.token? = some .slash then
      match rest.skip.tail.number .expectedDenominator with
      | .error fault => .error fault
      | .ok (denominator, rest) => .ok (.timeSignature numerator denominator, rest)
    else .error (rest.skip.fault .expectedSlash)

def key (line : Line) : Except Fault (Declaration × Line) :=
  match line.skip.token? with
  | some (.word root) =>
    let rest := line.skip.tail.skip
    match rest.token? with
    | some (.mode mode) => .ok (.key root mode, rest.tail)
    | _ => .error (rest.fault (.expectedMode root))
  | _ => .error (line.skip.fault .expectedRoot)

/-- What follows the name of a note: the octave at once, then the duration. -/
def note (name : String) (line : Line) : Except Fault (Note × Line) :=
  match line.token? with
  | some (.number value) =>
    let rest := line.tail.skip
    match rest.token? with
    | some (.duration duration) => .ok (⟨name, clamp value, duration⟩, rest.tail)
    | _ => .error (rest.fault (.expectedDuration name (clamp value)))
  | _ => .error (line.fault (.expectedOctave name))

def leading (token : Token) (line : Line) : Except Fault (Item × Line) :=
  let rest := line.tail
  match token with
  | .tempo => rest.tempo.map fun (d, rest) => (.declaration d, rest)
  | .meter => rest.timeSignature.map fun (d, rest) => (.declaration d, rest)
  | .key => rest.key.map fun (d, rest) => (.declaration d, rest)
  | .word name => (rest.note name).map fun (n, rest) => (.note n, rest)
  | .duration duration => .error (rest.fault (.orphanDuration duration))
  | other => .error (line.fault (.expectedNote other))

def item? (line : Line) : Except Fault (Option Item) :=
  match line.skip.token? with
  | none => .ok none
  | some token =>
    match line.skip.leading token with
    | .error fault => .error fault
    | .ok (item, rest) =>
      match rest.skip.token? with
      | none => .ok (some item)
      | some found => .error (rest.skip.fault (.trailing found))

end Line

/-- Lexemes cut at line breaks. A line stops at its break, the last one at `stop`. -/
def linesOf (stop : Position) (lexemes : List Lexeme) : List Line :=
  lexemes.foldr
    (fun lexeme lines =>
      if lexeme.token = .newline then ⟨[], lexeme.position⟩ :: lines
      else
        match lines with
        | [] => [⟨[lexeme], stop⟩]
        | first :: rest => { first with lexemes := lexeme :: first.lexemes } :: rest)
    [⟨[], stop⟩]

def readItems : List Line → Except Fault (List Item)
  | [] => .ok []
  | line :: rest =>
    match line.item? with
    | .error fault => .error fault
    | .ok none => readItems rest
    | .ok (some item) =>
      match readItems rest with
      | .error fault => .error fault
      | .ok items => .ok (item :: items)

theorem linesOf_of_no_newline {lexemes : List Lexeme} (h : ∀ x ∈ lexemes, x.token ≠ .newline)
    (stop : Position) : linesOf stop lexemes = [⟨lexemes, stop⟩] := by
  induction lexemes with
  | nil => rfl
  | cons lexeme rest ih =>
    have hrest := ih fun x hx => h x (List.mem_cons_of_mem _ hx)
    simp only [linesOf, List.foldr_cons] at hrest ⊢
    rw [hrest, if_neg (h lexeme (List.mem_cons_self ..))]

theorem linesOf_append_newline {first : List Lexeme} (h : ∀ x ∈ first, x.token ≠ .newline)
    (stop : Position) {lexeme : Lexeme} (hl : lexeme.token = .newline) (rest : List Lexeme) :
    linesOf stop (first ++ lexeme :: rest) = ⟨first, lexeme.position⟩ :: linesOf stop rest := by
  induction first with
  | nil => simp [linesOf, hl]
  | cons x tail ih =>
    have htail := ih fun y hy => h y (List.mem_cons_of_mem _ hy)
    simp only [linesOf, List.cons_append, List.foldr_cons] at htail ⊢
    rw [htail, if_neg (h x (List.mem_cons_self ..))]

namespace Line

theorem skip_skip (line : Line) : line.skip.skip = line.skip := by
  simp only [skip, List.dropWhile_idempotent]

theorem token?_skip_ne_blank (line : Line) : line.skip.token? ≠ some .blank := by
  intro h
  obtain ⟨lexeme, hhead, hblank⟩ := Option.map_eq_some_iff.mp h
  have hnot := List.head?_dropWhile_not Lexeme.isBlank line.lexemes
  rw [show line.lexemes.dropWhile Lexeme.isBlank = line.skip.lexemes from rfl, hhead] at hnot
  simp [Lexeme.isBlank, hblank] at hnot

end Line

/-! ## A cursor in a line -/

theorem drop_length_takeWhile {α : Type} (p : α → Bool) (l : List α) :
    l.drop (l.takeWhile p).length = l.dropWhile p := by
  induction l with
  | nil => rfl
  | cons a rest ih => by_cases h : p a = true <;> simp [h, ih]

namespace LexemeCursor

theorem skip_lexemes (c : LexemeCursor) : c.skip.lexemes = c.lexemes := rfl

/-- The line lies between the cursor and `after`, which starts with a break or is empty. -/
structure On (c : LexemeCursor) (line : Line) (after : List Lexeme) : Prop where
  left : c.lexemes.drop c.index = line.lexemes ++ after
  unbroken : ∀ lexeme ∈ line.lexemes, lexeme.token ≠ .newline
  broken : ∀ lexeme, after.head? = some lexeme → lexeme.token = .newline
  stop : line.stop = (after.head?.map Lexeme.position).getD (endOf c.lexemes)

namespace On

variable {c : LexemeCursor} {line : Line} {after : List Lexeme}

theorem current?_eq (h : c.On line after) : c.current? = (line.lexemes ++ after).head? := by
  rw [current?, ← h.left, List.head?_drop]

/-- Of all tokens only a break is seen beyond the line. -/
theorem token?_iff (h : c.On line after) {token : Token} (hbreak : token ≠ .newline) :
    c.token? = some token ↔ line.token? = some token := by
  rw [LexemeCursor.token?, h.current?_eq, Line.token?]
  cases hlexemes : line.lexemes with
  | cons lexeme rest => rfl
  | nil =>
    rw [List.nil_append]
    constructor
    · intro htoken
      obtain ⟨lexeme, hhead, rfl⟩ := Option.map_eq_some_iff.mp htoken
      exact absurd (h.broken lexeme hhead) hbreak
    · intro htoken
      cases htoken

theorem token_ne_newline (h : c.On line after) {token : Token} (htoken : line.token? = some token) :
    token ≠ .newline := by
  obtain ⟨lexeme, hhead, rfl⟩ := Option.map_eq_some_iff.mp htoken
  exact h.unbroken lexeme (List.mem_of_head? hhead)

theorem token?_eq_none (h : c.On line after) (hc : c.token? = none ∨ c.token? = some .newline) :
    line.token? = none := by
  cases htoken : line.token? with
  | none => rfl
  | some token =>
    have hbreak := h.token_ne_newline htoken
    rw [(h.token?_iff hbreak).mpr htoken] at hc
    rcases hc with hc | hc
    · cases hc
    · exact absurd (Option.some.inj hc) hbreak

theorem token?_of_none (h : c.On line after) (hnone : line.token? = none) :
    c.token? = after.head?.map Lexeme.token := by
  rw [Line.token?, Option.map_eq_none_iff, List.head?_eq_none_iff] at hnone
  rw [LexemeCursor.token?, h.current?_eq, hnone, List.nil_append]

theorem position_eq (h : c.On line after) : c.position = line.position := by
  rw [LexemeCursor.position, h.current?_eq, Line.position]
  cases hlexemes : line.lexemes with
  | cons lexeme rest => rfl
  | nil =>
    rw [List.nil_append]
    dsimp only
    rw [h.stop]
    cases after with
    | nil => rfl
    | cons lexeme rest => rfl

theorem fault_eq (h : c.On line after) (complaint : Complaint) :
    c.fault complaint = line.fault complaint := by
  rw [LexemeCursor.fault, Line.fault, h.position_eq]

theorem skip (h : c.On line after) : c.skip.On line.skip after := by
  have hdrop : c.lexemes.drop c.skip.index =
      (c.lexemes.drop c.index).dropWhile Lexeme.isBlank := by
    rw [LexemeCursor.skip, ← List.drop_drop, drop_length_takeWhile]
  refine ⟨?_, fun lexeme hm => ?_, h.broken, h.stop⟩
  · rw [LexemeCursor.skip_lexemes, hdrop, h.left, Line.skip]
    cases after with
    | nil => rw [List.append_nil, List.append_nil]
    | cons lexeme rest =>
      have hbreak : lexeme.isBlank = false := by
        rw [Lexeme.isBlank, h.broken lexeme rfl]
        rfl
      exact dropWhile_append_stop hbreak _ _
  · exact h.unbroken lexeme ((List.dropWhile_sublist _).subset hm)

theorem advance (h : c.On line after) {token : Token} (htoken : line.token? = some token) :
    c.advance.On line.tail after := by
  obtain ⟨lexemes, stop⟩ := line
  cases lexemes with
  | nil => cases htoken
  | cons lexeme rest =>
    refine ⟨?_, fun x hx => h.unbroken x (List.mem_cons_of_mem _ hx), h.broken, h.stop⟩
    rw [LexemeCursor.advance, ← List.drop_drop, h.left]
    rfl

end On

/-! ## Equal answers -/

/-- Both readers fail with the same fault, or they find the same and leave the cursor on what is
left of the line. -/
inductive Agrees {α : Type} (after : List Lexeme) :
    Except Fault (α × LexemeCursor) → Except Fault (α × Line) → Prop where
  | error (fault : Fault) : Agrees after (.error fault) (.error fault)
  | ok {c : LexemeCursor} {line : Line} (value : α) : c.On line after →
      Agrees after (.ok (value, c)) (.ok (value, line))

theorem Agrees.cases {α : Type} {after : List Lexeme} {x : Except Fault (α × LexemeCursor)}
    {y : Except Fault (α × Line)} (h : Agrees after x y) :
    (∃ fault, x = .error fault ∧ y = .error fault) ∨
      ∃ value c line, x = .ok (value, c) ∧ y = .ok (value, line) ∧ c.On line after := by
  cases h with
  | error fault => exact .inl ⟨fault, rfl, rfl⟩
  | ok value hon => exact .inr ⟨value, _, _, rfl, rfl, hon⟩

theorem Agrees.map {α β : Type} {after : List Lexeme} {x : Except Fault (α × LexemeCursor)}
    {y : Except Fault (α × Line)} (h : Agrees after x y) (f : α → β) :
    Agrees after (x.map fun p => (f p.1, p.2)) (y.map fun p => (f p.1, p.2)) := by
  cases h with
  | error fault => exact .error fault
  | ok value hon => exact .ok (f value) hon

namespace On

variable {c : LexemeCursor} {line : Line} {after : List Lexeme}

theorem agrees_fault {α : Type} (h : c.On line after) (complaint : Complaint) :
    Agrees after (.error (c.fault complaint) : Except Fault (α × LexemeCursor))
      (.error (line.fault complaint)) := by
  rw [h.fault_eq]
  exact .error _

theorem number (h : c.On line after) (complaint : Complaint) :
    Agrees after (c.number complaint) (line.number complaint) := by
  have hsame : ∀ value, c.skip.token? = some (.number value) ↔
      line.skip.token? = some (.number value) := fun value => h.skip.token?_iff (by simp)
  rw [LexemeCursor.number, Line.number]
  split
  · rename_i value hvalue
    rw [(hsame value).mp hvalue]
    exact .ok _ (h.skip.advance ((hsame value).mp hvalue))
  · rename_i hother
    split
    · rename_i value hvalue
      exact absurd ((hsame value).mpr hvalue) (hother value)
    · exact h.skip.agrees_fault complaint

theorem tempo (h : c.On line after) : Agrees after c.tempo line.tempo := by
  obtain ⟨fault, hc, hline⟩ | ⟨bpm, rest, left, hc, hline, hrest⟩ :=
    (h.number .expectedTempo).cases
  · rw [LexemeCursor.tempo, Line.tempo, hc, hline]
    exact .error fault
  · rw [LexemeCursor.tempo, Line.tempo, hc, hline]
    exact .ok _ hrest

theorem timeSignature (h : c.On line after) : Agrees after c.timeSignature line.timeSignature := by
  obtain ⟨fault, hc, hline⟩ | ⟨numerator, rest, left, hc, hline, hrest⟩ :=
    (h.number .expectedNumerator).cases
  · rw [LexemeCursor.timeSignature, Line.timeSignature, hc, hline]
    exact .error fault
  · have hsame : rest.skip.token? = some .slash ↔ left.skip.token? = some .slash :=
      hrest.skip.token?_iff (by simp)
    rw [LexemeCursor.timeSignature, Line.timeSignature, hc, hline]
    by_cases hslash : left.skip.token? = some .slash
    · have hdenominator := (hrest.skip.advance hslash).number .expectedDenominator
      dsimp only
      rw [if_pos hslash, if_pos (hsame.mpr hslash)]
      obtain ⟨fault, hc, hline⟩ | ⟨denominator, rest, left, hc, hline, hrest⟩ := hdenominator.cases
      · rw [hc, hline]
        exact .error fault
      · rw [hc, hline]
        exact .ok _ hrest
    · dsimp only
      rw [if_neg hslash, if_neg (hsame.not.mpr hslash)]
      exact hrest.skip.agrees_fault _

theorem key (h : c.On line after) : Agrees after c.key line.key := by
  have hword : ∀ root, c.skip.token? = some (.word root) ↔
      line.skip.token? = some (.word root) := fun root => h.skip.token?_iff (by simp)
  simp only [LexemeCursor.key, Line.key]
  split
  · rename_i root hroot
    rw [(hword root).mp hroot]
    dsimp only
    have hrest := (h.skip.advance ((hword root).mp hroot)).skip
    have hmode : ∀ mode, c.skip.advance.skip.token? = some (.mode mode) ↔
        line.skip.tail.skip.token? = some (.mode mode) := fun mode => hrest.token?_iff (by simp)
    split
    · rename_i mode hfound
      rw [(hmode mode).mp hfound]
      exact .ok _ (hrest.advance ((hmode mode).mp hfound))
    · rename_i hother
      split
      · rename_i mode hfound
        exact absurd ((hmode mode).mpr hfound) (hother mode)
      · exact hrest.agrees_fault _
  · rename_i hother
    split
    · rename_i root hroot
      exact absurd ((hword root).mpr hroot) (hother root)
    · exact h.skip.agrees_fault _

end On

/-! A note is two expressions to the cursor, and to the reader of a line what follows its name. -/

theorem expression_eq_duration {c rest : LexemeCursor} {duration : Duration} :
    c.expression = .ok (.duration duration, rest) ↔
      c.skip.token? = some (.duration duration) ∧ c.skip.advance = rest := by
  simp only [expression]
  constructor
  · intro h
    split at h
    · cases h
    · rename_i found hfound
      cases h
      exact ⟨hfound, rfl⟩
    · split at h <;> cases h
    · cases h
  · rintro ⟨hfound, rfl⟩
    rw [hfound]

namespace On

variable {c : LexemeCursor} {line : Line} {after : List Lexeme}

theorem note (h : c.On line after) {name : String} (hname : line.skip.token? = some (.word name)) :
    Agrees after c.note (line.skip.tail.note name) := by
  have hword := (h.skip.token?_iff (by simp)).mpr hname
  have hafter := h.skip.advance hname
  by_cases hnumber : ∃ value, line.skip.tail.token? = some (.number value)
  · obtain ⟨value, hvalue⟩ := hnumber
    have hfirst : c.expression = .ok (.note name (clamp value), c.skip.advance.advance) := by
      simp only [expression, hword, (hafter.token?_iff (by simp)).mpr hvalue]
    have hrest := (hafter.advance hvalue).skip
    have hagain := hrest.skip
    rw [Line.skip_skip] at hagain
    simp only [LexemeCursor.note, Line.note, hfirst, hvalue]
    split
    · rename_i duration rest hsecond
      obtain ⟨hfound, rfl⟩ := expression_eq_duration.mp hsecond
      have hduration := (hagain.token?_iff (by simp)).mp hfound
      rw [hduration]
      exact .ok _ (hagain.advance hduration)
    · rename_i hother
      split
      · rename_i duration hduration
        have hfound := (hagain.token?_iff (by simp)).mpr hduration
        exact absurd (expression_eq_duration.mpr ⟨hfound, rfl⟩) (hother duration _)
      · exact hrest.agrees_fault _
  · have hfirst : c.expression = .error (c.skip.advance.fault (.expectedOctave name)) := by
      simp only [expression, hword]
      split
      · rename_i value hvalue
        exact absurd ⟨value, (hafter.token?_iff (by simp)).mp hvalue⟩ hnumber
      · rfl
    simp only [LexemeCursor.note, Line.note, hfirst]
    split
    · rename_i value hvalue
      exact absurd ⟨value, hvalue⟩ hnumber
    · exact hafter.agrees_fault _

/-- The cursor takes the token for a note where the reader of a line has complained of it. -/
theorem expectedNote {token : Token} (h : c.On line after) (htoken : line.skip.token? = some token)
    (hword : ∀ name, token ≠ .word name) (hduration : ∀ duration, token ≠ .duration duration) :
    Agrees after c.note (.error (line.skip.fault (.expectedNote token))) := by
  have hfound := (h.skip.token?_iff (h.skip.token_ne_newline htoken)).mpr htoken
  have hfirst : c.expression = .error (c.skip.fault (.expectedNote token)) := by
    simp only [expression, hfound]
  simp only [LexemeCursor.note, hfirst]
  exact h.skip.agrees_fault _

theorem item {token : Token} (h : c.On line after) (htoken : line.skip.token? = some token) :
    Agrees after (c.skip.item token) (line.skip.leading token) := by
  have hskip := h.skip
  have htoken' : line.skip.skip.token? = some token := by rwa [Line.skip_skip]
  cases token with
  | tempo => exact (hskip.advance htoken).tempo.map _
  | meter => exact (hskip.advance htoken).timeSignature.map _
  | key => exact (hskip.advance htoken).key.map _
  | word name =>
    have hnote := hskip.note htoken'
    rw [Line.skip_skip] at hnote
    exact hnote.map _
  | duration duration =>
    have hagain := hskip.skip
    have hfound := (hagain.token?_iff (by simp)).mpr htoken'
    rw [Line.skip_skip] at hagain
    have hfirst := expression_eq_duration.mpr ⟨hfound, rfl⟩
    simp only [LexemeCursor.item, Line.leading, LexemeCursor.note, hfirst]
    exact (hagain.advance htoken).agrees_fault _
  | blank => exact absurd htoken line.token?_skip_ne_blank
  | newline => exact absurd rfl (hskip.token_ne_newline htoken)
  | slash | number value | mode mode =>
    have hfault := hskip.expectedNote htoken' (by simp) (by simp)
    rw [Line.skip_skip] at hfault
    exact hfault.map _

/-- After an item, or in a line that has none, the cursor goes on behind the break. -/
theorem drop_advance (h : c.On line after) (hnone : line.token? = none) :
    c.advance.lexemes.drop c.advance.index = after.tail := by
  rw [Line.token?, Option.map_eq_none_iff, List.head?_eq_none_iff] at hnone
  rw [LexemeCursor.advance, ← List.drop_drop, h.left, hnone, List.nil_append, List.drop_one]

theorem endOfLine_of_none (h : c.On line after) (hnone : line.skip.token? = none) :
    ∃ next, c.endOfLine = .ok next ∧ next.lexemes = c.lexemes ∧
      next.lexemes.drop next.index = after.tail := by
  have htoken := h.skip.token?_of_none hnone
  cases after with
  | nil =>
    have hnil : c.skip.lexemes.drop c.skip.index = [] := by
      rw [Line.token?, Option.map_eq_none_iff, List.head?_eq_none_iff] at hnone
      rw [h.skip.left, hnone, List.nil_append]
    refine ⟨c.skip, ?_, rfl, hnil⟩
    rw [endOfLine, htoken]
    rfl
  | cons lexeme rest =>
    refine ⟨c.skip.advance, ?_, rfl, h.skip.drop_advance hnone⟩
    rw [endOfLine, htoken, List.head?_cons, Option.map_some, h.broken lexeme rfl]

theorem endOfLine_of_some (h : c.On line after) {found : Token}
    (hfound : line.skip.token? = some found) :
    c.endOfLine = .error (line.skip.fault (.trailing found)) := by
  have hbreak := h.skip.token_ne_newline hfound
  simp only [endOfLine, (h.skip.token?_iff hbreak).mpr hfound, h.skip.fault_eq]

/-- The line is the first of those that are left. -/
theorem readItems_left (h : c.On line after) :
    readItems (linesOf (endOf c.lexemes) (c.lexemes.drop c.index)) =
      readItems (line :: linesOf (endOf c.lexemes) after.tail) := by
  rw [h.left]
  obtain ⟨lexemes, stop⟩ := line
  cases after with
  | nil =>
    obtain rfl : stop = endOf c.lexemes := h.stop
    rw [List.append_nil, linesOf_of_no_newline h.unbroken, List.tail_nil]
    rfl
  | cons lexeme rest =>
    obtain rfl : stop = lexeme.position := h.stop
    rw [linesOf_append_newline h.unbroken _ (h.broken lexeme rfl), List.tail_cons]

section Round

variable {token : Token} (hbreak : token ≠ .newline) (htoken : c.skip.token? = some token)
include hbreak htoken

theorem item?_of_fault (h : c.On line after) {fault : Fault}
    (hitem : c.skip.item token = .error fault) : line.item? = .error fault := by
  have hfound := (h.skip.token?_iff hbreak).mp htoken
  have hagrees := h.item hfound
  rw [hitem] at hagrees
  obtain ⟨_, ⟨⟩, hline⟩ | ⟨_, _, _, ⟨⟩, _⟩ := hagrees.cases
  simp only [Line.item?, hfound, hline]

theorem leading_of_item (h : c.On line after) {item : Item} {rest : LexemeCursor}
    (hitem : c.skip.item token = .ok (item, rest)) :
    ∃ left, line.skip.token? = some token ∧ line.skip.leading token = .ok (item, left) ∧
      rest.On left after := by
  have hfound := (h.skip.token?_iff hbreak).mp htoken
  have hagrees := h.item hfound
  rw [hitem] at hagrees
  obtain ⟨_, ⟨⟩, _⟩ | ⟨_, _, left, ⟨⟩, hline, hrest⟩ := hagrees.cases
  exact ⟨left, hfound, hline, hrest⟩

theorem item?_of_trailing (h : c.On line after) {item : Item} {rest : LexemeCursor}
    (hitem : c.skip.item token = .ok (item, rest)) {fault : Fault}
    (hend : rest.endOfLine = .error fault) : line.item? = .error fault := by
  obtain ⟨left, hfound, hline, hrest⟩ := h.leading_of_item hbreak htoken hitem
  cases hleft : left.skip.token? with
  | none =>
    obtain ⟨next, hok, _⟩ := hrest.endOfLine_of_none hleft
    cases hend.symm.trans hok
  | some found =>
    cases hend.symm.trans (hrest.endOfLine_of_some hleft)
    simp only [Line.item?, hfound, hline, hleft]

/-- A round that reads an item has read its line, and leaves the lines after it. -/
theorem item?_of_next (h : c.On line after) {item : Item} {rest next : LexemeCursor}
    (hitem : c.skip.item token = .ok (item, rest)) (hend : rest.endOfLine = .ok next) :
    line.item? = .ok (some item) ∧ next.lexemes = c.lexemes ∧
      next.lexemes.drop next.index = after.tail := by
  obtain ⟨left, hfound, hline, hrest⟩ := h.leading_of_item hbreak htoken hitem
  cases hleft : left.skip.token? with
  | none =>
    obtain ⟨_, hok, hlexemes, hdrop⟩ := hrest.endOfLine_of_none hleft
    cases hend.symm.trans hok
    have hitem? : line.item? = .ok (some item) := by
      simp only [Line.item?, hfound, hline, hleft]
    exact ⟨hitem?, hlexemes.trans (item_passes hitem).lexemes, hdrop⟩
  | some found => cases hend.symm.trans (hrest.endOfLine_of_some hleft)

theorem readItems_of_next (h : c.On line after) {item : Item} {rest next : LexemeCursor}
    (hitem : c.skip.item token = .ok (item, rest)) (hend : rest.endOfLine = .ok next) :
    readItems (linesOf (endOf c.lexemes) (c.lexemes.drop c.index)) =
      match readItems (linesOf (endOf next.lexemes) (next.lexemes.drop next.index)) with
      | .error fault => .error fault
      | .ok items => .ok (item :: items) := by
  obtain ⟨hline, hlexemes, hdrop⟩ := h.item?_of_next hbreak htoken hitem hend
  rw [h.readItems_left, readItems, hline, hdrop, hlexemes]

end Round

end On

theorem exists_on (c : LexemeCursor) : ∃ line after, c.On line after := by
  let isBreak : Lexeme → Bool := fun lexeme => lexeme.token = .newline
  let left := c.lexemes.drop c.index
  let after := left.dropWhile (!isBreak ·)
  refine ⟨⟨left.takeWhile (!isBreak ·), (after.head?.map Lexeme.position).getD (endOf c.lexemes)⟩,
    after, List.takeWhile_append_dropWhile.symm, fun lexeme hm => ?_, fun lexeme hhead => ?_, rfl⟩
  · have hnot := List.mem_takeWhile_imp hm
    simpa [isBreak] using hnot
  · have hnot := List.head?_dropWhile_not (!isBreak ·) left
    rw [show left.dropWhile (!isBreak ·) = after from rfl, hhead] at hnot
    simpa [isBreak] using hnot

/-- From anywhere in a text, the cursor reads what is left of it as lines. -/
theorem items_eq (c : LexemeCursor) :
    c.items = readItems (linesOf (endOf c.lexemes) (c.lexemes.drop c.index)) := by
  fun_induction items c with
  | case1 c htoken =>
    obtain ⟨line, after, h⟩ := exists_on c
    have hnone := h.skip.token?_eq_none (.inl htoken)
    rw [h.skip.token?_of_none hnone, Option.map_eq_none_iff, List.head?_eq_none_iff] at htoken
    rw [h.readItems_left, readItems, Line.item?, hnone, htoken]
    rfl
  | case2 c htoken _ ih =>
    obtain ⟨line, after, h⟩ := exists_on c
    have hnone := h.skip.token?_eq_none (.inr htoken)
    rw [ih, h.skip.drop_advance hnone, h.readItems_left, readItems, Line.item?, hnone]
    rfl
  | case3 c token hbreak htoken fault hitem =>
    obtain ⟨line, after, h⟩ := exists_on c
    rw [h.readItems_left, readItems, h.item?_of_fault hbreak htoken hitem]
  | case4 c token hbreak htoken item rest hitem fault hend =>
    obtain ⟨line, after, h⟩ := exists_on c
    rw [h.readItems_left, readItems, h.item?_of_trailing hbreak htoken hitem hend]
  | case5 c token hbreak htoken item rest hitem next hend _ fault hitems ih =>
    obtain ⟨line, after, h⟩ := exists_on c
    rw [h.readItems_of_next hbreak htoken hitem hend, ← ih, hitems]
  | case6 c token hbreak htoken item rest hitem next hend _ items hitems ih =>
    obtain ⟨line, after, h⟩ := exists_on c
    rw [h.readItems_of_next hbreak htoken hitem hend, ← ih, hitems]

/-- No item reaches over a break: a text is read as its lines are, one at a time. -/
theorem items_start (lexemes : List Lexeme) :
    (start lexemes).items = readItems (linesOf (endOf lexemes) lexemes) :=
  items_eq (start lexemes)

end LexemeCursor

end Solfege
