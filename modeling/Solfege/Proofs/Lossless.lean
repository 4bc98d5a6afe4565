import Solfege.Proofs.LexForms

/-!
# Solfege.Proofs.Lossless

What the pieces of a text are, said without the lexer.

A piece `Stands` between the text before it and the text after it if it is of one of six forms; a
word and a number have to be maximal runs of their characters, so that neither neighbour could
belong to them. A text is `Cut` into pieces and a rest if each piece stands in its place and the
rest is empty or starts with a character that starts no piece.

* `positionOf`    — line and column by counting breaks and characters.
* `cut_pieces`    — the lexer cuts every text.
* `pieces_of_cut` — there is no other way to cut it.
* `lex_eq_answer` — its answer is read off the cut: the tokens where they stand, or a complaint
  about the first character of the rest.
-/

namespace Solfege

/-! ## Positions by counting -/

/-- One line more than breaks, and one column more than characters since the last break. -/
def positionOf (before : List Char) : Position :=
  ⟨1 + before.count '\n', 1 + (before.reverse.takeWhile (· ≠ '\n')).length⟩

theorem positionOf_append_char (before : List Char) (c : Char) :
    positionOf (before ++ [c]) = (positionOf before).next c := by
  by_cases h : c = '\n'
  · simp [positionOf, Position.next, h, Nat.add_assoc]
  · simp [positionOf, Position.next, h, Nat.add_comm]

theorem after_positionOf (before text : List Char) :
    (positionOf before).after text = positionOf (before ++ text) := by
  induction text generalizing before with
  | nil => simp
  | cons c rest ih =>
    rw [Position.after_cons, ← positionOf_append_char, ih, List.append_assoc]
    rfl

theorem start_after (text : List Char) : Position.start.after text = positionOf text :=
  after_positionOf [] text

/-! ## Pieces in their places -/

/-- The characters are of the class; the one before them and the one after them are not. -/
structure MaximalRun (p : Char → Bool) (before run after : List Char) : Prop where
  all : ∀ c ∈ run, p c = true
  before : before.getLast?.any p = false
  after : Leaves p after

/-- The piece is one of a text in which it stands between `before` and `after`. -/
inductive Piece.Stands (before after : List Char) : Piece → Prop where
  | comment {body : List Char} : '\n' ∉ body → (∀ c, after.head? = some c → c = '\n') →
      Stands before after (.comment ('/' :: '/' :: body))
  | slash : after.head? ≠ some '/' → Stands before after (.token .slash ['/'])
  | newline : Stands before after (.token .newline ['\n'])
  | blank {c : Char} : c = ' ' ∨ c = '\t' ∨ c = '\r' → Stands before after (.token .blank [c])
  | number {digits : List Char} : digits ≠ [] → MaximalRun Char.isDigit before digits after →
      Stands before after (.token (.ofDigits digits) digits)
  | word {word : List Char} : word.head?.any Text.isAlphabetic = true →
      MaximalRun Piece.isWordChar before word after →
      Stands before after (.token (.ofWord word) word)

def Piece.Starts (c : Char) : Prop :=
  c = '/' ∨ c = '\n' ∨ c = ' ' ∨ c = '\t' ∨ c = '\r' ∨ c.isDigit = true ∨
    Text.isAlphabetic c = true

/-- The pieces stand one after another behind `before`, up to `left`. -/
def Stand (before : List Char) : List Piece → List Char → Prop
  | [], _ => True
  | piece :: rest, left =>
    piece.Stands before (rest.flatMap Piece.source ++ left) ∧
      Stand (before ++ piece.source) rest left

/-- The text is made up of the pieces, each in its place, and a rest that starts with none. -/
structure Cut (text : List Char) (found : List Piece) (left : List Char) : Prop where
  whole : text = found.flatMap Piece.source ++ left
  stand : Stand [] found left
  stop : ∀ c, left.head? = some c → ¬ Piece.Starts c

def placed (before : List Char) : List Piece → List Lexeme
  | [] => []
  | .token token source :: rest =>
    ⟨token, source, positionOf before⟩ :: placed (before ++ source) rest
  | .comment source :: rest => placed (before ++ source) rest

/-- The answer that a cut stands for: its tokens, or a complaint about where it stops. -/
def answer (before : List Char) (found : List Piece) : List Char → Except Fault (List Lexeme)
  | [] => .ok (placed before found)
  | c :: _ =>
    .error ⟨positionOf (before ++ found.flatMap Piece.source), .unexpectedCharacter c⟩

theorem answer_nil_cons (before : List Char) (c : Char) (rest : List Char) :
    answer before [] (c :: rest) = .error ⟨positionOf before, .unexpectedCharacter c⟩ := by
  rw [answer, List.flatMap_nil, List.append_nil]

theorem answer_comment (before source : List Char) (found : List Piece) (left : List Char) :
    answer before (.comment source :: found) left = answer (before ++ source) found left := by
  cases left with
  | nil => rfl
  | cons c rest => simp [answer, Piece.source]

theorem answer_token (before source : List Char) (token : Token) (found : List Piece)
    (left : List Char) :
    answer before (.token token source :: found) left =
      (answer (before ++ source) found left).map (⟨token, source, positionOf before⟩ :: ·) := by
  cases left with
  | nil => rfl
  | cons c rest => simp [answer, Except.map, Piece.source]

theorem locate_positionOf (before : List Char) (found : List Piece) :
    locate (positionOf before) found = placed before found := by
  induction found generalizing before with
  | nil => rfl
  | cons piece rest ih =>
    cases piece with
    | token token source => rw [locate, placed, after_positionOf, ih]
    | comment source => rw [locate, placed, after_positionOf, ih]

/-! ## The lexer's cut -/

/-- Not both the end of the one text and the start of the other are of the class. -/
def Apart (p : Char → Bool) (before after : List Char) : Prop :=
  before.getLast?.any p = true → Leaves p after

theorem Apart.of_all {p : Char → Bool} {before after : List Char}
    (h : ∀ c ∈ before, p c = false) : Apart p before after := by
  intro hlast
  obtain ⟨c, hc, hp⟩ := (Option.any_eq_true p _).mp hlast
  rw [h c (List.mem_of_getLast? hc)] at hp
  cases hp

/-- Neither a word nor a number goes on from the one text to the other. -/
def Boundary (before after : List Char) : Prop :=
  ∀ p, p = Piece.isWordChar ∨ p = Char.isDigit → Apart p before after

theorem Boundary.start (text : List Char) : Boundary [] text :=
  fun _ _ => .of_all (by simp)

theorem Boundary.front {before first rest : List Char} (h : Boundary before (first ++ rest))
    (hne : first ≠ []) : Boundary before first := by
  intro p hp hlast
  have hrest := h p hp hlast
  obtain ⟨c, tail, rfl⟩ := List.exists_cons_of_ne_nil hne
  exact hrest

theorem Boundary.behind {before last after : List Char} (h : Boundary last after)
    (hne : last ≠ []) : Boundary (before ++ last) after := by
  intro p hp hlast
  rw [List.getLast?_append, List.getLast?_eq_some_getLast hne, Option.some_or,
    ← List.getLast?_eq_some_getLast hne] at hlast
  exact h p hp hlast

theorem leaves_dropWhile (p : Char → Bool) (text : List Char) :
    Leaves p (text.dropWhile p) := by
  have hstop := List.head?_dropWhile_not p text
  cases hhead : (text.dropWhile p).head? with
  | none => rw [Leaves, hhead]; rfl
  | some c =>
    rw [hhead] at hstop
    rw [Leaves, hhead]
    exact hstop

theorem maximalRun_takeWhile {p : Char → Bool} {c : Char} (h : p c = true) (rest : List Char) :
    MaximalRun p [] (c :: rest.takeWhile p) (rest.dropWhile p) where
  all x hx := by
    rcases List.mem_cons.mp hx with rfl | hx
    · exact h
    · exact List.mem_takeWhile_imp hx
  before := rfl
  after := leaves_dropWhile p rest

theorem MaximalRun.behind {p : Char → Bool} {before run after : List Char}
    (hrun : MaximalRun p [] run after) (hne : run ≠ []) (happart : Apart p before run) :
    MaximalRun p before run after := by
  refine ⟨hrun.all, Bool.eq_false_iff.mpr fun hlast => ?_, hrun.after⟩
  obtain ⟨c, rest, rfl⟩ := List.exists_cons_of_ne_nil hne
  have hfirst : p c = false := happart hlast
  rw [hrun.all c (List.mem_cons_self ..)] at hfirst
  cases hfirst

namespace Piece

variable {piece : Piece} {before after text rest : List Char}

/-- The first piece of a text, with nothing before it. -/
theorem stands_of_next? (h : next? text = some (piece, rest)) : piece.Stands [] rest := by
  cases text with
  | nil => cases h
  | cons c tail =>
    rw [next?] at h
    split at h
    · rename_i hc
      subst hc
      split at h
      · rename_i hhead
        cases h
        obtain ⟨body, rfl⟩ := List.head?_eq_some_iff.mp hhead
        show Stands [] _ (.comment ('/' :: '/' :: body.takeWhile (· ≠ '\n')))
        refine .comment (fun hmem => ?_) (fun c hc => ?_)
        · simpa using List.mem_takeWhile_imp hmem
        · have hstop := leaves_dropWhile (· ≠ '\n') ('/' :: body)
          rw [Leaves, hc] at hstop
          simpa using hstop
      · rename_i hhead
        cases h
        exact .slash hhead
    · split at h
      · rename_i hc
        cases h
        subst hc
        exact .newline
      · split at h
        · rename_i hc
          cases h
          exact .blank (by simpa [isBlank, or_assoc] using hc)
        · split at h
          · rename_i hc
            cases h
            exact .number (by simp) (maximalRun_takeWhile hc tail)
          · split at h
            · rename_i hc
              cases h
              exact .word hc (maximalRun_takeWhile (isWordChar_iff.mpr (.inl hc)) tail)
            · cases h

/-- Nothing that ends a piece goes on in the text after it. -/
theorem Stands.boundary (h : piece.Stands before after) : Boundary piece.source after := by
  intro p hp
  have hany : ['/', '\n', ' ', '\t', '\r'].any p = false := by
    rcases hp with rfl | rfl <;> decide
  have hmarks : ∀ c ∈ ['/', '\n', ' ', '\t', '\r'], p c = false := fun c hc =>
    Bool.eq_false_iff.mpr (List.any_eq_false.mp hany c hc)
  cases h with
  | comment _ hstop =>
    intro _
    cases hhead : after.head? with
    | none => rw [Leaves, hhead]; rfl
    | some c =>
      rw [Leaves, hhead, hstop c hhead]
      exact hmarks '\n' (by simp)
  | slash => exact .of_all (by simp [source, hmarks])
  | newline => exact .of_all (by simp [source, hmarks])
  | blank hc => exact .of_all (by rcases hc with rfl | rfl | rfl <;> simp [source, hmarks])
  | number _ hrun =>
    rcases hp with rfl | rfl
    · exact .of_all fun c hc => isWordChar_of_isDigit (hrun.all c hc)
    · exact fun _ => hrun.after
  | word _ hrun =>
    rcases hp with rfl | rfl
    · exact fun _ => hrun.after
    · -- A word may stand before a number: no character of it is a digit.
      refine .of_all fun c hc => Bool.eq_false_iff.mpr fun hdigit => ?_
      have hword := hrun.all c hc
      rw [isWordChar_of_isDigit hdigit] at hword
      cases hword

/-- A piece that stands at the start of a text also stands behind a boundary. -/
theorem Stands.behind (h : piece.Stands [] after) (hboundary : Boundary before piece.source) :
    piece.Stands before after := by
  cases h with
  | comment hbody hstop => exact .comment hbody hstop
  | slash hhead => exact .slash hhead
  | newline => exact .newline
  | blank hc => exact .blank hc
  | number hne hrun => exact .number hne (hrun.behind hne (hboundary _ (.inr rfl)))
  | word hhead hrun =>
    refine .word hhead (hrun.behind ?_ (hboundary _ (.inl rfl)))
    rintro rfl
    cases hhead

theorem not_starts_of_next? {c : Char} (h : next? (c :: rest) = none) : ¬ Starts c := by
  intro hstarts
  rcases hstarts with rfl | rfl | rfl | rfl | rfl | hdigit | hletter
  · rw [next?, if_pos rfl] at h
    split at h <;> cases h
  · cases h
  · cases h
  · cases h
  · cases h
  · rw [next?_digit hdigit] at h
    cases h
  · rw [next?_letter hletter] at h
    cases h

theorem next?_of_not_starts {c : Char} (h : ¬ Starts c) : next? (c :: rest) = none := by
  simp only [Starts, not_or, Bool.not_eq_true] at h
  obtain ⟨hslash, hnewline, hspace, htab, hreturn, hdigit, hletter⟩ := h
  simp [next?, isBlank, hslash, hnewline, hspace, htab, hreturn, hdigit, hletter]

/-- The lexer takes a piece wherever one stands. -/
theorem next?_of_stands (h : piece.Stands before after) :
    next? (piece.source ++ after) = some (piece, after) := by
  cases h with
  | @comment body hbody hstop =>
    have hrun : ∀ c ∈ '/' :: body, decide (c ≠ '\n') = true := by
      intro c hc
      rcases List.mem_cons.mp hc with rfl | hc
      · rfl
      · exact decide_eq_true fun heq => hbody (heq ▸ hc)
    have hafter : Leaves (fun c => decide (c ≠ '\n')) after := by
      cases after with
      | nil => rfl
      | cons c rest => simp [Leaves, hstop c rfl]
    have htake := takeWhile_append_leaves hrun hafter
    have hdrop := dropWhile_append_leaves hrun hafter
    show next? ('/' :: ('/' :: body ++ after)) = _
    have hhead : ('/' :: body ++ after).head? = some '/' := rfl
    rw [next?, if_pos rfl, if_pos hhead, htake, hdrop]
  | slash hhead => exact next?_slash hhead
  | newline => exact next?_newline after
  | blank hc =>
    rcases hc with rfl | rfl | rfl
    · rfl
    · rfl
    · rfl
  | @number digits hne hrun =>
    obtain ⟨c, rest, rfl⟩ := List.exists_cons_of_ne_nil hne
    have hrest := fun x hx => hrun.all x (List.mem_cons_of_mem _ hx)
    have hnext := next?_digit (hrun.all c (List.mem_cons_self ..)) (rest ++ after)
    rwa [takeWhile_append_leaves hrest hrun.after, dropWhile_append_leaves hrest hrun.after]
      at hnext
  | @word word hhead hrun =>
    cases word with
    | nil => cases hhead
    | cons c rest =>
      have hrest := fun x hx => hrun.all x (List.mem_cons_of_mem _ hx)
      have hnext := next?_letter hhead (rest ++ after)
      rwa [takeWhile_append_leaves hrest hrun.after, dropWhile_append_leaves hrest hrun.after]
        at hnext

end Piece

/-- Each piece of a text stands in its place, behind a text that leaves it alone. -/
theorem stand_pieces {before text : List Char} (h : Boundary before text) :
    Stand before (pieces text).1 (pieces text).2 := by
  induction text using pieceInduction generalizing before with
  | stop text hn =>
    rw [pieces_of_next?_none hn]
    trivial
  | step text piece rest hn ih =>
    have hpiece := Piece.stands_of_next? hn
    have hne := Piece.source_ne_nil_of_next? hn
    rw [pieces_of_next? hn]
    rw [← Piece.source_append_of_next? hn] at h
    -- What follows the piece is `rest`, which the piece has left alone.
    refine ⟨?_, ih (hpiece.boundary.behind hne)⟩
    rw [source_pieces]
    exact hpiece.behind (h.front hne)

theorem cut_pieces (text : List Char) : Cut text (pieces text).1 (pieces text).2 where
  whole := (source_pieces text).symm
  stand := stand_pieces (.start text)
  stop := by
    induction text using pieceInduction with
    | stop text hn =>
      rw [pieces_of_next?_none hn]
      intro c hc
      obtain ⟨rest, rfl⟩ := List.head?_eq_some_iff.mp hc
      exact Piece.not_starts_of_next? hn
    | step text piece rest hn ih =>
      rw [pieces_of_next? hn]
      exact ih

theorem pieces_of_stand {before : List Char} {found : List Piece} {left : List Char}
    (h : Stand before found left) (hstop : ∀ c, left.head? = some c → ¬ Piece.Starts c) :
    pieces (found.flatMap Piece.source ++ left) = (found, left) := by
  induction found generalizing before with
  | nil =>
    have hnone : Piece.next? left = none := by
      cases left with
      | nil => rfl
      | cons c rest => exact Piece.next?_of_not_starts (hstop c rfl)
    exact pieces_of_next?_none hnone
  | cons piece rest ih =>
    obtain ⟨hpiece, hrest⟩ := h
    rw [List.flatMap_cons, List.append_assoc, pieces_of_next? (Piece.next?_of_stands hpiece),
      ih hrest]

theorem pieces_of_cut {text : List Char} {found : List Piece} {left : List Char}
    (h : Cut text found left) : pieces text = (found, left) := by
  rw [h.whole]
  exact pieces_of_stand h.stand h.stop

theorem lex_eq_answer {text : List Char} {found : List Piece} {left : List Char}
    (h : Cut text found left) : lex text = answer [] found left := by
  simp only [lex, pieces_of_cut h]
  cases left with
  | nil => exact congrArg Except.ok (locate_positionOf [] found)
  | cons c rest =>
    simp only [start_after]
    rfl

end Solfege
