import Solfege.Proofs.Lines
import Solfege.Token.Lexer

/-!
# Solfege.Proofs.LexLines

Lexing line by line. No piece holds a line break beside other characters, so the pieces of a text
are those of its lines with a break between neighbours (`pieces_append_newline`), and a line may
be cut where its comment starts (`lexes_beforeComment`).

* `Lexes`                — a text gives these tokens.
* `lexes_append_newline` — the tokens of a line, a break and a text.
* `beforeComment`        — a line without its comment.
-/

namespace Solfege

/-! ## Runs of characters -/

section Runs

variable {α : Type} {p : α → Bool} {c : α}

/-- A run ends before a character that is not of its class. -/
theorem takeWhile_append_stop (h : p c = false) (first rest : List α) :
    (first ++ c :: rest).takeWhile p = first.takeWhile p := by
  induction first with
  | nil => simp [h]
  | cons d tail ih => simp only [List.cons_append, List.takeWhile_cons, ih]

theorem dropWhile_append_stop (h : p c = false) (first rest : List α) :
    (first ++ c :: rest).dropWhile p = first.dropWhile p ++ c :: rest := by
  induction first with
  | nil => simp [h]
  | cons d tail ih =>
    simp only [List.cons_append, List.dropWhile_cons, ih]
    split <;> rfl

end Runs

/-! ## One piece -/

namespace Piece

theorem isWordChar_newline : isWordChar '\n' = false := by decide

/-- What follows a break does not show in the piece before it. -/
theorem next?_append_newline {first : List Char} (h : first ≠ []) (rest : List Char) :
    next? (first ++ '\n' :: rest) =
      (next? first).map fun found => (found.1, found.2 ++ '\n' :: rest) := by
  obtain ⟨c, tail, rfl⟩ := List.exists_cons_of_ne_nil h
  rw [List.cons_append, next?, next?]
  have hhead : (tail ++ '\n' :: rest).head? = some '/' ↔ tail.head? = some '/' := by
    cases tail <;> simp
  simp only [hhead, takeWhile_append_stop isWordChar_newline,
    dropWhile_append_stop isWordChar_newline,
    takeWhile_append_stop (p := Char.isDigit) (c := '\n') (by decide),
    dropWhile_append_stop (p := Char.isDigit) (c := '\n') (by decide),
    takeWhile_append_stop (p := fun x => decide (x ≠ '\n')) (c := '\n') (by decide),
    dropWhile_append_stop (p := fun x => decide (x ≠ '\n')) (c := '\n') (by decide)]
  repeat' split
  all_goals rfl

theorem next?_newline (rest : List Char) :
    next? ('\n' :: rest) = some (.token .newline ['\n'], rest) := rfl

/-- The tokens among pieces. -/
def token? : Piece → Option Token
  | .token found _ => some found
  | .comment _ => none

end Piece

theorem pieces_nil : pieces [] = ([], []) := by
  rw [pieces]
  rfl

theorem pieces_of_next? {text rest : List Char} {piece : Piece}
    (h : Piece.next? text = some (piece, rest)) :
    pieces text = (piece :: (pieces rest).1, (pieces rest).2) := by
  rw [pieces]
  split
  · rename_i hn
    rw [h] at hn
    cases hn
  · rename_i hn
    rw [h] at hn
    cases hn
    rfl

theorem pieces_of_next?_none {text : List Char} (h : Piece.next? text = none) :
    pieces text = ([], text) := by
  rw [pieces]
  split
  · rfl
  · rename_i hn
    rw [h] at hn
    cases hn

/-- The pieces of a text, taken off one at a time: there is no next one, or there is a first. -/
theorem pieceInduction {motive : List Char → Prop}
    (stop : ∀ text, Piece.next? text = none → motive text)
    (step : ∀ text piece rest, Piece.next? text = some (piece, rest) → motive rest → motive text)
    (text : List Char) : motive text := by
  match h : Piece.next? text with
  | none => exact stop text h
  | some (piece, rest) =>
    have := Piece.length_lt_of_next? h
    exact step text piece rest h (pieceInduction stop step rest)
termination_by text.length

/-- Nothing is lost: the pieces and what is left make up the text. -/
theorem source_pieces (text : List Char) :
    (pieces text).1.flatMap Piece.source ++ (pieces text).2 = text := by
  induction text using pieceInduction with
  | stop text hn =>
    rw [pieces_of_next?_none hn]
    rfl
  | step text piece rest hn ih =>
    rw [pieces_of_next? hn, List.flatMap_cons, List.append_assoc, ih,
      Piece.source_append_of_next? hn]

theorem source_pieces_of_lex {text : List Char} (h : (pieces text).2 = []) :
    (pieces text).1.flatMap Piece.source = text := by
  have hsource := source_pieces text
  rwa [h, List.append_nil] at hsource

/-! ## Pieces and lines -/

theorem pieces_newline (rest : List Char) :
    pieces ('\n' :: rest) = (.token .newline ['\n'] :: (pieces rest).1, (pieces rest).2) :=
  pieces_of_next? (Piece.next?_newline rest)

/-- A line that lexes to its end is followed by a break and the pieces after it. -/
theorem pieces_append_newline {first : List Char} (h : (pieces first).2 = []) (rest : List Char) :
    pieces (first ++ '\n' :: rest) =
      ((pieces first).1 ++ .token .newline ['\n'] :: (pieces rest).1, (pieces rest).2) := by
  induction first using pieceInduction with
  | stop text hn =>
    rw [pieces_of_next?_none hn] at h ⊢
    subst h
    exact pieces_newline rest
  | step text piece more hn ih =>
    have hne : text ≠ [] := by
      rintro rfl
      cases hn
    rw [pieces_of_next? hn] at h ⊢
    have hnext := Piece.next?_append_newline hne rest
    rw [hn] at hnext
    rw [pieces_of_next? hnext, ih h]
    rfl

/-- A line that does not lex stops the text that it starts. -/
theorem pieces_append_newline_of_stop {first : List Char} (h : (pieces first).2 ≠ [])
    (rest : List Char) :
    pieces (first ++ '\n' :: rest) = ((pieces first).1, (pieces first).2 ++ '\n' :: rest) := by
  induction first using pieceInduction with
  | stop text hn =>
    rw [pieces_of_next?_none hn] at h ⊢
    have hnext := Piece.next?_append_newline h rest
    rw [hn] at hnext
    exact pieces_of_next?_none hnext
  | step text piece more hn ih =>
    have hne : text ≠ [] := by
      rintro rfl
      cases hn
    rw [pieces_of_next? hn] at h ⊢
    have hnext := Piece.next?_append_newline hne rest
    rw [hn] at hnext
    rw [pieces_of_next? hnext, ih h]

/-! ## Tokens of a text -/

theorem map_token_locate (p : Position) (found : List Piece) :
    (locate p found).map Lexeme.token = found.filterMap Piece.token? := by
  induction found generalizing p with
  | nil => rfl
  | cons piece rest ih =>
    cases piece with
    | token token source => simp [locate, Piece.token?, ih]
    | comment source =>
      rw [locate, ih]
      rfl

/-- The text gives these tokens. -/
def Lexes (text : List Char) (tokens : List Token) : Prop :=
  ∃ lexemes, lex text = .ok lexemes ∧ lexemes.map Lexeme.token = tokens

theorem lex_of_pieces {text : List Char} (h : (pieces text).2 = []) :
    lex text = .ok (locate .start (pieces text).1) := by
  simp only [lex, h]

theorem pieces_of_lex {text : List Char} {lexemes : List Lexeme} (h : lex text = .ok lexemes) :
    (pieces text).2 = [] ∧ lexemes = locate .start (pieces text).1 := by
  simp only [lex] at h
  split at h
  · rename_i hnil
    cases h
    exact ⟨hnil, rfl⟩
  · cases h

theorem lexes_iff {text : List Char} {tokens : List Token} :
    Lexes text tokens ↔
      (pieces text).2 = [] ∧ (pieces text).1.filterMap Piece.token? = tokens := by
  constructor
  · rintro ⟨lexemes, hlex, htokens⟩
    obtain ⟨hnil, rfl⟩ := pieces_of_lex hlex
    rw [map_token_locate] at htokens
    exact ⟨hnil, htokens⟩
  · rintro ⟨hnil, htokens⟩
    exact ⟨_, lex_of_pieces hnil, by rw [map_token_locate, htokens]⟩

theorem lexes_append_newline {first rest : List Char} {tokens : List Token} :
    Lexes (first ++ '\n' :: rest) tokens ↔
      ∃ front back, Lexes first front ∧ Lexes rest back ∧ tokens = front ++ .newline :: back := by
  simp only [lexes_iff]
  by_cases h : (pieces first).2 = []
  · rw [pieces_append_newline h]
    constructor
    · rintro ⟨hrest, rfl⟩
      exact ⟨_, _, ⟨h, rfl⟩, ⟨hrest, rfl⟩, by simp [Piece.token?]⟩
    · rintro ⟨front, back, ⟨_, rfl⟩, ⟨hrest, rfl⟩, rfl⟩
      exact ⟨hrest, by simp [Piece.token?]⟩
  · rw [pieces_append_newline_of_stop h]
    constructor
    · rintro ⟨hnil, _⟩
      simp at hnil
    · rintro ⟨_, _, ⟨hnil, _⟩, _⟩
      exact absurd hnil h

/-! ## Comments -/

/-- The text up to its first `//`. -/
def beforeComment : List Char → List Char
  | [] => []
  | c :: rest =>
    if c = '/' ∧ rest.head? = some '/' then [] else c :: beforeComment rest

section Comment

variable {p : Char → Bool} (hp : p '/' = false)

include hp

/-- No run of word characters or digits reaches into a comment. -/
theorem takeWhile_beforeComment (text : List Char) :
    (beforeComment text).takeWhile p = text.takeWhile p := by
  induction text with
  | nil => rfl
  | cons c rest ih =>
    rw [beforeComment]
    split
    · rename_i h
      simp [h.1, hp]
    · simp only [List.takeWhile_cons, ih]

theorem dropWhile_beforeComment (text : List Char) :
    (beforeComment text).dropWhile p = beforeComment (text.dropWhile p) := by
  induction text with
  | nil => rfl
  | cons c rest ih =>
    by_cases h : c = '/' ∧ rest.head? = some '/'
    · simp [beforeComment, h, hp]
    · rw [beforeComment, if_neg h, List.dropWhile_cons, List.dropWhile_cons, ih]
      split
      · rfl
      · rw [beforeComment, if_neg h]

end Comment

theorem head?_beforeComment {text : List Char} {c : Char}
    (h : (beforeComment text).head? = some c) : text.head? = some c := by
  cases text with
  | nil => exact h
  | cons d rest =>
    rw [beforeComment] at h
    split at h
    · cases h
    · exact h

theorem Piece.next?_comment {c : Char} {rest : List Char} (h : c = '/' ∧ rest.head? = some '/')
    (hrest : '\n' ∉ rest) : next? (c :: rest) = some (.comment (c :: rest), []) := by
  have hall : ∀ x ∈ rest, decide (x ≠ '\n') = true := by
    intro x hx
    rw [decide_eq_true_iff]
    rintro rfl
    exact hrest hx
  rw [next?, if_pos h.1, if_pos h.2, List.takeWhile_eq_self_iff.mpr hall,
    List.dropWhile_eq_nil_iff.mpr hall]

theorem Piece.next?_beforeComment {c : Char} {rest : List Char}
    (h : ¬ (c = '/' ∧ rest.head? = some '/')) :
    next? (beforeComment (c :: rest)) =
      (next? (c :: rest)).map fun found => (found.1, beforeComment found.2) := by
  rw [beforeComment, if_neg h, next?, next?]
  simp only [takeWhile_beforeComment (p := isWordChar) (by decide),
    dropWhile_beforeComment (p := isWordChar) (by decide),
    takeWhile_beforeComment (p := Char.isDigit) (by decide),
    dropWhile_beforeComment (p := Char.isDigit) (by decide)]
  split
  · rename_i hc
    have hhead : rest.head? ≠ some '/' := fun hr => h ⟨hc, hr⟩
    rw [if_neg hhead, if_neg fun hb => hhead (head?_beforeComment hb)]
    rfl
  · repeat' split
    all_goals rfl

/-- A line may be cut at its comment before it is lexed. -/
theorem lexes_beforeComment {line : List Char} (h : '\n' ∉ line) {tokens : List Token} :
    Lexes (beforeComment line) tokens ↔ Lexes line tokens := by
  suffices hboth : ((pieces (beforeComment line)).2 = [] ↔ (pieces line).2 = []) ∧
      (pieces (beforeComment line)).1.filterMap Piece.token? =
        (pieces line).1.filterMap Piece.token? by
    rw [lexes_iff, lexes_iff, hboth.1, hboth.2]
  induction line using pieceInduction with
  | stop text hn =>
    cases text with
    | nil => exact ⟨Iff.rfl, rfl⟩
    | cons c rest =>
      have hc : ¬ (c = '/' ∧ rest.head? = some '/') := by
        rintro ⟨rfl, hhead⟩
        simp [Piece.next?, hhead] at hn
      have hcut := Piece.next?_beforeComment hc
      rw [hn] at hcut
      rw [pieces_of_next?_none hn, pieces_of_next?_none hcut, beforeComment, if_neg hc]
      simp
  | step text piece more hn ih =>
    have hmore : '\n' ∉ more := by
      intro hm
      apply h
      rw [← Piece.source_append_of_next? hn]
      exact List.mem_append_right _ hm
    cases text with
    | nil => cases hn
    | cons c rest =>
      by_cases hc : c = '/' ∧ rest.head? = some '/'
      · have hcomment := Piece.next?_comment hc fun hr => h (List.mem_cons_of_mem _ hr)
        rw [beforeComment, if_pos hc, pieces_of_next? hcomment, pieces_nil]
        exact ⟨Iff.rfl, rfl⟩
      · have hcut := Piece.next?_beforeComment hc
        rw [hn] at hcut
        obtain ⟨hleft, htokens⟩ := ih hmore
        rw [pieces_of_next? hn, pieces_of_next? hcut]
        refine ⟨hleft, ?_⟩
        rw [List.filterMap_cons, List.filterMap_cons, htokens]

end Solfege
