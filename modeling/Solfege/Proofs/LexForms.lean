import Solfege.Proofs.LexLines

/-!
# Solfege.Proofs.LexForms

Texts that lex to one token, in front of a text that cannot make the token longer.

* `IsWord`            — a text that the lexer takes for a word and for no keyword.
* `Lexes.word`        — a run of word characters before another text; `Lexes.number` the same for
  the digits of a number.
* `Lexes.isWord`      — every word among the tokens of a text is one.
* `Lexes.newline_mem` — a break in a text shows among its tokens.
-/

namespace Solfege

/-! ## Words -/

/-- The text starts with a letter and is made of letters and `#`. -/
structure WordShape (text : List Char) : Prop where
  head : text.head?.any Text.isAlphabetic = true
  all : ∀ c ∈ text, Text.isAlphabetic c = true ∨ c = '#'

/-- A word that is no keyword. -/
structure IsWord (text : String) : Prop where
  shape : WordShape text.toList
  plain : Token.keyword? text.toList = none

theorem Piece.isWordChar_iff {c : Char} :
    isWordChar c = true ↔ Text.isAlphabetic c = true ∨ c = '#' := by
  simp [isWordChar]

theorem wordShape_iff {text : List Char} :
    WordShape text ↔
      text.head?.any Text.isAlphabetic = true ∧ text.all Piece.isWordChar = true := by
  simp only [List.all_eq_true, Piece.isWordChar_iff]
  exact ⟨fun h => ⟨h.head, h.all⟩, fun h => ⟨h.1, h.2⟩⟩

instance (text : List Char) : Decidable (WordShape text) :=
  decidable_of_iff _ wordShape_iff.symm

instance (text : String) : Decidable (IsWord text) :=
  decidable_of_iff (WordShape text.toList ∧ Token.keyword? text.toList = none)
    ⟨fun h => ⟨h.1, h.2⟩, fun h => ⟨h.shape, h.plain⟩⟩

/-- No digit is a letter. -/
theorem Text.isAlphabetic_of_isDigit {c : Char} (h : c.isDigit = true) :
    isAlphabetic c = false := by
  have hdigit := of_decide_eq_true ((Bool.and_eq_true _ _).mp h).2
  have hhigh : c.toNat ≤ 57 := UInt32.le_iff_toNat_le.mp hdigit
  rw [isAlphabetic, if_pos (by omega), ← Bool.not_eq_true]
  intro hletter
  rcases (Bool.or_eq_true _ _).mp hletter with hupper | hlower
  · have hlow : 65 ≤ c.toNat := UInt32.le_iff_toNat_le.mp (of_decide_eq_true hupper).1
    omega
  · have hsmall := of_decide_eq_true ((Bool.and_eq_true _ _).mp hlower).1
    have hlow : 97 ≤ c.toNat := UInt32.le_iff_toNat_le.mp hsmall
    omega

theorem Piece.isWordChar_of_isDigit {c : Char} (h : c.isDigit = true) : isWordChar c = false := by
  have hsharp : c ≠ '#' := by
    rintro rfl
    cases h
  simp [isWordChar, Text.isAlphabetic_of_isDigit h, hsharp]

theorem Token.ofWord_ne_newline (word : List Char) : ofWord word ≠ .newline := by
  unfold ofWord keyword?
  repeat' split
  all_goals simp

theorem Token.keyword?_ne_word (text : List Char) (word : String) :
    keyword? text ≠ some (.word word) := by
  unfold keyword?
  repeat' split
  all_goals simp

theorem Token.ofWord_eq_word {text : List Char} {word : String} (h : ofWord text = .word word) :
    keyword? text = none ∧ word = String.ofList text := by
  rw [ofWord] at h
  cases hk : keyword? text with
  | none =>
    rw [hk] at h
    cases h
    exact ⟨rfl, rfl⟩
  | some found =>
    rw [hk] at h
    cases h
    exact absurd hk (keyword?_ne_word text word)

namespace Piece

/-- A class without slashes, breaks and blanks keeps a character from the first three forms. -/
theorem not_mark {p : Char → Bool} (hp : ['/', '\n', ' ', '\t', '\r'].any p = false) {c : Char}
    (h : p c = true) : c ≠ '/' ∧ c ≠ '\n' ∧ isBlank c = false := by
  have hne : ∀ mark ∈ ['/', '\n', ' ', '\t', '\r'], c ≠ mark := by
    rintro mark hmark rfl
    exact List.any_eq_false.mp hp c hmark h
  simp [isBlank, hne]

/-- A letter starts a word and nothing else. -/
theorem next?_letter {c : Char} (h : Text.isAlphabetic c = true) (rest : List Char) :
    next? (c :: rest) = some (.token (.ofWord (c :: rest.takeWhile isWordChar))
      (c :: rest.takeWhile isWordChar), rest.dropWhile isWordChar) := by
  obtain ⟨hslash, hnewline, hblank⟩ := not_mark (by decide) h
  have hdigit : c.isDigit = false := by
    rw [← Bool.not_eq_true]
    intro hd
    rw [Text.isAlphabetic_of_isDigit hd] at h
    cases h
  simp [next?, hslash, hnewline, hblank, hdigit, h]

theorem next?_digit {c : Char} (h : c.isDigit = true) (rest : List Char) :
    next? (c :: rest) = some (.token (.ofDigits (c :: rest.takeWhile Char.isDigit))
      (c :: rest.takeWhile Char.isDigit), rest.dropWhile Char.isDigit) := by
  obtain ⟨hslash, hnewline, hblank⟩ := not_mark (by decide) h
  simp [next?, hslash, hnewline, hblank, h]

theorem next?_slash {rest : List Char} (h : rest.head? ≠ some '/') :
    next? ('/' :: rest) = some (.token .slash ['/'], rest) := by
  rw [next?, if_pos rfl, if_neg h]

/-- The five kinds of tokens that a text can start with. -/
theorem token_cases {text rest source : List Char} {found : Token}
    (h : next? text = some (.token found source, rest)) :
    found = .slash ∨ (found = .newline ∧ '\n' ∈ text) ∨ found = .blank ∨
      (∃ digits, found = .ofDigits digits) ∨ ∃ word, WordShape word ∧ found = .ofWord word := by
  cases text with
  | nil => cases h
  | cons c tail =>
    rw [next?] at h
    split at h
    · split at h <;> cases h
      exact .inl rfl
    · split at h
      · rename_i hc
        cases h
        exact .inr (.inl ⟨rfl, hc ▸ List.mem_cons_self ..⟩)
      · split at h
        · cases h
          exact .inr (.inr (.inl rfl))
        · split at h
          · cases h
            exact .inr (.inr (.inr (.inl ⟨_, rfl⟩)))
          · split at h
            · rename_i hc
              cases h
              refine .inr (.inr (.inr (.inr ⟨c :: tail.takeWhile isWordChar, ⟨hc, ?_⟩, rfl⟩)))
              intro x hx
              rcases List.mem_cons.mp hx with rfl | hx
              · exact .inl hc
              · exact isWordChar_iff.mp (List.mem_takeWhile_imp hx)
            · cases h

/-- Only a break is read as one. -/
theorem newline_mem_of_next? {text rest source : List Char}
    (h : next? text = some (.token .newline source, rest)) : '\n' ∈ text := by
  obtain h | h | h | ⟨digits, h⟩ | ⟨word, _, h⟩ := token_cases h
  · cases h
  · exact h.2
  · cases h
  · cases h
  · exact absurd h.symm (Token.ofWord_ne_newline word)

/-- A word that the lexer finds is one. -/
theorem isWord_of_next? {text rest source : List Char} {word : String}
    (h : next? text = some (.token (.word word) source, rest)) : IsWord word := by
  obtain h | h | h | ⟨digits, h⟩ | ⟨run, hshape, h⟩ := token_cases h
  · cases h
  · cases h.1
  · cases h
  · cases h
  · obtain ⟨hplain, rfl⟩ := Token.ofWord_eq_word h.symm
    rw [← @String.toList_ofList run] at hshape hplain
    exact ⟨hshape, hplain⟩

end Piece

/-! ## One token in front of a text -/

/-- The text does not go on with a character of the class. -/
def Leaves (p : Char → Bool) (rest : List Char) : Prop :=
  rest.head?.any p = false

theorem takeWhile_append_leaves {p : Char → Bool} {run rest : List Char}
    (h : ∀ c ∈ run, p c = true) (hrest : Leaves p rest) : (run ++ rest).takeWhile p = run := by
  rw [List.takeWhile_append_of_pos h]
  cases rest with
  | nil => simp
  | cons c tail => simp [show p c = false from hrest]

theorem dropWhile_append_leaves {p : Char → Bool} {run rest : List Char}
    (h : ∀ c ∈ run, p c = true) (hrest : Leaves p rest) : (run ++ rest).dropWhile p = rest := by
  rw [List.dropWhile_append_of_pos h]
  cases rest with
  | nil => rfl
  | cons c tail => simp [show p c = false from hrest]

theorem isDigit_of_mem_repr {value : Nat} {c : Char} (h : c ∈ value.repr.toList) :
    c.isDigit = true := by
  rw [Nat.toList_repr] at h
  exact Nat.isDigit_of_mem_toDigits (by decide) (by decide) h

/-- A number goes on with no character that is no digit. -/
theorem leaves_repr {p : Char → Bool} (hp : ∀ c : Char, c.isDigit = true → p c = false)
    (value : Nat) (rest : List Char) : Leaves p (value.repr.toList ++ rest) := by
  cases hd : value.repr.toList with
  | nil =>
    rw [Nat.toList_repr] at hd
    exact absurd hd Nat.toDigits_ne_nil
  | cons c tail => exact hp c (isDigit_of_mem_repr (hd ▸ List.mem_cons_self ..))

namespace Lexes

variable {rest : List Char} {tokens : List Token}

theorem nil : Lexes [] [] := by
  rw [lexes_iff, pieces_nil]
  exact ⟨rfl, rfl⟩

theorem of_next? {text source : List Char} {token : Token}
    (hn : Piece.next? text = some (.token token source, rest)) (h : Lexes rest tokens) :
    Lexes text (token :: tokens) := by
  rw [lexes_iff] at h ⊢
  rw [pieces_of_next? hn]
  exact ⟨h.1, by rw [List.filterMap_cons, h.2]; rfl⟩

theorem word (text : List Char) {found : Token} (hshape : WordShape text)
    (hfound : Token.ofWord text = found) (hrest : Leaves Piece.isWordChar rest)
    (h : Lexes rest tokens) : Lexes (text ++ rest) (found :: tokens) := by
  obtain ⟨hhead, hall⟩ := hshape
  cases text with
  | nil => cases hhead
  | cons c tail =>
    have hnext := Piece.next?_letter hhead (tail ++ rest)
    have htail : ∀ x ∈ tail, Piece.isWordChar x = true := fun x hx =>
      Piece.isWordChar_iff.mpr (hall x (List.mem_cons_of_mem _ hx))
    rw [takeWhile_append_leaves htail hrest, dropWhile_append_leaves htail hrest, hfound] at hnext
    exact of_next? hnext h

theorem plainWord {word : String} (hword : IsWord word) (hrest : Leaves Piece.isWordChar rest)
    (h : Lexes rest tokens) : Lexes (word.toList ++ rest) (.word word :: tokens) := by
  have hfound : Token.ofWord word.toList = .word word := by
    rw [Token.ofWord, hword.plain, Option.getD_none, String.ofList_toList]
  exact .word word.toList hword.shape hfound hrest h

/-- A number that fits is read as it is written. -/
theorem number {value : Nat} (hvalue : value ≤ Token.maxNumber)
    (hrest : Leaves Char.isDigit rest) (h : Lexes rest tokens) :
    Lexes (value.repr.toList ++ rest) (.number value :: tokens) := by
  have hdigits : ∀ c ∈ value.repr.toList, c.isDigit = true := fun c => isDigit_of_mem_repr
  have hread : Token.ofDigits value.repr.toList = .number value := by
    rw [Token.ofDigits, Decimal.Literal.digitsValue, ← Nat.ofDigitChars_eq_foldl, Nat.toList_repr,
      Nat.ofDigitChars_ten_toDigits, Nat.min_eq_right hvalue]
  cases hd : value.repr.toList with
  | nil =>
    rw [Nat.toList_repr] at hd
    exact absurd hd Nat.toDigits_ne_nil
  | cons c tail =>
    rw [hd] at hdigits hread
    have hnext := Piece.next?_digit (hdigits c (List.mem_cons_self ..)) (tail ++ rest)
    have htail := fun x hx => hdigits x (List.mem_cons_of_mem _ hx)
    rw [takeWhile_append_leaves htail hrest, dropWhile_append_leaves htail hrest, hread] at hnext
    exact of_next? hnext h

theorem blank (h : Lexes rest tokens) : Lexes (' ' :: rest) (.blank :: tokens) :=
  of_next? rfl h

theorem slash (hrest : Leaves (· = '/') rest) (h : Lexes rest tokens) :
    Lexes ('/' :: rest) (.slash :: tokens) := by
  have hhead : rest.head? ≠ some '/' := by
    intro hr
    rw [Leaves, hr] at hrest
    cases hrest
  exact of_next? (Piece.next?_slash hhead) h

/-! ## What the tokens of a text say about it -/

theorem newline_mem {text : List Char} (h : Lexes text tokens) (hn : '\n' ∈ text) :
    .newline ∈ tokens := by
  obtain ⟨first, second, rfl⟩ := List.append_of_mem hn
  obtain ⟨front, back, _, _, rfl⟩ := lexes_append_newline.mp h
  exact List.mem_append_right _ (List.mem_cons_self ..)

theorem isWord {text : List Char} {word : String} (h : Lexes text tokens)
    (hw : .word word ∈ tokens) : IsWord word := by
  -- A text may stop lexing later on; its words up to there are words all the same.
  obtain ⟨-, rfl⟩ := lexes_iff.mp h
  clear h
  induction text using pieceInduction with
  | stop text hn =>
    rw [pieces_of_next?_none hn] at hw
    cases hw
  | step text piece rest hn ih =>
    rw [pieces_of_next? hn] at hw
    cases piece with
    | comment source => exact ih hw
    | token found source =>
      rcases List.mem_cons.mp hw with rfl | hw
      · exact Piece.isWord_of_next? hn
      · exact ih hw

end Lexes

end Solfege
