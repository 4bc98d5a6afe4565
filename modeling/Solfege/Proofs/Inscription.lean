import Mathlib.Data.List.Induction
import Mathlib.Data.Nat.Digits.Defs
import Solfege.Proofs.LineGrammar
import Solfege.Proofs.Lossless

/-!
# Solfege.Proofs.Inscription

Lines as they are written, character by character.

`Inscribed line script?` gives the texts that a line can have: apart from margins and a remark at
the end it is empty, or it spells out an item with its numbers in digits. Any number of digits will
do, and leading zeros are digits like others.

* `Digits.value`        — the number that a run of digits writes.
* `ofDigits_run`        — the lexer reads it up to its largest number.
* `lineReads_inscribed` — the lines that are read are the inscribed ones, and a number is stored as
  it is written or, above the largest 32-bit integer, as that.
-/

namespace Solfege

/-! ## Digits -/

/-- A number in writing: digits, at least one. -/
structure Digits where
  run : List Char
  ne_nil : run ≠ []
  all : ∀ c ∈ run, c.isDigit = true

namespace Digits

/-- Ones, tens, hundreds and so on, from the last digit to the first. -/
def value (digits : Digits) : Nat :=
  Nat.ofDigits 10 (digits.run.reverse.map fun c => c.toNat - '0'.toNat)

/-- The largest 32-bit integer stands for the numbers above it. -/
def stored (digits : Digits) : Int :=
  (min digits.value 2147483647 : Nat)

theorem digitsValue_eq_ofDigits (run : List Char) :
    Decimal.Literal.digitsValue 0 run =
      Nat.ofDigits 10 (run.reverse.map fun c => c.toNat - '0'.toNat) := by
  induction run using List.reverseRecOn with
  | nil => rfl
  | append_singleton run c ih =>
    have hstep : Decimal.Literal.digitsValue 0 (run ++ [c]) =
        10 * Decimal.Literal.digitsValue 0 run + (c.toNat - '0'.toNat) := by
      rw [Decimal.Literal.digitsValue, List.foldl_append]
      rfl
    rw [hstep, ih, List.reverse_append, List.reverse_singleton, List.singleton_append,
      List.map_cons, Nat.ofDigits_cons, Nat.add_comm]

theorem ofDigits_run (digits : Digits) :
    Token.ofDigits digits.run = .number (min digits.value 4294967295) := by
  rw [Token.ofDigits, digitsValue_eq_ofDigits, Nat.min_comm]
  rfl

/-- The two limits one after the other are the lower one. -/
theorem clamp_min (digits : Digits) : clamp (min digits.value 4294967295) = digits.stored := by
  rw [clamp, stored]
  omega

theorem leaves_run (digits : Digits) {p : Char → Bool}
    (hp : ∀ c : Char, c.isDigit = true → p c = false) (rest : List Char) :
    Leaves p (digits.run ++ rest) := by
  obtain ⟨c, tail, hrun⟩ := List.exists_cons_of_ne_nil digits.ne_nil
  rw [hrun]
  exact hp c (digits.all c (hrun ▸ List.mem_cons_self ..))

theorem next?_run (digits : Digits) {rest : List Char} (h : Leaves Char.isDigit rest) :
    Piece.next? (digits.run ++ rest) =
      some (.token (.number (min digits.value 4294967295)) digits.run, rest) := by
  have hread := digits.ofDigits_run
  obtain ⟨run, hne, hall⟩ := digits
  obtain ⟨c, tail, rfl⟩ := List.exists_cons_of_ne_nil hne
  have htail := fun x hx => hall x (List.mem_cons_of_mem _ hx)
  have hnext := Piece.next?_digit (hall c (List.mem_cons_self ..)) (tail ++ rest)
  rwa [takeWhile_append_leaves htail h, dropWhile_append_leaves htail h, hread] at hnext

end Digits

/-! ## Lines in writing -/

def Gap (text : List Char) : Prop :=
  ∀ c ∈ text, Piece.isBlank c = true

instance (text : List Char) : Decidable (Gap text) :=
  decidable_of_iff (text.all Piece.isBlank = true) List.all_eq_true

def Remark (text : List Char) : Prop :=
  text = [] ∨ ['/', '/'] <+: text

/-- What may follow an item, or stand on a line that has none. -/
def Ending (text : List Char) : Prop :=
  ∃ gap remark, Gap gap ∧ Remark remark ∧ text = gap ++ remark

/-- A spelling of the keyword. -/
structure Keyword (token : Token) (text : List Char) : Prop where
  shape : WordShape text
  reads : Token.keyword? text = some token

instance (token : Token) (text : List Char) : Decidable (Keyword token text) :=
  decidable_of_iff (WordShape text ∧ Token.keyword? text = some token)
    ⟨fun h => ⟨h.1, h.2⟩, fun h => ⟨h.shape, h.reads⟩⟩

/-- An item with its numbers in writing. -/
inductive Script where
  | tempo (bpm : Digits)
  | timeSignature (numerator denominator : Digits)
  | key (root : String) (mode : Mode)
  | note (name : String) (octave : Digits) (duration : Duration)

def Script.item : Script → Item
  | .tempo bpm => .declaration (.tempo bpm.stored)
  | .timeSignature numerator denominator =>
    .declaration (.timeSignature numerator.stored denominator.stored)
  | .key root mode => .declaration (.key root mode)
  | .note name octave duration => .note ⟨name, octave.stored, duration⟩

/-- A script without its margin and its ending. Words need a blank between them, and the octave of
a note allows none before it. -/
inductive Spells : List Char → Script → Prop where
  | tempo {word gap : List Char} (bpm : Digits) : Keyword .tempo word → Gap gap →
      Spells (word ++ (gap ++ bpm.run)) (.tempo bpm)
  | timeSignature {word first second third : List Char} (numerator denominator : Digits) :
      Keyword .meter word → Gap first → Gap second → Gap third →
      Spells (word ++ (first ++ (numerator.run ++ (second ++ '/' :: (third ++ denominator.run)))))
        (.timeSignature numerator denominator)
  | key {word first second mark : List Char} {root : String} {mode : Mode} :
      Keyword .key word → Gap first → first ≠ [] → IsWord root → Gap second → second ≠ [] →
      Keyword (.mode mode) mark →
      Spells (word ++ (first ++ (root.toList ++ (second ++ mark)))) (.key root mode)
  | note {name : String} {gap word : List Char} (octave : Digits) {duration : Duration} :
      IsWord name → Gap gap → Keyword (.duration duration) word →
      Spells (name.toList ++ (octave.run ++ (gap ++ word))) (.note name octave duration)

inductive Inscribed : List Char → Option Script → Prop where
  | empty {line : List Char} : Ending line → Inscribed line none
  | script {margin text ending : List Char} {script : Script} : Gap margin → Spells text script →
      Ending ending → Inscribed (margin ++ (text ++ ending)) (some script)

theorem Spells.inscribed {text : List Char} {script : Script} (h : Spells text script) :
    Inscribed text (some script) := by
  have hnothing : Gap [] := by decide
  have hline := Inscribed.script hnothing h ⟨[], [], hnothing, .inl rfl, rfl⟩
  simpa using hline

/-! ## From the writing to the tokens -/

theorem Piece.isBlank_iff {c : Char} : isBlank c = true ↔ c = ' ' ∨ c = '\t' ∨ c = '\r' := by
  simp [isBlank, or_assoc]

theorem Piece.isWordChar_of_isBlank (c : Char) (h : isBlank c = true) : isWordChar c = false := by
  rcases isBlank_iff.mp h with rfl | rfl | rfl <;> decide

theorem Piece.isDigit_of_isBlank (c : Char) (h : isBlank c = true) : c.isDigit = false := by
  rcases isBlank_iff.mp h with rfl | rfl | rfl <;> rfl

theorem Piece.next?_blank {c : Char} (h : isBlank c = true) (rest : List Char) :
    next? (c :: rest) = some (.token .blank [c], rest) := by
  rcases isBlank_iff.mp h with rfl | rfl | rfl <;> rfl

theorem Gap.leaves {gap rest : List Char} (h : Gap gap) {p : Char → Bool}
    (hp : ∀ c, Piece.isBlank c = true → p c = false) (hrest : gap = [] → Leaves p rest) :
    Leaves p (gap ++ rest) := by
  cases gap with
  | nil => exact hrest rfl
  | cons c tail => exact hp c (h c (List.mem_cons_self ..))

theorem Ending.leaves {text : List Char} (h : Ending text) {p : Char → Bool}
    (hp : ∀ c, Piece.isBlank c = true → p c = false) (hslash : p '/' = false) :
    Leaves p text := by
  obtain ⟨gap, remark, hgap, hremark, rfl⟩ := h
  refine hgap.leaves hp fun _ => ?_
  rcases hremark with rfl | ⟨body, rfl⟩
  · rfl
  · exact hslash

theorem WordShape.leaves_digit {word : List Char} (h : WordShape word) (rest : List Char) :
    Leaves Char.isDigit (word ++ rest) := by
  have hhead := h.head
  cases word with
  | nil => cases hhead
  | cons c tail =>
    refine Bool.eq_false_iff.mpr fun hdigit => ?_
    rw [List.head?_cons, Option.any_some, Text.isAlphabetic_of_isDigit hdigit] at hhead
    cases hhead

namespace Lexes

variable {rest : List Char} {tokens : List Token}

theorem gap {gap : List Char} (hgap : Gap gap) (h : Lexes rest tokens) :
    Lexes (gap ++ rest) (List.replicate gap.length .blank ++ tokens) := by
  induction gap with
  | nil => exact h
  | cons c tail ih =>
    have htail := ih fun x hx => hgap x (List.mem_cons_of_mem _ hx)
    exact of_next? (Piece.next?_blank (hgap c (List.mem_cons_self ..)) _) htail

theorem keyword {token : Token} {text : List Char} (hkeyword : Keyword token text)
    (hrest : Leaves Piece.isWordChar rest) (h : Lexes rest tokens) :
    Lexes (text ++ rest) (token :: tokens) := by
  have hfound : Token.ofWord text = token := by rw [Token.ofWord, hkeyword.reads, Option.getD_some]
  exact .word text hkeyword.shape hfound hrest h

theorem digits (digits : Digits) (hrest : Leaves Char.isDigit rest) (h : Lexes rest tokens) :
    Lexes (digits.run ++ rest) (.number (min digits.value 4294967295) :: tokens) :=
  of_next? (digits.next?_run hrest) h

end Lexes

theorem Ending.lexes {text : List Char} (h : Ending text) (hn : '\n' ∉ text) :
    ∃ n, Lexes text (List.replicate n .blank) := by
  obtain ⟨gap, remark, hgap, hremark, rfl⟩ := h
  have hremark : Lexes remark [] := by
    rcases hremark with rfl | ⟨body, rfl⟩
    · exact .nil
    · have hbody : '\n' ∉ '/' :: body := fun hm =>
        hn (List.mem_append_right _ (List.mem_cons_of_mem _ hm))
      have hcomment := Piece.next?_comment ⟨rfl, rfl⟩ hbody
      rw [lexes_iff, List.cons_append, List.singleton_append, pieces_of_next? hcomment, pieces_nil]
      exact ⟨rfl, rfl⟩
  have hall := Lexes.gap hgap hremark
  rw [List.append_nil] at hall
  exact ⟨gap.length, hall⟩

/-- What a script spells lexes to a form of its item, whatever ends the line. A margin in front
makes no difference. -/
theorem Spells.lineForm {text ending : List Char} {script : Script} (h : Spells text script)
    (hending : Ending ending) (hn : '\n' ∉ ending) : ∃ tokens, Lexes (text ++ ending) tokens ∧
      ∀ k, LineForm (List.replicate k .blank ++ tokens) (some script.item) := by
  obtain ⟨n, hend⟩ := hending.lexes hn
  have hword := hending.leaves Piece.isWordChar_of_isBlank (by decide)
  have hdigit := hending.leaves Piece.isDigit_of_isBlank rfl
  cases h with
  | @tempo word gap bpm hkeyword hgap =>
    have hafter := hgap.leaves Piece.isWordChar_of_isBlank fun _ =>
      bpm.leaves_run (fun _ => Piece.isWordChar_of_isDigit) ending
    have hlexes := Lexes.keyword hkeyword hafter (.gap hgap (.digits bpm hdigit hend))
    refine ⟨_, by simpa using hlexes, fun k => ?_⟩
    rw [Script.item, ← bpm.clamp_min]
    exact .tempo (by simp [visible])
  | @timeSignature word first second third numerator denominator hkeyword hfirst hsecond hthird =>
    have hbefore := hfirst.leaves Piece.isWordChar_of_isBlank fun _ =>
      numerator.leaves_run (fun _ => Piece.isWordChar_of_isDigit)
        (second ++ '/' :: (third ++ (denominator.run ++ ending)))
    have hslash := hsecond.leaves Piece.isDigit_of_isBlank fun _ =>
      (rfl : Leaves Char.isDigit ('/' :: (third ++ (denominator.run ++ ending))))
    have hcomment : Leaves (· = '/') (third ++ (denominator.run ++ ending)) := by
      refine hthird.leaves (fun c hc => ?_) fun _ => denominator.leaves_run (fun c hc => ?_) ending
      · exact decide_eq_false fun heq => by rw [heq] at hc; cases hc
      · exact decide_eq_false fun heq => by rw [heq] at hc; cases hc
    have hlexes := Lexes.keyword hkeyword hbefore (.gap hfirst (.digits numerator hslash
      (.gap hsecond (.slash hcomment (.gap hthird (.digits denominator hdigit hend))))))
    refine ⟨_, by simpa using hlexes, fun k => ?_⟩
    rw [Script.item, ← numerator.clamp_min, ← denominator.clamp_min]
    exact .timeSignature (by simp [visible])
  | @key word first second mark root mode hkeyword hfirst hne hroot hsecond hne' hmode =>
    have hgap : ∀ {gap rest : List Char}, Gap gap → gap ≠ [] →
        Leaves Piece.isWordChar (gap ++ rest) := fun hgap hne =>
      hgap.leaves Piece.isWordChar_of_isBlank fun hnil => absurd hnil hne
    have hlexes := Lexes.keyword hkeyword (hgap hfirst hne) (.gap hfirst (.plainWord hroot
      (hgap hsecond hne') (.gap hsecond (.keyword hmode hword hend))))
    exact ⟨_, by simpa using hlexes, fun k => .key (by simp [visible])⟩
  | @note name gap word octave duration hname hgap hduration =>
    have hoctave := octave.leaves_run (fun _ => Piece.isWordChar_of_isDigit)
      (gap ++ (word ++ ending))
    have hafter := hgap.leaves Piece.isDigit_of_isBlank fun _ =>
      hduration.shape.leaves_digit ending
    have hlexes := Lexes.plainWord hname hoctave (.digits octave hafter
      (.gap hgap (.keyword hduration hword hend)))
    refine ⟨_, by simpa using hlexes, fun k => ?_⟩
    rw [Script.item, ← octave.clamp_min]
    exact .note (by simp [visible]) ⟨List.replicate k .blank, _, List.append_assoc ..⟩

/-! ## From the tokens to the writing -/

/-- No word is read as a mark or as a number. -/
theorem Token.ofWord_ne (word : List Char) :
    ofWord word ≠ .slash ∧ ofWord word ≠ .blank ∧ ∀ value, ofWord word ≠ .number value := by
  unfold ofWord keyword?
  repeat' split
  all_goals simp

namespace Piece

variable {text source rest : List Char}

/-- The tokens that a text can start with, and how they are written. -/
theorem writing_of_next? {token : Token} (h : next? text = some (.token token source, rest)) :
    (token = .slash ∧ source = ['/']) ∨ (token = .newline ∧ source = ['\n']) ∨
      (token = .blank ∧ ∃ c, isBlank c = true ∧ source = [c]) ∨
      (∃ digits : Digits, token = .number (min digits.value 4294967295) ∧ source = digits.run) ∨
      (token = .ofWord source ∧ WordShape source ∧ Leaves isWordChar rest) := by
  generalize hpiece : Piece.token token source = piece at h
  cases stands_of_next? h with
  | comment => cases hpiece
  | slash =>
    cases hpiece
    exact .inl ⟨rfl, rfl⟩
  | newline =>
    cases hpiece
    exact .inr (.inl ⟨rfl, rfl⟩)
  | blank hc =>
    cases hpiece
    exact .inr (.inr (.inl ⟨rfl, _, isBlank_iff.mpr hc, rfl⟩))
  | number hne hrun =>
    cases hpiece
    have hread := Digits.ofDigits_run ⟨source, hne, hrun.all⟩
    exact .inr (.inr (.inr (.inl ⟨⟨source, hne, hrun.all⟩, hread, rfl⟩)))
  | word hhead hrun =>
    cases hpiece
    refine .inr (.inr (.inr (.inr ⟨rfl, ⟨hhead, fun c hc => ?_⟩, hrun.after⟩)))
    exact isWordChar_iff.mp (hrun.all c hc)

theorem number_of_next? {value : Nat}
    (h : next? text = some (.token (.number value) source, rest)) :
    ∃ digits : Digits, value = min digits.value 4294967295 ∧ source = digits.run := by
  obtain ⟨⟨⟩, _⟩ | ⟨⟨⟩, _⟩ | ⟨⟨⟩, _⟩ | ⟨digits, hread, hsource⟩ | ⟨hread, _⟩ := writing_of_next? h
  · exact ⟨digits, Token.number.inj hread, hsource⟩
  · exact absurd hread.symm ((Token.ofWord_ne source).2.2 value)

theorem slash_of_next? (h : next? text = some (.token .slash source, rest)) : source = ['/'] := by
  obtain ⟨_, hsource⟩ | ⟨⟨⟩, _⟩ | ⟨⟨⟩, _⟩ | ⟨_, ⟨⟩, _⟩ | ⟨hread, _⟩ := writing_of_next? h
  · exact hsource
  · exact absurd hread.symm (Token.ofWord_ne source).1

theorem word_of_next? {name : String} (h : next? text = some (.token (.word name) source, rest)) :
    source = name.toList ∧ IsWord name ∧ Leaves isWordChar rest := by
  obtain ⟨⟨⟩, _⟩ | ⟨⟨⟩, _⟩ | ⟨⟨⟩, _⟩ | ⟨_, ⟨⟩, _⟩ | ⟨hread, _, hrest⟩ := writing_of_next? h
  obtain ⟨_, rfl⟩ := Token.ofWord_eq_word hread.symm
  exact ⟨String.toList_ofList.symm, isWord_of_next? h, hrest⟩

def isKeyword : Token → Bool
  | .tempo | .meter | .key | .mode _ | .duration _ => true
  | _ => false

theorem keyword_of_next? {token : Token} (hkeyword : isKeyword token = true)
    (h : next? text = some (.token token source, rest)) :
    Keyword token source ∧ Leaves isWordChar rest := by
  obtain ⟨rfl, _⟩ | ⟨rfl, _⟩ | ⟨rfl, _⟩ | ⟨_, rfl, _⟩ | ⟨hread, hshape, hrest⟩ := writing_of_next? h
  · cases hkeyword
  · cases hkeyword
  · cases hkeyword
  · cases hkeyword
  · refine ⟨⟨hshape, ?_⟩, hrest⟩
    rw [Token.ofWord] at hread
    cases hfound : Token.keyword? source with
    | none =>
      rw [hfound] at hread
      rw [hread] at hkeyword
      cases hkeyword
    | some found =>
      rw [hfound] at hread
      exact congrArg some hread.symm

end Piece

theorem Piece.blank_of_next? {text source rest : List Char}
    (h : next? text = some (.token .blank source, rest)) :
    ∃ c, isBlank c = true ∧ source = [c] := by
  obtain ⟨⟨⟩, _⟩ | ⟨⟨⟩, _⟩ | ⟨_, hblank⟩ | ⟨_, ⟨⟩, _⟩ | ⟨hread, _⟩ := writing_of_next? h
  · exact hblank
  · exact absurd hread.symm (Token.ofWord_ne source).2.1

namespace Lexes

variable {text : List Char} {tokens : List Token}

/-- A line starts with a token, or it has none and is a remark. -/
theorem uncons (h : Lexes text tokens) (hn : '\n' ∉ text) :
    (tokens = [] ∧ Remark text) ∨ ∃ token source rest left, text = source ++ rest ∧
      Piece.next? text = some (.token token source, rest) ∧ Lexes rest left ∧
      tokens = token :: left := by
  obtain ⟨hnil, rfl⟩ := lexes_iff.mp h
  cases hnext : Piece.next? text with
  | none =>
    rw [pieces_of_next?_none hnext] at hnil ⊢
    exact .inl ⟨rfl, .inl hnil⟩
  | some found =>
    obtain ⟨piece, rest⟩ := found
    have htext := Piece.source_append_of_next? hnext
    rw [pieces_of_next? hnext] at hnil ⊢
    cases piece with
    | token token source =>
      exact .inr ⟨token, source, rest, _, htext.symm, rfl, lexes_iff.mpr ⟨hnil, rfl⟩, rfl⟩
    | comment source =>
      cases Piece.stands_of_next? hnext with
      | @comment body _ hstop =>
        -- Only a break ends a comment, and the line has none.
        have hrest : rest = [] := by
          cases rest with
          | nil => rfl
          | cons c tail =>
            rw [← htext, hstop c rfl] at hn
            exact absurd (List.mem_append_right _ (List.mem_cons_self ..)) hn
        subst hrest
        rw [List.append_nil] at htext
        rw [pieces_nil]
        exact .inl ⟨rfl, .inr ⟨body, htext⟩⟩

/-- The first visible token of a line, the blanks before it, and what is left of the line. -/
theorem peel {more : List Token} {token : Token}
    (h : Lexes text tokens) (hn : '\n' ∉ text) (hv : visible tokens = token :: more) :
    ∃ gap source rest left, text = gap ++ (source ++ rest) ∧ Gap gap ∧
      Piece.next? (source ++ rest) = some (.token token source, rest) ∧ '\n' ∉ rest ∧
      Lexes rest left ∧ visible left = more ∧
      tokens = List.replicate gap.length .blank ++ token :: left := by
  induction tokens generalizing text with
  | nil => cases hv
  | cons first left ih =>
    obtain ⟨⟨⟩, _⟩ | ⟨token', source, rest, left', rfl, hnext, hrest, heq⟩ := h.uncons hn
    cases heq
    by_cases hblank : first = .blank
    · subst hblank
      obtain ⟨c, hc, rfl⟩ := Piece.blank_of_next? hnext
      obtain ⟨gap, source, rest, left, rfl, hgap, hfound, hunbroken, hleft, hmore, rfl⟩ :=
        ih hrest (fun hm => hn (List.mem_append_right _ hm)) hv
      refine ⟨c :: gap, source, rest, left, rfl, ?_, hfound, hunbroken, hleft, hmore, rfl⟩
      exact List.forall_mem_cons.mpr ⟨hc, hgap⟩
    · rw [visible, List.filter_cons_of_pos (by simpa using hblank)] at hv
      cases hv
      have hunbroken : '\n' ∉ rest := fun hm => hn (List.mem_append_right _ hm)
      exact ⟨[], source, rest, left, rfl, by simp [Gap], hnext, hunbroken, hrest, rfl, rfl⟩

theorem ending
    (h : Lexes text tokens) (hn : '\n' ∉ text) (hv : visible tokens = []) : Ending text := by
  induction tokens generalizing text with
  | nil =>
    obtain ⟨_, hremark⟩ | ⟨_, _, _, _, _, _, _, ⟨⟩⟩ := h.uncons hn
    exact ⟨[], text, by simp [Gap], hremark, rfl⟩
  | cons first left ih =>
    obtain ⟨⟨⟩, _⟩ | ⟨token', source, rest, left', rfl, hnext, hrest, heq⟩ := h.uncons hn
    cases heq
    have hblank : first = .blank := by
      by_contra hne
      rw [visible, List.filter_cons_of_pos (by simpa using hne)] at hv
      cases hv
    subst hblank
    obtain ⟨c, hc, rfl⟩ := Piece.blank_of_next? hnext
    obtain ⟨gap, remark, hgap, hremark, rfl⟩ :=
      ih hrest (fun hm => hn (List.mem_append_right _ hm)) hv
    exact ⟨c :: gap, remark, List.forall_mem_cons.mpr ⟨hc, hgap⟩, hremark, rfl⟩

end Lexes

theorem Gap.ne_nil {gap word rest : List Char} (hword : WordShape word)
    (h : Leaves Piece.isWordChar (gap ++ (word ++ rest))) : gap ≠ [] := by
  rintro rfl
  have hhead := hword.head
  cases word with
  | nil => cases hhead
  | cons c tail =>
    have hc : Piece.isWordChar c = true := Piece.isWordChar_iff.mpr (.inl hhead)
    rw [Leaves, List.nil_append, List.cons_append, List.head?_cons, Option.any_some, hc] at h
    cases h

/-- A token that stands next to the first one has no blank before it. -/
theorem head?_of_adjacent {tokens left : List Token} {name : String} {octave k : Nat}
    {duration : Duration} (hv : visible tokens = [.word name, .number octave, .duration duration])
    (hadjacent : [.word name, .number octave] <:+: tokens)
    (h : tokens = List.replicate k .blank ++ .word name :: left) :
    left.head? = some (.number octave) := by
  let line : Line := ⟨tokens.map fun token => ⟨token, [], .start⟩, .start⟩
  have htokens : line.tokens = tokens := by simp [line, Line.tokens, Function.comp_def]
  have hleft : line.skip.tokens = .word name :: left := by
    rw [Line.tokens_skip, htokens, h, List.dropWhile_append_of_pos (by simp)]
    simp
  rw [← htokens] at hv hadjacent
  have hskip := Line.tokens_of_token? (Line.visible_eq_cons.mp hv).1
  rw [hleft] at hskip
  rw [(List.cons.inj hskip).2, ← Line.token?_eq_head?]
  exact (Line.infix_iff_token? hv).mp hadjacent

/-- A line that has a form is written in one of the ways of that form. -/
theorem inscribed_of_lineForm {line : List Char} {tokens : List Token} {item : Option Item}
    (h : Lexes line tokens) (hn : '\n' ∉ line) (hform : LineForm tokens item) :
    ∃ script, Inscribed line script ∧ script.map Script.item = item := by
  cases hform with
  | empty hv => exact ⟨none, .empty (h.ending hn hv), rfl⟩
  | tempo hv =>
    obtain ⟨margin, word, _, _, rfl, hmargin, hfound, hn₁, h₁, hv₁, _⟩ := h.peel hn hv
    obtain ⟨gap, _, _, _, rfl, hgap, hnumber, hn₂, h₂, hv₂, _⟩ := h₁.peel hn₁ hv₁
    obtain ⟨hkeyword, _⟩ := Piece.keyword_of_next? rfl hfound
    obtain ⟨bpm, rfl, rfl⟩ := Piece.number_of_next? hnumber
    have hline := Inscribed.script hmargin (.tempo bpm hkeyword hgap) (h₂.ending hn₂ hv₂)
    refine ⟨some (.tempo bpm), by simpa using hline, ?_⟩
    rw [bpm.clamp_min]
    rfl
  | timeSignature hv =>
    obtain ⟨margin, word, _, _, rfl, hmargin, hfound, hn₁, h₁, hv₁, _⟩ := h.peel hn hv
    obtain ⟨first, _, _, _, rfl, hfirst, hnumerator, hn₂, h₂, hv₂, _⟩ := h₁.peel hn₁ hv₁
    obtain ⟨second, _, _, _, rfl, hsecond, hslash, hn₃, h₃, hv₃, _⟩ := h₂.peel hn₂ hv₂
    obtain ⟨third, _, _, _, rfl, hthird, hdenominator, hn₄, h₄, hv₄, _⟩ := h₃.peel hn₃ hv₃
    obtain ⟨hkeyword, _⟩ := Piece.keyword_of_next? rfl hfound
    obtain ⟨numerator, rfl, rfl⟩ := Piece.number_of_next? hnumerator
    obtain ⟨denominator, rfl, rfl⟩ := Piece.number_of_next? hdenominator
    obtain rfl := Piece.slash_of_next? hslash
    have hline := Inscribed.script hmargin
      (.timeSignature numerator denominator hkeyword hfirst hsecond hthird) (h₄.ending hn₄ hv₄)
    refine ⟨some (.timeSignature numerator denominator), by simpa using hline, ?_⟩
    rw [numerator.clamp_min, denominator.clamp_min]
    rfl
  | key hv =>
    obtain ⟨margin, word, _, _, rfl, hmargin, hfound, hn₁, h₁, hv₁, _⟩ := h.peel hn hv
    obtain ⟨first, _, _, _, rfl, hfirst, hroot, hn₂, h₂, hv₂, _⟩ := h₁.peel hn₁ hv₁
    obtain ⟨second, mark, _, _, rfl, hsecond, hmode, hn₃, h₃, hv₃, _⟩ := h₂.peel hn₂ hv₂
    obtain ⟨hkeyword, hafter⟩ := Piece.keyword_of_next? rfl hfound
    obtain ⟨rfl, hword, hafter'⟩ := Piece.word_of_next? hroot
    obtain ⟨hmark, _⟩ := Piece.keyword_of_next? rfl hmode
    have hline := Inscribed.script hmargin (.key hkeyword hfirst (Gap.ne_nil hword.shape hafter)
      hword hsecond (Gap.ne_nil hmark.shape hafter') hmark) (h₃.ending hn₃ hv₃)
    exact ⟨_, by simpa using hline, rfl⟩
  | note hv hadjacent =>
    obtain ⟨margin, _, _, _, rfl, hmargin, hname, hn₁, h₁, hv₁, htokens⟩ := h.peel hn hv
    obtain ⟨nothing, _, _, _, rfl, _, hnumber, hn₂, h₂, hv₂, hleft⟩ := h₁.peel hn₁ hv₁
    obtain ⟨gap, word, _, _, rfl, hgap, hduration, hn₃, h₃, hv₃, _⟩ := h₂.peel hn₂ hv₂
    have hnothing : nothing = [] := by
      have hhead := head?_of_adjacent hv hadjacent htokens
      rw [hleft] at hhead
      cases nothing with
      | nil => rfl
      | cons c tail => cases hhead
    subst hnothing
    obtain ⟨rfl, hword, _⟩ := Piece.word_of_next? hname
    obtain ⟨octave, rfl, rfl⟩ := Piece.number_of_next? hnumber
    obtain ⟨hkeyword, _⟩ := Piece.keyword_of_next? rfl hduration
    have hline := Inscribed.script hmargin (.note octave hword hgap hkeyword) (h₃.ending hn₃ hv₃)
    refine ⟨some (.note _ octave _), by simpa using hline, ?_⟩
    rw [octave.clamp_min]
    rfl

theorem lineForm_of_inscribed {line : List Char} {script : Option Script} (hn : '\n' ∉ line)
    (h : Inscribed line script) :
    ∃ tokens, Lexes line tokens ∧ LineForm tokens (script.map Script.item) := by
  cases h with
  | empty hending =>
    obtain ⟨n, hlexes⟩ := hending.lexes hn
    exact ⟨_, hlexes, .empty (by simp [visible])⟩
  | script hmargin hspells hending =>
    obtain ⟨tokens, hlexes, hform⟩ := hspells.lineForm hending fun hm =>
      hn (List.mem_append_right _ (List.mem_append_right _ hm))
    exact ⟨_, .gap hmargin hlexes, hform _⟩

/-- A line is read exactly if it is inscribed with something, and what is read is what is stored
for that. -/
theorem lineReads_inscribed {line : List Char} (hn : '\n' ∉ line) {item : Option Item} :
    LineReads line item ↔ ∃ script, Inscribed line script ∧ script.map Script.item = item := by
  simp only [LineReads, lexes_beforeComment hn]
  constructor
  · rintro ⟨tokens, hlexes, hform⟩
    exact inscribed_of_lineForm hlexes hn hform
  · rintro ⟨script, h, rfl⟩
    exact lineForm_of_inscribed hn h

end Solfege
