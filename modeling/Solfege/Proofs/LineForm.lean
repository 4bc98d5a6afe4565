import Solfege.Proofs.LineByLine

/-!
# Solfege.Proofs.LineForm

The grammar of one line, as a relation between its tokens and what it says.

`LineForm tokens item?` lists the forms: apart from blanks a line is empty, or it is a tempo, a
time signature, a key or a note, and in a note the octave follows the name at once. The reader of
a line walks over it from the front and skips blanks at some places and not at others;
`item?_eq_ok` says that it accepts exactly these forms.
-/

namespace Solfege

/-- The tokens without the blanks among them. -/
def visible (tokens : List Token) : List Token :=
  tokens.filter (· ≠ .blank)

inductive LineForm (tokens : List Token) : Option Item → Prop where
  | empty : visible tokens = [] → LineForm tokens none
  | tempo {bpm : Nat} : visible tokens = [.tempo, .number bpm] →
      LineForm tokens (some (.declaration (.tempo (clamp bpm))))
  | timeSignature {numerator denominator : Nat} :
      visible tokens = [.meter, .number numerator, .slash, .number denominator] →
      LineForm tokens
        (some (.declaration (.timeSignature (clamp numerator) (clamp denominator))))
  | key {root : String} {mode : Mode} : visible tokens = [.key, .word root, .mode mode] →
      LineForm tokens (some (.declaration (.key root mode)))
  | note {name : String} {octave : Nat} {duration : Duration} :
      visible tokens = [.word name, .number octave, .duration duration] →
      [.word name, .number octave] <:+: tokens →
      LineForm tokens (some (.note ⟨name, clamp octave, duration⟩))

namespace Line

/-! ## Visible tokens one at a time -/

def tokens (line : Line) : List Token :=
  line.lexemes.map Lexeme.token

/-- A blank in front of a line is neither visible nor left after skipping. -/
theorem visible_skip_blank {lexeme : Lexeme} (h : lexeme.token = .blank) (rest : List Lexeme)
    (stop : Position) :
    visible (tokens ⟨lexeme :: rest, stop⟩) = visible (tokens ⟨rest, stop⟩) ∧
      skip ⟨lexeme :: rest, stop⟩ = skip ⟨rest, stop⟩ := by
  simp [visible, tokens, skip, Lexeme.isBlank, h]

theorem visible_eq_nil {line : Line} :
    visible line.tokens = [] ↔ line.skip.token? = none := by
  obtain ⟨lexemes, stop⟩ := line
  induction lexemes with
  | nil => simp [visible, tokens, skip, token?]
  | cons lexeme rest ih =>
    by_cases h : lexeme.token = .blank
    · obtain ⟨hvisible, hskip⟩ := visible_skip_blank h rest stop
      rw [hvisible, hskip]
      exact ih
    · simp [visible, tokens, skip, token?, Lexeme.isBlank, h]

/-- The first visible token is the one after the blanks, and the others follow it. -/
theorem visible_eq_cons {line : Line} {token : Token} {more : List Token} :
    visible line.tokens = token :: more ↔
      line.skip.token? = some token ∧ visible line.skip.tail.tokens = more := by
  obtain ⟨lexemes, stop⟩ := line
  induction lexemes with
  | nil => simp [visible, tokens, skip, token?]
  | cons lexeme rest ih =>
    by_cases h : lexeme.token = .blank
    · obtain ⟨hvisible, hskip⟩ := visible_skip_blank h rest stop
      rw [hvisible, hskip]
      exact ih
    · simp [visible, tokens, skip, tail, token?, Lexeme.isBlank, h]

theorem tokens_skip (line : Line) : line.skip.tokens = line.tokens.dropWhile (· = .blank) := by
  rw [tokens, tokens, List.dropWhile_map]
  rfl

theorem token?_eq_head? (line : Line) : line.token? = line.tokens.head? :=
  List.head?_map.symm

theorem tokens_of_token? {line : Line} {token : Token} (h : line.token? = some token) :
    line.tokens = token :: line.tail.tokens := by
  obtain ⟨lexemes, stop⟩ := line
  cases lexemes with
  | nil => cases h
  | cons lexeme rest =>
    cases h
    rfl

theorem skip_of_token? {line : Line} {token : Token} (h : line.token? = some token)
    (hb : token ≠ .blank) : line.skip = line := by
  obtain ⟨lexemes, stop⟩ := line
  cases lexemes with
  | nil => rfl
  | cons lexeme rest =>
    cases h
    simp [skip, Lexeme.isBlank, hb]

/-- The octave stands next to the name exactly if the reader finds it there without skipping. -/
theorem infix_iff_token? {line : Line} {name : String} {octave : Nat} {duration : Duration}
    (h : visible line.tokens = [.word name, .number octave, .duration duration]) :
    [.word name, .number octave] <:+: line.tokens ↔
      line.skip.tail.token? = some (.number octave) := by
  have hskip := tokens_of_token? (visible_eq_cons.mp h).1
  constructor
  · rintro ⟨before, after, heq⟩
    have hvisible : visible before ++ .word name :: .number octave :: visible after =
        [.word name, .number octave, .duration duration] := by
      rw [← h, ← heq]
      simp [visible]
    -- No second word is visible, so what stands before this one is blank.
    have hbefore : ∀ token ∈ before, decide (token = .blank) = true := by
      cases hb : visible before with
      | nil => simpa [visible] using hb
      | cons first others =>
        rw [hb] at hvisible
        cases others with
        | nil => simp at hvisible
        | cons second others =>
          have hlen := congrArg List.length hvisible
          simp only [List.length_append, List.length_cons, List.length_nil] at hlen
          omega
    rw [tokens_skip, ← heq, List.append_assoc, List.dropWhile_append_of_pos hbefore] at hskip
    rw [token?_eq_head?, ← (List.cons.inj hskip).2]
    rfl
  · intro hnumber
    refine ⟨line.tokens.takeWhile (· = .blank), line.skip.tail.tail.tokens, ?_⟩
    rw [tokens_of_token? hnumber, tokens_skip] at hskip
    rw [List.append_assoc, List.cons_append, List.cons_append, List.nil_append, ← hskip,
      List.takeWhile_append_dropWhile]

/-! ## What the parts of the reader accept -/

theorem number_eq_ok {line rest : Line} {complaint : Complaint} {value : Int} :
    line.number complaint = .ok (value, rest) ↔
      ∃ n, line.skip.token? = some (.number n) ∧ value = clamp n ∧ rest = line.skip.tail := by
  rw [number]
  split
  · rename_i n hn
    constructor
    · intro h
      cases h
      exact ⟨n, hn, rfl, rfl⟩
    · rintro ⟨m, hm, rfl, rfl⟩
      rw [hn] at hm
      cases hm
      rfl
  · rename_i hn
    constructor
    · intro h
      cases h
    · rintro ⟨n, hm, _⟩
      exact absurd hm (hn n)

theorem tempo_eq_ok {line rest : Line} {declaration : Declaration} :
    line.tempo = .ok (declaration, rest) ↔
      ∃ bpm, line.number .expectedTempo = .ok (bpm, rest) ∧ declaration = .tempo bpm := by
  rw [tempo]
  split
  · rename_i hn
    simp [hn]
  · rename_i bpm left hn
    constructor
    · intro h
      cases h
      exact ⟨bpm, hn, rfl⟩
    · rintro ⟨n, hm, rfl⟩
      rw [hn] at hm
      cases hm
      rfl

theorem timeSignature_eq_ok {line rest : Line} {declaration : Declaration} :
    line.timeSignature = .ok (declaration, rest) ↔
      ∃ numerator denominator middle, line.number .expectedNumerator = .ok (numerator, middle) ∧
        middle.skip.token? = some .slash ∧
        middle.skip.tail.number .expectedDenominator = .ok (denominator, rest) ∧
        declaration = .timeSignature numerator denominator := by
  rw [timeSignature]
  split
  · rename_i hn
    simp [hn]
  · rename_i numerator middle hn
    split
    · rename_i hs
      split
      · rename_i hd
        simp [hn, hd]
      · rename_i denominator left hd
        constructor
        · intro h
          cases h
          exact ⟨numerator, denominator, middle, hn, hs, hd, rfl⟩
        · rintro ⟨n, d, m, hn', _, hd', rfl⟩
          rw [hn] at hn'
          cases hn'
          rw [hd] at hd'
          cases hd'
          rfl
    · rename_i hs
      constructor
      · intro h
        cases h
      · rintro ⟨n, d, m, hn', hs', _⟩
        rw [hn] at hn'
        cases hn'
        exact absurd hs' hs

theorem key_eq_ok {line rest : Line} {declaration : Declaration} :
    line.key = .ok (declaration, rest) ↔
      ∃ root mode, line.skip.token? = some (.word root) ∧
        line.skip.tail.skip.token? = some (.mode mode) ∧
        declaration = .key root mode ∧ rest = line.skip.tail.skip.tail := by
  rw [key]
  split
  · rename_i root hr
    dsimp only
    split
    · rename_i mode hm
      constructor
      · intro h
        cases h
        exact ⟨root, mode, hr, hm, rfl, rfl⟩
      · rintro ⟨r, m, hr', hm', rfl, rfl⟩
        rw [hr] at hr'
        rw [hm] at hm'
        cases hr'
        cases hm'
        rfl
    · rename_i hm
      constructor
      · intro h
        cases h
      · rintro ⟨_, m, _, hm', _⟩
        exact absurd hm' (hm m)
  · rename_i hr
    constructor
    · intro h
      cases h
    · rintro ⟨r, _, hr', _⟩
      exact absurd hr' (hr r)

theorem note_eq_ok {line rest : Line} {name : String} {note : Note} :
    line.note name = .ok (note, rest) ↔
      ∃ octave duration, line.token? = some (.number octave) ∧
        line.tail.skip.token? = some (.duration duration) ∧
        note = ⟨name, clamp octave, duration⟩ ∧ rest = line.tail.skip.tail := by
  rw [Line.note]
  split
  · rename_i octave ho
    dsimp only
    split
    · rename_i duration hd
      constructor
      · intro h
        cases h
        exact ⟨octave, duration, ho, hd, rfl, rfl⟩
      · rintro ⟨o, d, ho', hd', rfl, rfl⟩
        rw [ho] at ho'
        rw [hd] at hd'
        cases ho'
        cases hd'
        rfl
    · rename_i hd
      constructor
      · intro h
        cases h
      · rintro ⟨_, d, _, hd', _⟩
        exact absurd hd' (hd d)
  · rename_i ho
    constructor
    · intro h
      cases h
    · rintro ⟨o, _, ho', _⟩
      exact absurd ho' (ho o)

/-! ## The whole line -/

theorem item?_eq_none {line : Line} : line.item? = .ok none ↔ line.skip.token? = none := by
  rw [item?]
  split
  · rename_i h
    simp [h]
  · rename_i token h
    constructor
    · intro hi
      split at hi
      · cases hi
      · split at hi <;> cases hi
    · intro hn
      rw [h] at hn
      cases hn

theorem item?_eq_some {line : Line} {item : Item} :
    line.item? = .ok (some item) ↔ ∃ token rest, line.skip.token? = some token ∧
      line.skip.leading token = .ok (item, rest) ∧ rest.skip.token? = none := by
  rw [item?]
  split
  · rename_i h
    simp [h]
  · rename_i token h
    constructor
    · intro hi
      split at hi
      · cases hi
      · rename_i found rest hl
        split at hi
        · rename_i hn
          cases hi
          exact ⟨token, rest, h, hl, hn⟩
        · cases hi
    · rintro ⟨t, rest, ht, hl, hn⟩
      rw [h] at ht
      cases ht
      simp only [hl, hn]

/-- A line that is read as an item with nothing after it has the form of the item. -/
theorem lineForm_of_leading {line rest : Line} {token : Token} {item : Item}
    (ht : line.skip.token? = some token) (hl : line.skip.leading token = .ok (item, rest))
    (hend : rest.skip.token? = none) : LineForm line.tokens (some item) := by
  have hnil := visible_eq_nil.mpr hend
  cases token with
  | tempo =>
    obtain ⟨⟨declaration, left⟩, hd, heq⟩ := except_map_eq_ok hl
    cases heq
    obtain ⟨bpm, hnum, rfl⟩ := tempo_eq_ok.mp hd
    obtain ⟨n, hn, rfl, rfl⟩ := number_eq_ok.mp hnum
    exact .tempo (visible_eq_cons.mpr ⟨ht, visible_eq_cons.mpr ⟨hn, hnil⟩⟩)
  | meter =>
    obtain ⟨⟨declaration, left⟩, hd, heq⟩ := except_map_eq_ok hl
    cases heq
    obtain ⟨numerator, denominator, middle, hnum, hslash, hden, rfl⟩ := timeSignature_eq_ok.mp hd
    obtain ⟨n, hn, rfl, rfl⟩ := number_eq_ok.mp hnum
    obtain ⟨m, hm, rfl, rfl⟩ := number_eq_ok.mp hden
    have htail := visible_eq_cons.mpr ⟨hslash, visible_eq_cons.mpr ⟨hm, hnil⟩⟩
    exact .timeSignature (visible_eq_cons.mpr ⟨ht, visible_eq_cons.mpr ⟨hn, htail⟩⟩)
  | key =>
    obtain ⟨⟨declaration, left⟩, hd, heq⟩ := except_map_eq_ok hl
    cases heq
    obtain ⟨root, mode, hr, hm, rfl, rfl⟩ := key_eq_ok.mp hd
    have htail := visible_eq_cons.mpr ⟨hm, hnil⟩
    exact .key (visible_eq_cons.mpr ⟨ht, visible_eq_cons.mpr ⟨hr, htail⟩⟩)
  | word name =>
    obtain ⟨⟨note, left⟩, hread, heq⟩ := except_map_eq_ok hl
    cases heq
    obtain ⟨octave, duration, ho, hd, rfl, rfl⟩ := note_eq_ok.mp hread
    have hskip := skip_of_token? ho Token.noConfusion
    have htail := visible_eq_cons.mpr ⟨hd, hnil⟩
    have hform : visible line.tokens = [.word name, .number octave, .duration duration] := by
      refine visible_eq_cons.mpr ⟨ht, visible_eq_cons.mpr ?_⟩
      rw [hskip]
      exact ⟨ho, htail⟩
    exact .note hform ((infix_iff_token? hform).mpr ho)
  | mode mode => cases hl
  | duration duration => cases hl
  | number value => cases hl
  | slash => cases hl
  | newline => cases hl
  | blank => cases hl

theorem leading_of_lineForm {line : Line} {item : Item} (h : LineForm line.tokens (some item)) :
    ∃ token rest, line.skip.token? = some token ∧
      line.skip.leading token = .ok (item, rest) ∧ rest.skip.token? = none := by
  cases h with
  | tempo hv =>
    obtain ⟨ht, hv⟩ := visible_eq_cons.mp hv
    obtain ⟨hn, hv⟩ := visible_eq_cons.mp hv
    have hd := tempo_eq_ok.mpr ⟨_, number_eq_ok.mpr ⟨_, hn, rfl, rfl⟩, rfl⟩
    exact ⟨_, _, ht, by simp only [leading, hd]; rfl, visible_eq_nil.mp hv⟩
  | timeSignature hv =>
    obtain ⟨ht, hv⟩ := visible_eq_cons.mp hv
    obtain ⟨hn, hv⟩ := visible_eq_cons.mp hv
    obtain ⟨hs, hv⟩ := visible_eq_cons.mp hv
    obtain ⟨hm, hv⟩ := visible_eq_cons.mp hv
    have hd := timeSignature_eq_ok.mpr ⟨_, _, _, number_eq_ok.mpr ⟨_, hn, rfl, rfl⟩, hs,
      number_eq_ok.mpr ⟨_, hm, rfl, rfl⟩, rfl⟩
    exact ⟨_, _, ht, by simp only [leading, hd]; rfl, visible_eq_nil.mp hv⟩
  | key hv =>
    obtain ⟨ht, hv⟩ := visible_eq_cons.mp hv
    obtain ⟨hr, hv⟩ := visible_eq_cons.mp hv
    obtain ⟨hm, hv⟩ := visible_eq_cons.mp hv
    have hd := key_eq_ok.mpr ⟨_, _, hr, hm, rfl, rfl⟩
    exact ⟨_, _, ht, by simp only [leading, hd]; rfl, visible_eq_nil.mp hv⟩
  | @note name octave duration hv hinfix =>
    have ho := (infix_iff_token? hv).mp hinfix
    have hskip := skip_of_token? ho Token.noConfusion
    obtain ⟨ht, hv⟩ := visible_eq_cons.mp hv
    obtain ⟨_, hv⟩ := visible_eq_cons.mp hv
    rw [hskip] at hv
    obtain ⟨hd, hv⟩ := visible_eq_cons.mp hv
    have hn : line.skip.tail.note name = .ok (_, _) :=
      note_eq_ok.mpr ⟨_, _, ho, hd, rfl, rfl⟩
    exact ⟨_, _, ht, by simp only [leading, hn]; rfl, visible_eq_nil.mp hv⟩

/-- The reader of a line accepts exactly the forms of the grammar, and reads from each what it
says. -/
theorem item?_eq_ok {line : Line} {item : Option Item} :
    line.item? = .ok item ↔ LineForm line.tokens item := by
  cases item with
  | none =>
    rw [item?_eq_none, ← visible_eq_nil]
    constructor
    · exact .empty
    · rintro ⟨h⟩
      exact h
  | some item =>
    rw [item?_eq_some]
    constructor
    · rintro ⟨token, rest, ht, hl, hend⟩
      exact lineForm_of_leading ht hl hend
    · exact leading_of_lineForm

end Line
end Solfege
