import Solfege.Proofs.LineFault
import Solfege.Proofs.LineGrammar

/-!
# Solfege.Proofs.Readings

What a music text comes to, line by line.

`reading` judges one line on its own: the lexer is stuck in it, its item is faulty, or it says an
item or nothing. Where the line stands in the text, and what stands around it, does not matter.

* `parseMusic_eq_ok_iff` — a text is read if every line says something.
* `parseMusic_of_firstFault`, `firstFault_of_parseMusic` — otherwise the complaint is that of the
  first line in which the lexer is stuck and, if there is none, of the first faulty line; its
  position is on that line.
* `reading_dropReturn`   — a carriage return before the break changes nothing.
-/

namespace Solfege

inductive Reading where
  | stuck (c : Char)
  | faulty (complaint : Complaint)
  | tells (item : Option Item)
  deriving DecidableEq

def Reading.ofItem : Except Complaint (Option Item) → Reading
  | .error complaint => .faulty complaint
  | .ok item => .tells item

def reading (line : List Char) : Reading :=
  match (pieces line).2 with
  | c :: _ => .stuck c
  | [] => .ofItem ((Line.mk (locate .start (pieces line).1) .start).item?.mapError Fault.complaint)

/-- The number of the line that is blamed, and the complaint. All lines are lexed before the first
one is read, so a faulty line counts only if no line is stuck. -/
inductive FirstFault (readings : List Reading) : Nat → Complaint → Prop where
  | stuck {before after : List Reading} {c : Char} :
      readings = before ++ .stuck c :: after → (∀ r ∈ before, ∀ d, r ≠ .stuck d) →
      FirstFault readings (before.length + 1) (.unexpectedCharacter c)
  | faulty {before after : List Reading} {complaint : Complaint} :
      readings = before ++ .faulty complaint :: after → (∀ r ∈ readings, ∀ d, r ≠ .stuck d) →
      (∀ r ∈ before, ∃ item, r = .tells item) →
      FirstFault readings (before.length + 1) complaint

/-! ## One line -/

theorem reading_of_stuck {line left : List Char} {c : Char} (h : (pieces line).2 = c :: left) :
    reading line = .stuck c := by
  simp only [reading, h]

theorem pieces_of_reading_stuck {line : List Char} {c : Char} (h : reading line = .stuck c) :
    ∃ left, (pieces line).2 = c :: left := by
  cases hleft : (pieces line).2 with
  | nil =>
    simp only [reading, hleft, Reading.ofItem] at h
    split at h <;> cases h
  | cons d left =>
    rw [reading_of_stuck hleft] at h
    cases h
    exact ⟨left, rfl⟩

theorem pieces_of_reading_ne_stuck {line : List Char} (h : ∀ c, reading line ≠ .stuck c) :
    (pieces line).2 = [] := by
  cases hleft : (pieces line).2 with
  | nil => rfl
  | cons d left => exact absurd (reading_of_stuck hleft) (h d)

/-- Any line of lexemes with the tokens of the text comes to what the text comes to. -/
theorem reading_eq_ofItem {text : List Char} (hlex : (pieces text).2 = []) {line : Line}
    (h : line.tokens = (pieces text).1.filterMap Piece.token?) :
    reading text = .ofItem (line.item?.mapError Fault.complaint) := by
  have htrails : (Line.mk (locate .start (pieces text).1) .start).Trails line := by
    left
    rw [h, Line.tokens, map_token_locate]
  simp only [reading, hlex, Line.item?_trails htrails]

theorem item?_of_tells {text : List Char} {item : Option Item} (h : reading text = .tells item)
    {line : Line} (htokens : line.tokens = (pieces text).1.filterMap Piece.token?) :
    line.item? = .ok item := by
  have hlex : (pieces text).2 = [] := pieces_of_reading_ne_stuck (by simp [h])
  rw [reading_eq_ofItem hlex htokens] at h
  cases hitem : line.item? with
  | error fault =>
    rw [hitem] at h
    cases h
  | ok found =>
    rw [hitem] at h
    cases h
    rfl

theorem item?_of_faulty {text : List Char} {complaint : Complaint}
    (h : reading text = .faulty complaint) {line : Line}
    (htokens : line.tokens = (pieces text).1.filterMap Piece.token?) :
    ∃ position, line.item? = .error ⟨position, complaint⟩ := by
  have hlex : (pieces text).2 = [] := pieces_of_reading_ne_stuck (by simp [h])
  rw [reading_eq_ofItem hlex htokens] at h
  cases hitem : line.item? with
  | error fault =>
    rw [hitem] at h
    cases h
    exact ⟨fault.position, rfl⟩
  | ok found =>
    rw [hitem] at h
    cases h

theorem lineReads_iff_tells {line : List Char} (h : '\n' ∉ line) {item : Option Item} :
    LineReads line item ↔ reading line = .tells item := by
  have htokens : (Line.mk (locate .start (pieces line).1) .start).tokens =
      (pieces line).1.filterMap Piece.token? := map_token_locate _ _
  rw [lineReads_iff h, ← htokens, ← Line.item?_eq_ok]
  constructor
  · rintro ⟨hlex, hitem⟩
    rw [reading_eq_ofItem hlex htokens, hitem]
    rfl
  · intro htells
    exact ⟨pieces_of_reading_ne_stuck (by simp [htells]), item?_of_tells htells htokens⟩

theorem reading_nil : reading [] = .tells none := by
  rw [reading, pieces_nil]
  rfl

/-! ## A carriage return at the end -/

theorem Piece.next?_append_return {c : Char} {rest : List Char}
    (h : ¬ (c = '/' ∧ rest.head? = some '/')) :
    next? (c :: (rest ++ ['\r'])) =
      (next? (c :: rest)).map fun found => (found.1, found.2 ++ ['\r']) := by
  have hhead : (rest ++ ['\r']).head? = some '/' ↔ rest.head? = some '/' := by
    cases rest <;> simp
  rw [next?, next?]
  simp only [hhead, takeWhile_append_stop (p := isWordChar) (c := '\r') (by decide),
    dropWhile_append_stop (p := isWordChar) (c := '\r') (by decide),
    takeWhile_append_stop (p := Char.isDigit) (c := '\r') (by decide),
    dropWhile_append_stop (p := Char.isDigit) (c := '\r') (by decide)]
  split
  · rename_i hc
    rw [if_neg fun hr => h ⟨hc, hr⟩, if_neg fun hr => h ⟨hc, hr⟩]
    rfl
  · repeat' split
    all_goals rfl

/-- The return is a blank of its own, unless a comment runs up to it. -/
theorem pieces_append_return {text : List Char} (h : '\n' ∉ text) :
    (pieces (text ++ ['\r'])).2 =
        (if (pieces text).2 = [] then [] else (pieces text).2 ++ ['\r']) ∧
      ((pieces text).2 = [] → ∀ p,
        locate p (pieces (text ++ ['\r'])).1 = locate p (pieces text).1 ∨
          locate p (pieces (text ++ ['\r'])).1 =
            locate p (pieces text).1 ++ [⟨.blank, ['\r'], p.after text⟩]) := by
  induction text using pieceInduction with
  | stop text hn =>
    cases text with
    | nil =>
      have hnext : Piece.next? ['\r'] = some (.token .blank ['\r'], []) := rfl
      have hreturn : pieces ['\r'] = ([.token .blank ['\r']], []) := by
        rw [pieces_of_next? hnext, pieces_nil]
      rw [List.nil_append, hreturn, pieces_nil]
      exact ⟨rfl, fun _ _ => .inr rfl⟩
    | cons c rest =>
      have hc : ¬ (c = '/' ∧ rest.head? = some '/') := by
        rintro ⟨rfl, hhead⟩
        simp [Piece.next?, hhead] at hn
      have hnext := Piece.next?_append_return hc
      rw [hn] at hnext
      rw [List.cons_append, pieces_of_next?_none hn, pieces_of_next?_none hnext]
      simp
  | step text piece more hn ih =>
    have hmore : '\n' ∉ more := by
      intro hm
      apply h
      rw [← Piece.source_append_of_next? hn]
      exact List.mem_append_right _ hm
    cases text with
    | nil => cases hn
    | cons c rest =>
      have hrest : '\n' ∉ rest := List.not_mem_of_not_mem_cons h
      by_cases hc : c = '/' ∧ rest.head? = some '/'
      · have hlong : c = '/' ∧ (rest ++ ['\r']).head? = some '/' := by
          refine ⟨hc.1, ?_⟩
          rw [List.head?_append, hc.2]
          rfl
        have hcomment := Piece.next?_comment hc hrest
        have hcomment' := Piece.next?_comment hlong (by simp [hrest])
        rw [List.cons_append, pieces_of_next? hcomment, pieces_of_next? hcomment', pieces_nil]
        exact ⟨rfl, fun _ _ => .inl rfl⟩
      · have hnext := Piece.next?_append_return hc
        rw [hn] at hnext
        obtain ⟨hleft, hlexemes⟩ := ih hmore
        rw [List.cons_append, pieces_of_next? hn, pieces_of_next? hnext]
        refine ⟨hleft, fun hnil p => ?_⟩
        have hafter : p.after (c :: rest) = (p.after piece.source).after more := by
          rw [← Position.after_append, Piece.source_append_of_next? hn]
        rw [hafter]
        rcases hlexemes hnil (p.after piece.source) with heq | heq
        · left
          cases piece <;> simp only [locate, Piece.source] at heq ⊢ <;> rw [heq]
        · right
          cases piece <;> simp only [locate, Piece.source] at heq ⊢ <;> rw [heq]
          rfl

theorem reading_append_return {text : List Char} (h : '\n' ∉ text) :
    reading (text ++ ['\r']) = reading text := by
  obtain ⟨hleft, hlexemes⟩ := pieces_append_return h
  cases hl : (pieces text).2 with
  | cons c left =>
    rw [hl, if_neg (List.cons_ne_nil c left), List.cons_append] at hleft
    rw [reading_of_stuck hl, reading_of_stuck hleft]
  | nil =>
    rw [hl, if_pos rfl] at hleft
    have hshort : (Line.mk (locate .start (pieces text).1) .start).Trails
        (Line.mk (locate .start (pieces (text ++ ['\r'])).1) .start) := by
      rw [Line.Trails, Line.tokens, Line.tokens]
      rcases hlexemes hl .start with heq | heq
      · exact .inl (by rw [heq])
      · exact .inr (by simp [heq])
    simp only [reading, hl, hleft, Line.item?_trails hshort]

theorem reading_dropReturn {line : List Char} (h : '\n' ∉ line) :
    reading (Text.dropReturn line) = reading line := by
  rw [Text.dropReturn]
  split
  · rename_i hlast
    obtain ⟨text, rfl⟩ := List.getLast?_eq_some_iff.mp hlast
    rw [List.dropLast_concat, reading_append_return (by simpa using h)]
  · rfl

/-! ## Lines and positions -/

namespace Position

/-- Without a break only the column moves. -/
theorem after_of_no_newline {text : List Char} (h : '\n' ∉ text) (p : Position) :
    p.after text = ⟨p.line, p.column + text.length⟩ := by
  induction text generalizing p with
  | nil => rfl
  | cons c rest ih =>
    rw [List.mem_cons, not_or] at h
    rw [after_cons, ih h.2, next, if_neg (Ne.symm h.1), List.length_cons, Nat.add_assoc,
      Nat.add_comm 1]

theorem line_after {text : List Char} (h : '\n' ∉ text) (p : Position) :
    (p.after text).line = p.line := by
  rw [after_of_no_newline h]

theorem after_newline {first : List Char} (h : '\n' ∉ first) (p : Position) (rest : List Char) :
    p.after (first ++ '\n' :: rest) = (Position.mk (p.line + 1) 1).after rest := by
  rw [after_append, after_cons, next, if_pos rfl, line_after h]

end Position

theorem line_of_mem_locate {found : List Piece} (h : '\n' ∉ found.flatMap Piece.source)
    {p : Position} {lexeme : Lexeme} (hmem : lexeme ∈ locate p found) :
    lexeme.position.line = p.line := by
  induction found generalizing p with
  | nil => cases hmem
  | cons piece rest ih =>
    rw [List.flatMap_cons, List.mem_append, not_or] at h
    have hrest : lexeme ∈ locate (p.after piece.source) rest → lexeme.position.line = p.line := by
      intro hm
      rw [ih h.2 hm, Position.line_after h.1]
    cases piece with
    | comment source => exact hrest hmem
    | token token source =>
      rcases List.mem_cons.mp hmem with rfl | hm
      · rfl
      · exact hrest hm

/-- The lexemes of the line, and its stop if it has any, are on line `l`. -/
structure Line.On (line : Line) (l : Nat) : Prop where
  lexemes : ∀ x ∈ line.lexemes, x.position.line = l
  stop : line.lexemes ≠ [] → line.stop.line = l

theorem Line.On.fault {line : Line} {l : Nat} (h : line.On l) {fault : Fault}
    (hf : line.item? = .error fault) : fault.position.line = l := by
  obtain ⟨hne, hstop | ⟨lexeme, hmem, hlexeme⟩⟩ := Line.item?_fault_position hf
  · rw [hstop, h.stop hne]
  · rw [hlexeme, h.lexemes lexeme hmem]

/-- A line of the text that no break ends. -/
theorem on_locate {text : List Char} (hn : '\n' ∉ text) (hlex : (pieces text).2 = [])
    {p stop : Position}
    (hstop : (locate p (pieces text).1) ≠ [] → stop.line = p.line) :
    (Line.mk (locate p (pieces text).1) stop).On p.line := by
  refine ⟨fun x hx => line_of_mem_locate ?_ hx, hstop⟩
  rwa [source_pieces_of_lex hlex]

theorem locate_newline {first : List Char} (hf : '\n' ∉ first) (hlex : (pieces first).2 = [])
    (p : Position) (rest : List Char) :
    locate p (pieces (first ++ '\n' :: rest)).1 =
      locate p (pieces first).1 ++
        ⟨.newline, ['\n'], p.after first⟩ :: locate ⟨p.line + 1, 1⟩ (pieces rest).1 := by
  rw [locate_break hlex, Position.after_newline hf, Position.after_nil]

theorem linesOf_locate_newline {first : List Char} (hf : '\n' ∉ first)
    (hlex : (pieces first).2 = []) (p stop : Position) (rest : List Char) :
    linesOf stop (locate p (pieces (first ++ '\n' :: rest)).1) =
      ⟨locate p (pieces first).1, p.after first⟩ ::
        linesOf stop (locate ⟨p.line + 1, 1⟩ (pieces rest).1) := by
  rw [locate_newline hf hlex, linesOf_append_newline (newline_not_mem_locate hf p) stop rfl]

/-! ## The first fault -/

theorem pieces_of_firstStuck {text : List Char} {before after : List Reading} {c : Char}
    (h : (Text.split text).map reading = before ++ .stuck c :: after)
    (hbefore : ∀ r ∈ before, ∀ d, r ≠ .stuck d) (p : Position) :
    ∃ left, (pieces text).2 = c :: left ∧
      (p.after ((pieces text).1.flatMap Piece.source)).line = p.line + before.length := by
  induction text using Text.lineInduction generalizing before p with
  | last text hn =>
    rw [Text.split_of_no_newline hn, List.map_singleton] at h
    cases before with
    | cons r before => simp at h
    | nil =>
      obtain ⟨left, hleft⟩ := pieces_of_reading_stuck (List.cons.inj h).1
      refine ⟨left, hleft, Position.line_after (fun hm => hn ?_) p⟩
      rw [← source_pieces text]
      exact List.mem_append_left _ hm
  | line first rest hf ih =>
    rw [Text.split_append_newline hf, List.map_cons] at h
    cases before with
    | nil =>
      obtain ⟨left, hleft⟩ := pieces_of_reading_stuck (List.cons.inj h).1
      have hne : (pieces first).2 ≠ [] := by simp [hleft]
      rw [pieces_append_newline_of_stop hne, hleft]
      refine ⟨left ++ '\n' :: rest, rfl, Position.line_after (fun hm => hf ?_) p⟩
      rw [← source_pieces first]
      exact List.mem_append_left _ hm
    | cons r before =>
      obtain ⟨rfl, hrest⟩ := List.cons.inj h
      have hlex := pieces_of_reading_ne_stuck (hbefore _ (List.mem_cons_self ..))
      obtain ⟨left, hleft, hline⟩ := ih hrest
        (fun r hr => hbefore r (List.mem_cons_of_mem _ hr)) ⟨p.line + 1, 1⟩
      rw [pieces_append_newline hlex]
      refine ⟨left, hleft, ?_⟩
      rw [List.flatMap_append, source_pieces_of_lex hlex, List.flatMap_cons]
      show (p.after (first ++ '\n' :: (pieces rest).1.flatMap Piece.source)).line = _
      rw [Position.after_newline hf, hline, List.length_cons]
      show p.line + 1 + before.length = p.line + (before.length + 1)
      omega

/-- The stop of the text is on the line of its last lexeme. Only a text that does not end with a
break has lexemes after the last one, and then this is the last line. -/
theorem readItems_of_firstFaulty {text : List Char} (hlex : (pieces text).2 = [])
    {before after : List Reading} {complaint : Complaint}
    (h : (Text.split text).map reading = before ++ .faulty complaint :: after)
    (hbefore : ∀ r ∈ before, ∃ item, r = .tells item) {p stop : Position}
    (hstop : ∀ x, (locate p (pieces text).1).getLast? = some x → x.token ≠ .newline →
      stop.line = x.position.line) :
    ∃ column, readItems (linesOf stop (locate p (pieces text).1)) =
      .error ⟨⟨p.line + before.length, column⟩, complaint⟩ := by
  induction text using Text.lineInduction generalizing before p with
  | last text hn =>
    rw [Text.split_of_no_newline hn, List.map_singleton] at h
    cases before with
    | cons r before => simp at h
    | nil =>
      have hon : (Line.mk (locate p (pieces text).1) stop).On p.line := by
        refine on_locate hn hlex fun hne => ?_
        obtain ⟨x, hx⟩ := Option.isSome_iff_exists.mp (List.getLast?_isSome.mpr hne)
        have hmem := List.mem_of_getLast? hx
        rw [hstop x hx (newline_not_mem_locate hn p x hmem)]
        refine line_of_mem_locate ?_ hmem
        rwa [source_pieces_of_lex hlex]
      have htokens : (Line.mk (locate p (pieces text).1) stop).tokens =
          (pieces text).1.filterMap Piece.token? := map_token_locate _ _
      obtain ⟨⟨line, column⟩, hfault⟩ := item?_of_faulty (List.cons.inj h).1 htokens
      have hline : line = p.line := hon.fault hfault
      refine ⟨column, ?_⟩
      rw [linesOf_of_no_newline (newline_not_mem_locate hn p), readItems, hfault, hline]
      rfl
  | line first rest hf ih =>
    obtain ⟨hfirst, hrest⟩ := pieces_of_append_newline hf hlex
    rw [Text.split_append_newline hf, List.map_cons] at h
    rw [linesOf_locate_newline hf hfirst, readItems]
    have htokens : (Line.mk (locate p (pieces first).1) (p.after first)).tokens =
        (pieces first).1.filterMap Piece.token? := map_token_locate _ _
    cases before with
    | nil =>
      have hon : (Line.mk (locate p (pieces first).1) (p.after first)).On p.line :=
        on_locate hf hfirst fun _ => Position.line_after hf p
      obtain ⟨⟨line, column⟩, hfault⟩ := item?_of_faulty (List.cons.inj h).1 htokens
      have hline : line = p.line := hon.fault hfault
      exact ⟨column, by rw [hfault, hline]; rfl⟩
    | cons r before =>
      obtain ⟨rfl, hreadings⟩ := List.cons.inj h
      obtain ⟨item, htells⟩ := hbefore _ (List.mem_cons_self ..)
      obtain ⟨column, hread⟩ := ih hrest hreadings
        (fun r hr => hbefore r (List.mem_cons_of_mem _ hr)) (p := ⟨p.line + 1, 1⟩) (by
          intro x hx
          apply hstop x
          rw [locate_newline hf hfirst, List.getLast?_append, List.getLast?_cons, hx]
          rfl)
      refine ⟨column, ?_⟩
      have hcount : p.line + (before.length + 1) = p.line + 1 + before.length := by omega
      rw [item?_of_tells htells htokens, hread, List.length_cons, hcount]
      cases item <;> rfl

theorem not_stuck_iff {text : List Char} :
    (∀ r ∈ (Text.split text).map reading, ∀ d, r ≠ .stuck d) ↔ (pieces text).2 = [] := by
  rw [pieces_split]
  constructor
  · intro h line hl
    exact pieces_of_reading_ne_stuck (h _ (List.mem_map_of_mem hl))
  · intro h r hr d hd
    obtain ⟨line, hl, rfl⟩ := List.mem_map.mp hr
    obtain ⟨left, hleft⟩ := pieces_of_reading_stuck hd
    rw [h line hl] at hleft
    cases hleft

theorem parseMusic_of_firstFault {text : List Char} {l : Nat} {complaint : Complaint}
    (h : FirstFault ((Text.split text).map reading) l complaint) (metadata : Metadata) :
    ∃ column, parseMusic metadata text = .error ⟨⟨l, column⟩, complaint⟩ := by
  cases h with
  | @stuck before after c hsplit hbefore =>
    obtain ⟨left, hleft, hline⟩ := pieces_of_firstStuck hsplit hbefore .start
    refine ⟨(Position.start.after ((pieces text).1.flatMap Piece.source)).column, ?_⟩
    have hposition : (⟨before.length + 1,
        (Position.start.after ((pieces text).1.flatMap Piece.source)).column⟩ : Position) =
          Position.start.after ((pieces text).1.flatMap Piece.source) := by
      have hcount : before.length + 1 = Position.start.line + before.length := Nat.add_comm _ _
      rw [hcount, ← hline]
    simp only [parseMusic, lex, hleft, hposition]
  | @faulty before after _ hsplit hlex hbefore =>
    rw [not_stuck_iff] at hlex
    have hstop : ∀ x, (locate .start (pieces text).1).getLast? = some x → x.token ≠ .newline →
        (endOf (locate .start (pieces text).1)).line = x.position.line := by
      intro x hx _
      simp [endOf, hx]
    obtain ⟨column, hread⟩ := readItems_of_firstFaulty hlex hsplit hbefore hstop
    refine ⟨column, ?_⟩
    have hcount : before.length + 1 = Position.start.line + before.length := Nat.add_comm _ _
    simp only [parseMusic, lex_of_pieces hlex, LexemeCursor.items_start, hread, hcount]

theorem parseMusic_eq_ok_iff {metadata : Metadata} {text : List Char} {program : Program} :
    parseMusic metadata text = .ok program ↔ ∃ items : List (Option Item),
      (Text.split text).map reading = items.map .tells ∧
        program = Program.ofItems metadata (items.filterMap id) := by
  rw [parseMusic_eq_ok]
  have hlines : ∀ items : List (Option Item),
      List.Forall₂ LineReads (Text.split text) items ↔
        (Text.split text).map reading = items.map .tells := by
    intro items
    rw [forall₂_congr_of_mem fun line hl _ => lineReads_iff_tells (Text.not_mem_of_mem_split hl),
      ← List.forall₂_eq_eq_eq, List.forall₂_map_left_iff, List.forall₂_map_right_iff]
  simp only [hlines]

def Reading.isStuck : Reading → Bool
  | .stuck _ => true
  | _ => false

def Reading.isFaulty : Reading → Bool
  | .faulty _ => true
  | _ => false

theorem firstFault_or_tells (readings : List Reading) :
    (∃ l complaint, FirstFault readings l complaint) ∨
      ∃ items : List (Option Item), readings = items.map .tells := by
  cases hs : readings.find? Reading.isStuck with
  | some r =>
    obtain ⟨hr, before, after, heq, hbefore⟩ := List.find?_eq_some_iff_append.mp hs
    cases r with
    | stuck c =>
      refine .inl ⟨_, _, .stuck heq fun r hr d hd => ?_⟩
      have hnot := hbefore r hr
      rw [hd] at hnot
      cases hnot
    | faulty complaint => cases hr
    | tells item => cases hr
  | none =>
    have hlex : ∀ r ∈ readings, ∀ d, r ≠ .stuck d := by
      rintro r hr d rfl
      exact List.find?_eq_none.mp hs _ hr rfl
    cases hf : readings.find? Reading.isFaulty with
    | some r =>
      obtain ⟨hr, before, after, heq, hbefore⟩ := List.find?_eq_some_iff_append.mp hf
      cases r with
      | stuck c => cases hr
      | tells item => cases hr
      | faulty complaint =>
        refine .inl ⟨_, _, .faulty heq hlex fun r hr => ?_⟩
        cases r with
        | tells item => exact ⟨item, rfl⟩
        | stuck c => exact absurd rfl (hlex _ (by rw [heq]; exact List.mem_append_left _ hr) c)
        | faulty complaint =>
          have hnot := hbefore _ hr
          cases hnot
    | none =>
      right
      have hall : ∀ r ∈ readings, ∃ item, r = .tells item := by
        intro r hr
        cases r with
        | tells item => exact ⟨item, rfl⟩
        | stuck c => exact absurd rfl (hlex _ hr c)
        | faulty complaint => exact absurd rfl (List.find?_eq_none.mp hf _ hr)
      obtain ⟨items, hitems⟩ := exists_forall₂_iff.mpr hall
      refine ⟨items, ?_⟩
      rw [← List.forall₂_eq_eq_eq, List.forall₂_map_right_iff]
      exact hitems

theorem firstFault_of_parseMusic {metadata : Metadata} {text : List Char} {fault : Fault}
    (h : parseMusic metadata text = .error fault) :
    FirstFault ((Text.split text).map reading) fault.position.line fault.complaint := by
  rcases firstFault_or_tells ((Text.split text).map reading) with
    ⟨l, complaint, hfirst⟩ | ⟨items, htells⟩
  · obtain ⟨column, hfault⟩ := parseMusic_of_firstFault hfirst metadata
    rw [h] at hfault
    cases hfault
    exact hfirst
  · rw [parseMusic_eq_ok_iff.mpr ⟨items, htells, rfl⟩] at h
    cases h

end Solfege
