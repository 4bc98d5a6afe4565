import Mathlib.Data.List.Pairwise
import Mathlib.Data.Prod.Lex
import Solfege.Proofs.BadLine
import Solfege.Proofs.Lossless

/-!
# Solfege.Proofs.InPlace

The tokens of a source stand in the source where their positions say.

What is lexed is not the source itself but the music: lines without their carriage returns, with
empty ones in place of the front matter. Line by line this makes no difference. A line of the music
has the lexemes of the line of the source with the same number, except for a blank that was a
return (`mem_locate_lineAt_music`), and a line of the block has none.

* `Position.place`     — positions in order, lines first.
* `eq_of_covers`       — no two lexemes take up one place.
* `standsIn_of_mem`    — a lexeme of a line is a piece of it, in the column that it says.
* `mem_locate_of_sign` — a word, a number or a slash before the comment of a line is a lexeme.
* `tokenize_inPlace`   — all of this for the tokens of a source.
-/

namespace Solfege

/-! ## The order of positions -/

namespace Position

def place (p : Position) : Nat ×ₗ Nat :=
  toLex (p.line, p.column)

theorem place_lt_iff {p q : Position} :
    p.place < q.place ↔ p.line < q.line ∨ p.line = q.line ∧ p.column < q.column :=
  Prod.Lex.toLex_lt_toLex

theorem place_le_iff {p q : Position} :
    p.place ≤ q.place ↔ p.line < q.line ∨ p.line = q.line ∧ p.column ≤ q.column :=
  Prod.Lex.toLex_le_toLex

theorem place_lt_next (p : Position) (c : Char) : p.place < (p.next c).place := by
  rw [place_lt_iff, next]
  split
  · exact .inl (Nat.lt_succ_self _)
  · exact .inr ⟨rfl, Nat.lt_succ_self _⟩

theorem place_le_after (p : Position) (text : List Char) : p.place ≤ (p.after text).place := by
  induction text generalizing p with
  | nil => exact le_rfl
  | cons c rest ih => exact (p.place_lt_next c).le.trans (ih (p.next c))

theorem place_lt_after {text : List Char} (h : text ≠ []) (p : Position) :
    p.place < (p.after text).place := by
  obtain ⟨c, rest, rfl⟩ := List.exists_cons_of_ne_nil h
  exact (p.place_lt_next c).trans_le ((p.next c).place_le_after rest)

/-- A text with a break in it ends on a later line. -/
theorem line_lt_after {text : List Char} (h : '\n' ∈ text) (p : Position) :
    p.line < (p.after text).line := by
  obtain ⟨first, rest, rfl, hfirst⟩ := List.eq_append_cons_of_mem h
  rw [after_newline hfirst]
  rcases place_le_iff.mp (place_le_after ⟨p.line + 1, 1⟩ rest) with hline | ⟨hline, _⟩
  · exact (Nat.lt_succ_self _).trans hline
  · exact hline ▸ Nat.lt_succ_self _

end Position

/-- The lexeme takes up this place, or it is one of several that it takes up. -/
def Lexeme.Covers (lexeme : Lexeme) (p : Position) : Prop :=
  lexeme.position.line = p.line ∧ lexeme.position.column ≤ p.column ∧
    p.column < lexeme.position.column + lexeme.source.length

theorem Lexeme.Covers.place_le {lexeme : Lexeme} {p : Position} (h : lexeme.Covers p) :
    lexeme.position.place ≤ p.place :=
  Position.place_le_iff.mpr (.inr ⟨h.1, h.2.1⟩)

theorem Lexeme.Covers.place_lt {lexeme : Lexeme} {p : Position} (h : lexeme.Covers p) :
    p.place < (lexeme.position.after lexeme.source).place := by
  obtain ⟨hline, _, hcolumn⟩ := h
  rw [Position.place_lt_iff]
  by_cases hbreak : '\n' ∈ lexeme.source
  · exact .inl (hline ▸ Position.line_lt_after hbreak lexeme.position)
  · rw [Position.after_of_no_newline hbreak]
    exact .inr ⟨hline.symm, hcolumn⟩

theorem place_le_of_mem_locate {found : List Piece} {p : Position} {lexeme : Lexeme}
    (h : lexeme ∈ locate p found) : p.place ≤ lexeme.position.place := by
  induction found generalizing p with
  | nil => cases h
  | cons piece rest ih =>
    cases piece with
    | comment source => exact (p.place_le_after source).trans (ih h)
    | token token source =>
      rcases List.mem_cons.mp h with rfl | h
      · exact le_rfl
      · exact (p.place_le_after source).trans (ih h)

/-- A lexeme ends before the next one begins. -/
def Lexeme.EndsBefore (first second : Lexeme) : Prop :=
  (first.position.after first.source).place ≤ second.position.place

theorem pairwise_locate (p : Position) (found : List Piece) :
    (locate p found).Pairwise Lexeme.EndsBefore := by
  induction found generalizing p with
  | nil => exact .nil
  | cons piece rest ih =>
    cases piece with
    | comment source => exact ih _
    | token token source => exact .cons (fun _ => place_le_of_mem_locate) (ih _)

theorem eq_of_covers {lexemes : List Lexeme} (h : lexemes.Pairwise Lexeme.EndsBefore)
    {x y : Lexeme} (hx : x ∈ lexemes) (hy : y ∈ lexemes) {p : Position} (hxp : x.Covers p)
    (hyp : y.Covers p) : x = y := by
  have hnot : ∀ {x y : Lexeme}, Lexeme.EndsBefore x y → ¬ (x.Covers p ∧ y.Covers p) := by
    rintro x y hapart ⟨hx, hy⟩
    exact absurd (hx.place_lt.trans_le hapart) hy.place_le.not_gt
  by_contra hne
  have : Std.Symm fun x y : Lexeme => ¬ (x.Covers p ∧ y.Covers p) :=
    ⟨fun _ _ hxy hyx => hxy ⟨hyx.2, hyx.1⟩⟩
  exact (h.imp hnot).forall hx hy hne ⟨hxp, hyp⟩

/-! ## The lexemes of a line -/

theorem split_of_mem_locate {found : List Piece} {p : Position} {lexeme : Lexeme}
    (h : lexeme ∈ locate p found) : ∃ first second,
      found = first ++ .token lexeme.token lexeme.source :: second ∧
        lexeme.position = p.after (first.flatMap Piece.source) := by
  induction found generalizing p with
  | nil => cases h
  | cons piece rest ih =>
    have hrest : lexeme ∈ locate (p.after piece.source) rest → ∃ first second,
        piece :: rest = first ++ .token lexeme.token lexeme.source :: second ∧
          lexeme.position = p.after (first.flatMap Piece.source) := by
      intro hm
      obtain ⟨first, second, hfound, hposition⟩ := ih hm
      refine ⟨piece :: first, second, by rw [hfound, List.cons_append], ?_⟩
      rw [hposition, List.flatMap_cons, Position.after_append]
    cases piece with
    | comment source => exact hrest h
    | token token source =>
      rcases List.mem_cons.mp h with rfl | h
      · exact ⟨[], rest, rfl, rfl⟩
      · exact hrest h

theorem Stand.piece {before left : List Char} {first second : List Piece} {piece : Piece}
    (h : Stand before (first ++ piece :: second) left) :
    piece.Stands (before ++ first.flatMap Piece.source)
      (second.flatMap Piece.source ++ left) := by
  induction first generalizing before with
  | nil =>
    rw [List.flatMap_nil, List.append_nil]
    exact h.1
  | cons other first ih =>
    rw [List.flatMap_cons, ← List.append_assoc]
    exact ih h.2

/-- A lexeme of a text is a piece of it, at the position that the text before it leads to. -/
theorem stands_of_mem {text : List Char} {p : Position} {lexeme : Lexeme}
    (h : lexeme ∈ locate p (pieces text).1) : ∃ before after,
      text = before ++ lexeme.source ++ after ∧ lexeme.position = p.after before ∧
        (Piece.token lexeme.token lexeme.source).Stands before after := by
  obtain ⟨first, second, hfound, hposition⟩ := split_of_mem_locate h
  have htext := source_pieces text
  have hstand := stand_pieces (.start text)
  rw [hfound, List.flatMap_append, List.flatMap_cons, Piece.source] at htext
  rw [hfound] at hstand
  exact ⟨_, _, by simpa using htext.symm, hposition, hstand.piece⟩

theorem source_ne_nil_of_mem {text : List Char} {p : Position} {lexeme : Lexeme}
    (h : lexeme ∈ locate p (pieces text).1) : lexeme.source ≠ [] := by
  obtain ⟨_, _, _, _, hstands⟩ := stands_of_mem h
  exact Piece.source_ne_nil_of_next? (Piece.next?_of_stands hstands)

/-- The lexeme is a piece of the line with number `k`, counted from zero, in the column that it
says. -/
def Lexeme.StandsIn (lexeme : Lexeme) (k : Nat) (line : List Char) : Prop :=
  ∃ before after, lexeme.position = ⟨k + 1, before.length + 1⟩ ∧
    line = before ++ lexeme.source ++ after ∧
    (Piece.token lexeme.token lexeme.source).Stands before after

theorem standsIn_of_mem {line : List Char} (hn : '\n' ∉ line) {k : Nat} {lexeme : Lexeme}
    (h : lexeme ∈ locate ⟨k + 1, 1⟩ (pieces line).1) : lexeme.StandsIn k line := by
  obtain ⟨before, after, rfl, hposition, hstands⟩ := stands_of_mem h
  have hbefore : '\n' ∉ before := fun hm => hn (by simp [hm])
  rw [Position.after_of_no_newline hbefore, Nat.add_comm 1] at hposition
  exact ⟨before, after, hposition, rfl, hstands⟩

/-! ## Words, numbers and slashes -/

/-- A word, a number or a slash of a text in which it stands between `before` and `after`. -/
inductive Sign (before after : List Char) : List Char → Prop where
  | word {run : List Char} : run ≠ [] → MaximalRun Piece.isWordChar before run after →
      Sign before after run
  | number {run : List Char} : run ≠ [] → MaximalRun Char.isDigit before run after →
      Sign before after run
  | slash : Sign before after ['/']

/-- A text begins with one run of a class only. -/
theorem run_unique {p : Char → Bool} {run run' rest rest' : List Char}
    (hrun : ∀ c ∈ run, p c = true) (hrest : Leaves p rest) (hrun' : ∀ c ∈ run', p c = true)
    (hrest' : Leaves p rest') (h : run ++ rest = run' ++ rest') : run = run' := by
  rw [← takeWhile_append_leaves hrun hrest, h, takeWhile_append_leaves hrun' hrest']

theorem leaves_beforeComment {p : Char → Bool} {text : List Char} (h : Leaves p text) :
    Leaves p (beforeComment text) := by
  cases hhead : (beforeComment text).head? with
  | none => rw [Leaves, hhead]; rfl
  | some c =>
    rw [Leaves, head?_beforeComment hhead] at h
    rwa [Leaves, hhead]

theorem beforeComment_subset (text : List Char) : beforeComment text ⊆ text := by
  induction text with
  | nil => exact List.Subset.refl _
  | cons c rest ih =>
    rw [beforeComment]
    split
    · exact List.nil_subset _
    · exact List.cons_subset_cons c ih

/-- Nothing of a comment stands before it. -/
theorem beforeComment_of_comment {text source rest : List Char}
    (h : Piece.next? text = some (.comment source, rest)) : beforeComment text = [] := by
  have hstands := Piece.stands_of_next? h
  rw [← Piece.source_append_of_next? h]
  cases hstands
  rfl

theorem beforeComment_of_token {text source rest : List Char} {token : Token}
    (h : Piece.next? text = some (.token token source, rest)) :
    beforeComment text = source ++ beforeComment rest := by
  cases text with
  | nil => cases h
  | cons c tail =>
    have hc : ¬ (c = '/' ∧ tail.head? = some '/') := by
      rintro ⟨rfl, hhead⟩
      simp [Piece.next?, hhead] at h
    have hcut := Piece.next?_beforeComment hc
    rw [h] at hcut
    exact (Piece.source_append_of_next? hcut).symm

/-- A word or a number that has a character of one of the two classes is a run of it. -/
theorem Piece.Stands.maximalRun {before source after : List Char} {token : Token}
    (h : (Piece.token token source).Stands before after) {p : Char → Bool}
    (hp : p = Piece.isWordChar ∨ p = Char.isDigit) {c : Char} (hc : c ∈ source)
    (hpc : p c = true) : MaximalRun p before source after := by
  have hany : ['/', '\n', ' ', '\t', '\r'].any p = false := by
    rcases hp with rfl | rfl <;> decide
  obtain ⟨hslash, hnewline, hblank⟩ := Piece.not_mark hany hpc
  cases h with
  | slash => exact absurd (List.mem_singleton.mp hc) hslash
  | newline => exact absurd (List.mem_singleton.mp hc) hnewline
  | blank hmark =>
    rw [List.mem_singleton.mp hc] at hblank
    rcases hmark with rfl | rfl | rfl <;> cases hblank
  | number _ hrun =>
    rcases hp with rfl | rfl
    · rw [Piece.isWordChar_of_isDigit (hrun.all c hc)] at hpc
      cases hpc
    · exact hrun
  | word _ hrun =>
    rcases hp with rfl | rfl
    · exact hrun
    · have hword := hrun.all c hc
      rw [Piece.isWordChar_of_isDigit hpc] at hword
      cases hword

theorem Piece.Stands.slash_of_mem {before source after : List Char} {token : Token}
    (h : (Piece.token token source).Stands before after) (hc : '/' ∈ source) : source = ['/'] := by
  cases h with
  | slash => rfl
  | newline => cases List.mem_singleton.mp hc
  | blank hmark =>
    cases List.mem_singleton.mp hc
    rcases hmark with hmark | hmark | hmark <;> cases hmark
  | number _ hrun => cases hrun.all _ hc
  | word _ hrun => cases hrun.all _ hc

/-- A run that goes on from a text does not begin within another run. -/
theorem MaximalRun.eq_nil {p : Char → Bool} {before run after rest : List Char}
    (h : MaximalRun p before run after) (hall : ∀ c ∈ before ++ rest, p c = true) :
    before = [] := by
  cases hlast : before.getLast? with
  | none => exact List.getLast?_eq_none_iff.mp hlast
  | some c =>
    have hbefore := h.before
    rw [hlast, Option.any_some, hall c (List.mem_append_left _ (List.mem_of_getLast? hlast))]
      at hbefore
    cases hbefore

/-- A sign that begins in the first piece of a text is that piece. -/
theorem Sign.eq_piece {before sign after source rest middle : List Char} {token : Token} {c : Char}
    (h : Sign before after sign) (hstands : (Piece.token token source).Stands [] rest)
    (hwhole : source ++ beforeComment rest = before ++ sign ++ after)
    (hsource : source = before ++ c :: middle) (hc : sign.head? = some c) :
    before = [] ∧ source = sign := by
  have hmem : c ∈ source := by simp [hsource]
  have hrun : ∀ p, p = Piece.isWordChar ∨ p = Char.isDigit → MaximalRun p before sign after →
      before = [] ∧ source = sign := by
    intro p hp hsign
    have hpiece := hstands.maximalRun hp hmem (hsign.all c (List.mem_of_mem_head? hc))
    have hnil := hsign.eq_nil (hsource ▸ hpiece.all)
    rw [hnil, List.nil_append] at hwhole
    exact ⟨hnil, run_unique hpiece.all (leaves_beforeComment hpiece.after) hsign.all hsign.after
      hwhole⟩
  cases h with
  | word _ hsign => exact hrun _ (.inl rfl) hsign
  | number _ hsign => exact hrun _ (.inr rfl) hsign
  | slash =>
    cases hc
    have hslash := hstands.slash_of_mem hmem
    refine ⟨?_, hslash⟩
    have hlength := congrArg List.length (hsource.symm.trans hslash)
    rw [List.length_append, List.length_cons, List.length_singleton] at hlength
    exact List.length_eq_zero_iff.mp (by omega)

theorem Sign.ne_nil {before after sign : List Char} (h : Sign before after sign) : sign ≠ [] := by
  cases h with
  | word hne _ => exact hne
  | number hne _ => exact hne
  | slash => exact List.cons_ne_nil _ _

/-- What was read before a sign has no part in it. -/
theorem Sign.of_append {first before after sign : List Char}
    (h : Sign (first ++ before) after sign) : Sign before after sign := by
  have hrun : ∀ {p}, MaximalRun p (first ++ before) sign after →
      MaximalRun p before sign after := by
    rintro p ⟨hall, hbefore, hafter⟩
    refine ⟨hall, ?_, hafter⟩
    cases hlast : before.getLast? with
    | none => rfl
    | some c =>
      rwa [List.getLast?_append, hlast, Option.some_or] at hbefore
  cases h with
  | word hne hsign => exact .word hne (hrun hsign)
  | number hne hsign => exact .number hne (hrun hsign)
  | slash => exact .slash

/-- A sign of a line, up to its comment, is a lexeme. -/
theorem mem_locate_of_sign {line before sign after : List Char} (hlex : (pieces line).2 = [])
    (hsign : Sign before after sign) (h : beforeComment line = before ++ sign ++ after)
    (p : Position) : ∃ token, ⟨token, sign, p.after before⟩ ∈ locate p (pieces line).1 := by
  obtain ⟨c, more, rfl⟩ := List.exists_cons_of_ne_nil hsign.ne_nil
  induction line using pieceInduction generalizing before p with
  | stop text hn =>
    rw [pieces_of_next?_none hn] at hlex
    subst hlex
    simp [beforeComment] at h
  | step text piece rest hn ih =>
    rw [pieces_of_next? hn] at hlex ⊢
    cases piece with
    | comment source =>
      rw [beforeComment_of_comment hn] at h
      simp at h
    | token token source =>
      rw [beforeComment_of_token hn] at h
      -- The sign begins in this piece, and then it is this piece, or it is one of the rest.
      rcases append_eq_append_cons (h.trans (List.append_assoc _ _ _)) with
        ⟨middle, hsource⟩ | ⟨middle, rfl, hrest⟩
      · obtain ⟨rfl, rfl⟩ := hsign.eq_piece (Piece.stands_of_next? hn) h hsource rfl
        exact ⟨token, List.mem_cons_self ..⟩
      · obtain ⟨found, hmem⟩ := ih hlex (p.after source) hsign.of_append (by simp [hrest])
        rw [← Position.after_append] at hmem
        exact ⟨found, List.mem_cons_of_mem _ hmem⟩

/-! ## Line by line -/

/-- The line with number `k`, counted from zero; there is nothing on those below the last. -/
def lineAt (text : List Char) (k : Nat) : List Char :=
  (Text.split text)[k]?.getD []

theorem not_mem_lineAt (text : List Char) (k : Nat) : '\n' ∉ lineAt text k := by
  rw [lineAt]
  cases hline : (Text.split text)[k]? with
  | none => exact List.not_mem_nil
  | some line => exact Text.not_mem_of_mem_split (List.mem_of_getElem? hline)

theorem pieces_lineAt {text : List Char} (h : (pieces text).2 = []) (k : Nat) :
    (pieces (lineAt text k)).2 = [] := by
  rw [lineAt]
  cases hline : (Text.split text)[k]? with
  | none => rw [Option.getD_none, pieces_nil]
  | some line => exact pieces_split.mp h line (List.mem_of_getElem? hline)

/-- The lexemes of a text, but for its breaks, are those of its lines. -/
theorem mem_locate_iff {text : List Char} (hlex : (pieces text).2 = []) {lexeme : Lexeme}
    (hne : lexeme.token ≠ .newline) (l : Nat) :
    lexeme ∈ locate ⟨l, 1⟩ (pieces text).1 ↔
      ∃ k, lexeme ∈ locate ⟨l + k, 1⟩ (pieces (lineAt text k)).1 := by
  induction text using Text.lineInduction generalizing l with
  | last text hn =>
    have hline : ∀ k, lineAt text (k + 1) = [] := by
      intro k
      rw [lineAt, Text.split_of_no_newline hn]
      rfl
    have hfirst : lineAt text 0 = text := by
      rw [lineAt, Text.split_of_no_newline hn]
      rfl
    constructor
    · intro h
      exact ⟨0, by rwa [hfirst]⟩
    · rintro ⟨k, h⟩
      cases k with
      | zero => rwa [hfirst] at h
      | succ k =>
        rw [hline, pieces_nil] at h
        cases h
  | line first rest hf ih =>
    obtain ⟨hfirst, hrest⟩ := pieces_of_append_newline hf hlex
    have hzero : lineAt (first ++ '\n' :: rest) 0 = first := by
      rw [lineAt, Text.split_append_newline hf]
      rfl
    have hsucc : ∀ k, lineAt (first ++ '\n' :: rest) (k + 1) = lineAt rest k := by
      intro k
      rw [lineAt, Text.split_append_newline hf]
      rfl
    rw [locate_newline hf hfirst, List.mem_append, List.mem_cons, ih hrest]
    constructor
    · rintro (h | rfl | ⟨k, h⟩)
      · exact ⟨0, by rwa [hzero]⟩
      · exact absurd rfl hne
      · exact ⟨k + 1, by rwa [hsucc, ← Nat.add_assoc, Nat.add_right_comm]⟩
    · rintro ⟨k, h⟩
      cases k with
      | zero =>
        rw [hzero] at h
        exact .inl h
      | succ k =>
        rw [hsucc, ← Nat.add_assoc, Nat.add_right_comm] at h
        exact .inr (.inr ⟨k, h⟩)

theorem getElem?_ofStretches (stretches : List (List Char)) (k : Nat) :
    (Text.ofStretches stretches)[k]?.getD [] = stretches[k]?.getD [] ∨
      (Text.ofStretches stretches)[k]?.getD [] = Text.dropReturn (stretches[k]?.getD []) := by
  induction stretches generalizing k with
  | nil => exact .inl rfl
  | cons first rest ih =>
    cases rest with
    | nil =>
      rw [Text.ofStretches]
      split
      · rename_i hnil
        cases k <;> simp [hnil]
      · exact .inl rfl
    | cons next more =>
      have hlines : Text.ofStretches (first :: next :: more) =
          Text.dropReturn first :: Text.ofStretches (next :: more) := rfl
      rw [hlines]
      cases k with
      | zero => exact .inr rfl
      | succ k => exact ih k

/-- Outside the block, a line of the music is that of the source, perhaps without its return. -/
theorem lineAt_music (source : List Char) (k : Nat) :
    (FrontMatter.InBlock (Text.split source) k → lineAt (FrontMatter.divide source).2 k = []) ∧
      (¬ FrontMatter.InBlock (Text.split source) k →
        lineAt (FrontMatter.divide source).2 k = lineAt source k ∨
          lineAt (FrontMatter.divide source).2 k = Text.dropReturn (lineAt source k)) := by
  rw [FrontMatter.divide]
  split
  · rename_i hcut
    exact ⟨fun hblock => absurd hblock (FrontMatter.not_inBlock_of_cut?_none hcut k),
      fun _ => .inl rfl⟩
  · rename_i cut hcut
    obtain ⟨hinside, houtside⟩ := FrontMatter.getElem?_split_music hcut k
    constructor
    · intro hblock
      rw [lineAt, hinside hblock]
      rfl
    · intro hblock
      rw [lineAt, houtside hblock]
      exact getElem?_ofStretches (Text.split source) k

theorem mem_locate_dropReturn {line : List Char} (hn : '\n' ∉ line)
    (hlex : (pieces (Text.dropReturn line)).2 = []) :
    (pieces line).2 = [] ∧ ∀ (p : Position) (lexeme : Lexeme),
      (lexeme ∈ locate p (pieces (Text.dropReturn line)).1 →
        lexeme ∈ locate p (pieces line).1) ∧
      (lexeme ∈ locate p (pieces line).1 → lexeme.source ≠ ['\r'] →
        lexeme ∈ locate p (pieces (Text.dropReturn line)).1) := by
  rw [Text.dropReturn] at hlex ⊢
  split
  · rename_i hlast
    obtain ⟨text, rfl⟩ := List.getLast?_eq_some_iff.mp hlast
    rw [if_pos hlast, List.dropLast_concat] at hlex
    rw [List.dropLast_concat]
    have htext : '\n' ∉ text := fun hm => hn (List.mem_append_left _ hm)
    obtain ⟨hleft, hlexemes⟩ := pieces_append_return htext
    refine ⟨by rw [hleft, if_pos hlex], fun p lexeme => ?_⟩
    rcases hlexemes hlex p with heq | heq
    · rw [heq]
      exact ⟨id, fun h _ => h⟩
    · rw [heq]
      refine ⟨List.mem_append_left _, fun h hsource => ?_⟩
      rcases List.mem_append.mp h with h | h
      · exact h
      · rw [List.mem_singleton.mp h] at hsource
        exact absurd rfl hsource
  · rename_i hlast
    rw [if_neg hlast] at hlex
    exact ⟨hlex, fun p lexeme => ⟨id, fun h _ => h⟩⟩

/-- A line outside the block has the lexemes of the line of the music with its number, and perhaps
one more, a return. -/
theorem mem_locate_lineAt_music {source : List Char}
    (hlex : (pieces (FrontMatter.divide source).2).2 = []) {k : Nat}
    (hblock : ¬ FrontMatter.InBlock (Text.split source) k) :
    (pieces (lineAt source k)).2 = [] ∧ ∀ (p : Position) (lexeme : Lexeme),
      (lexeme ∈ locate p (pieces (lineAt (FrontMatter.divide source).2 k)).1 →
        lexeme ∈ locate p (pieces (lineAt source k)).1) ∧
      (lexeme ∈ locate p (pieces (lineAt source k)).1 → lexeme.source ≠ ['\r'] →
        lexeme ∈ locate p (pieces (lineAt (FrontMatter.divide source).2 k)).1) := by
  have hmusic := pieces_lineAt hlex k
  rcases (lineAt_music source k).2 hblock with heq | heq
  · rw [heq] at hmusic ⊢
    exact ⟨hmusic, fun p lexeme => ⟨id, fun h _ => h⟩⟩
  · rw [heq] at hmusic ⊢
    exact mem_locate_dropReturn (not_mem_lineAt source k) hmusic

/-! ## The tokens of a source -/

section Tokenize

variable {source : String} {lexemes : List Lexeme}

theorem pieces_of_tokenize (h : tokenize source = .ok lexemes) :
    (pieces (FrontMatter.divide source.toList).2).2 = [] ∧
      lexemes = locate ⟨1, 1⟩ (pieces (FrontMatter.divide source.toList).2).1 :=
  pieces_of_lex h

theorem standsIn_of_tokenize (h : tokenize source = .ok lexemes) {lexeme : Lexeme}
    (hm : lexeme ∈ lexemes) (hne : lexeme.token ≠ .newline) :
    ∃ k line, (Text.split source.toList)[k]? = some line ∧
      ¬ FrontMatter.InBlock (Text.split source.toList) k ∧ lexeme.StandsIn k line := by
  obtain ⟨hlex, rfl⟩ := pieces_of_tokenize h
  obtain ⟨k, hk⟩ := (mem_locate_iff hlex hne 1).mp hm
  rw [Nat.add_comm] at hk
  have hblock : ¬ FrontMatter.InBlock (Text.split source.toList) k := by
    intro hblock
    rw [(lineAt_music source.toList k).1 hblock, pieces_nil] at hk
    cases hk
  have hmem := (mem_locate_lineAt_music hlex hblock).2
  have hsource := (hmem _ _).1 hk
  have hstands := standsIn_of_mem (not_mem_lineAt _ k) hsource
  rw [lineAt] at hsource hstands
  cases hline : (Text.split source.toList)[k]? with
  | none =>
    rw [hline, Option.getD_none, pieces_nil] at hsource
    cases hsource
  | some line =>
    rw [hline] at hstands
    exact ⟨k, line, hline, hblock, hstands⟩

theorem Sign.ne_return {before after sign : List Char} (h : Sign before after sign) :
    sign ≠ ['\r'] := by
  rintro rfl
  cases h with
  | word _ hrun => cases hrun.all _ (List.mem_singleton_self _)
  | number _ hrun => cases hrun.all _ (List.mem_singleton_self _)

theorem mem_of_tokenize (h : tokenize source = .ok lexemes) {k : Nat} {line : List Char}
    (hline : (Text.split source.toList)[k]? = some line)
    (hblock : ¬ FrontMatter.InBlock (Text.split source.toList) k)
    {before sign after : List Char} (hsign : Sign before after sign)
    (hbefore : beforeComment line = before ++ sign ++ after) :
    ∃ token, ⟨token, sign, ⟨k + 1, before.length + 1⟩⟩ ∈ lexemes := by
  obtain ⟨hlex, rfl⟩ := pieces_of_tokenize h
  obtain ⟨hpieces, hmem⟩ := mem_locate_lineAt_music hlex hblock
  have hat : lineAt source.toList k = line := by
    rw [lineAt, hline]
    rfl
  rw [hat] at hpieces hmem
  obtain ⟨token, htoken⟩ := mem_locate_of_sign hpieces hsign hbefore ⟨1 + k, 1⟩
  have hunbroken : '\n' ∉ before := by
    intro hm
    apply Text.not_mem_of_mem_split (List.mem_of_getElem? hline)
    apply beforeComment_subset line
    simp [hbefore, hm]
  have hmusic := (hmem _ _).2 htoken hsign.ne_return
  have hne := newline_not_mem_locate (not_mem_lineAt _ k) _ _ hmusic
  refine ⟨token, ?_⟩
  rw [Position.after_of_no_newline hunbroken, Nat.add_comm 1, Nat.add_comm 1] at hmusic hne
  exact (mem_locate_iff hlex hne 1).mpr ⟨k, by rwa [Nat.add_comm 1]⟩

theorem pairwise_of_tokenize (h : tokenize source = .ok lexemes) :
    lexemes.Pairwise Lexeme.EndsBefore := by
  obtain ⟨_, rfl⟩ := pieces_of_tokenize h
  exact pairwise_locate _ _

/-- The tokens of a source, but for the breaks, stand outside the block, on the line and in the
column that they say. Each word, number and slash of a line outside the block that is in no comment
is one token, and no other takes up a place of it. The tokens are in order. -/
theorem tokenize_inPlace (h : tokenize source = .ok lexemes) :
    (∀ lexeme ∈ lexemes, lexeme.token ≠ .newline →
      ∃ k line, (Text.split source.toList)[k]? = some line ∧
        ¬ FrontMatter.InBlock (Text.split source.toList) k ∧ lexeme.StandsIn k line) ∧
    (∀ k line, (Text.split source.toList)[k]? = some line →
      ¬ FrontMatter.InBlock (Text.split source.toList) k →
      ∀ before sign after, beforeComment line = before ++ sign ++ after → Sign before after sign →
        ∃ lexeme ∈ lexemes, lexeme.source = sign ∧
          lexeme.position = ⟨k + 1, before.length + 1⟩ ∧
          ∀ other ∈ lexemes, ∀ i < sign.length,
            other.Covers ⟨k + 1, before.length + 1 + i⟩ → other = lexeme) ∧
    lexemes.Pairwise fun first second => first.position.place < second.position.place := by
  have hpairwise := pairwise_of_tokenize h
  refine ⟨fun lexeme => standsIn_of_tokenize h, ?_, ?_⟩
  · intro k line hline hblock before sign after hbefore hsign
    obtain ⟨token, hmem⟩ := mem_of_tokenize h hline hblock hsign hbefore
    refine ⟨_, hmem, rfl, rfl, fun other ho i hi hcovers => ?_⟩
    refine eq_of_covers hpairwise ho hmem hcovers ⟨rfl, Nat.le_add_right _ i, ?_⟩
    exact Nat.add_lt_add_left hi _
  · refine hpairwise.imp_of_mem fun {first second} hfirst _ hends => ?_
    obtain ⟨_, rfl⟩ := pieces_of_tokenize h
    exact (Position.place_lt_after (source_ne_nil_of_mem hfirst) _).trans_le hends

end Tokenize

/-- A block on the second line, with a return before two of the breaks. -/
def mixedEndings : String := "Compas 2/4 // dos\r\n---\r\ntitle: Vals\n---\nSol#4 Negra"

def mixedLexemes : List Lexeme :=
  [⟨.meter, "Compas".toList, ⟨1, 1⟩⟩, ⟨.blank, [' '], ⟨1, 7⟩⟩, ⟨.number 2, ['2'], ⟨1, 8⟩⟩,
    ⟨.slash, ['/'], ⟨1, 9⟩⟩, ⟨.number 4, ['4'], ⟨1, 10⟩⟩, ⟨.blank, [' '], ⟨1, 11⟩⟩,
    ⟨.newline, ['\n'], ⟨1, 18⟩⟩, ⟨.newline, ['\n'], ⟨2, 1⟩⟩, ⟨.newline, ['\n'], ⟨3, 1⟩⟩,
    ⟨.newline, ['\n'], ⟨4, 1⟩⟩, ⟨.word "Sol#", "Sol#".toList, ⟨5, 1⟩⟩, ⟨.number 4, ['4'], ⟨5, 5⟩⟩,
    ⟨.blank, [' '], ⟨5, 6⟩⟩, ⟨.duration .quarter, "Negra".toList, ⟨5, 7⟩⟩]

theorem tokenize_inPlace_mixedEndings :
    tokenize mixedEndings = .ok mixedLexemes ∧
      (∃ k line, (Text.split mixedEndings.toList)[k]? = some line ∧
        ¬ FrontMatter.InBlock (Text.split mixedEndings.toList) k ∧
        (Lexeme.mk (.word "Sol#") "Sol#".toList ⟨5, 1⟩).StandsIn k line) ∧
      ∃ lexeme ∈ mixedLexemes, lexeme.source = ['/'] ∧ lexeme.position = ⟨1, 9⟩ ∧
        ∀ other ∈ mixedLexemes, other.Covers ⟨1, 9⟩ → other = lexeme := by
  have htokens : tokenize mixedEndings = .ok mixedLexemes := by decide +kernel
  obtain ⟨hstand, hcovered, _⟩ := tokenize_inPlace htokens
  have houtside : ¬ FrontMatter.InBlock (Text.split mixedEndings.toList) 0 := by
    intro hblock
    exact absurd hblock.opened (by decide +kernel)
  obtain ⟨lexeme, hmem, hsource, hposition, hone⟩ := hcovered 0 "Compas 2/4 // dos\r".toList
    (by decide +kernel) houtside "Compas 2".toList ['/'] "4 ".toList (by decide +kernel) .slash
  exact ⟨htokens, hstand _ (by decide) (by decide), lexeme, hmem, hsource, hposition,
    fun other ho hcovers => hone other ho 0 Nat.one_pos hcovers⟩

end Solfege
