import Solfege.Proofs.Readings

/-!
# Solfege.Proofs.Blocks

A front matter block may stand between any two lines of a piece, and the piece is read as if it
were not there.

What is read of a source with a block are the lines before it, an empty line for each line of the
block, and the lines after it (`divide_between`). Empty lines say nothing, so they move the first
fault down and change nothing else (`FirstFault.insert`). A delimiter itself cannot be read
(`reading_of_isDelimiter`), and so a source that is read has none or just the two of its block.

* `Block.between`     — the source with a block between two parts of the music.
* `parse_transparent` — what it is read as, compared with the music alone.
-/

namespace Solfege

/-! ## Blank lines among readings -/

/-- A row that is put together in two ways: the entry `r` is in the first part or in the second. -/
theorem append_eq_append_cons {α : Type} {a b before after : List α} {r : α}
    (h : a ++ b = before ++ r :: after) :
    (∃ middle, a = before ++ r :: middle) ∨
      ∃ middle, before = a ++ middle ∧ b = middle ++ r :: after := by
  rcases List.append_eq_append_iff.mp h with hb | ⟨middle, ha, hmiddle⟩
  · exact .inr hb
  · cases middle with
    | nil => exact .inr ⟨[], by simpa using ha.symm, hmiddle.symm⟩
    | cons s middle =>
      obtain ⟨rfl, _⟩ := List.cons.inj hmiddle
      exact .inl ⟨middle, ha⟩

/-- The number of a line once `n` lines are put in after the first `k`. -/
def shifted (k n l : Nat) : Nat :=
  if l ≤ k then l else l + n

theorem insert_cut {a b before after : List Reading} {r : Reading}
    (h : a ++ b = before ++ r :: after) (n : Nat) :
    ∃ before' after', a ++ List.replicate n (.tells none) ++ b = before' ++ r :: after' ∧
      before'.length + 1 = shifted a.length n (before.length + 1) ∧
      ∀ x ∈ before', x ∈ before ∨ x = .tells none := by
  rcases append_eq_append_cons h with ⟨middle, rfl⟩ | ⟨middle, rfl, rfl⟩
  · refine ⟨before, middle ++ (List.replicate n (.tells none) ++ b), by simp, ?_, fun x => .inl⟩
    rw [shifted, if_pos (by simp)]
  · refine ⟨a ++ List.replicate n (.tells none) ++ middle, after, by simp, ?_, ?_⟩
    · have hbelow : ¬ (a ++ middle).length + 1 ≤ a.length := by
        rw [List.length_append]
        omega
      rw [shifted, if_neg hbelow]
      simp only [List.length_append, List.length_replicate]
      omega
    · intro x hx
      rw [List.mem_append, List.mem_append] at hx
      rcases hx with (hx | hx) | hx
      · exact .inl (List.mem_append_left _ hx)
      · exact .inr (List.eq_of_mem_replicate hx)
      · exact .inl (List.mem_append_right _ hx)

namespace FirstFault

variable {a b : List Reading} {l : Nat} {complaint : Complaint}

theorem insert (h : FirstFault (a ++ b) l complaint) (n : Nat) :
    FirstFault (a ++ List.replicate n (.tells none) ++ b) (shifted a.length n l) complaint := by
  cases h with
  | stuck heq hbefore =>
    obtain ⟨before', after', hcut, hlength, hmem⟩ := insert_cut heq n
    rw [← hlength]
    refine .stuck hcut fun r hr d hd => ?_
    rcases hmem r hr with hr | rfl
    · exact hbefore r hr d hd
    · cases hd
  | faulty heq hlex hbefore =>
    obtain ⟨before', after', hcut, hlength, hmem⟩ := insert_cut heq n
    rw [← hlength]
    refine .faulty hcut (fun r hr d hd => ?_) fun r hr => ?_
    · rw [List.mem_append, List.mem_append] at hr
      rcases hr with (hr | hr) | hr
      · exact hlex r (List.mem_append_left _ hr) d hd
      · cases (List.eq_of_mem_replicate hr).symm.trans hd
      · exact hlex r (List.mem_append_right _ hr) d hd
    · rcases hmem r hr with hr | rfl
      · exact hbefore r hr
      · exact ⟨none, rfl⟩

theorem of_append_blank {n : Nat}
    (h : FirstFault (a ++ List.replicate n (.tells none)) l complaint) :
    FirstFault a l complaint := by
  have hcut : ∀ {before after : List Reading} {r : Reading}, r ≠ .tells none →
      a ++ List.replicate n (.tells none) = before ++ r :: after →
      ∃ middle, a = before ++ r :: middle := by
    intro before after r hr heq
    rcases append_eq_append_cons heq with ha | ⟨middle, _, hblank⟩
    · exact ha
    · have hmem : r ∈ List.replicate n (.tells none) := by
        rw [hblank]
        exact List.mem_append_right _ (List.mem_cons_self ..)
      exact absurd (List.eq_of_mem_replicate hmem) hr
  cases h with
  | stuck heq hbefore =>
    obtain ⟨middle, ha⟩ := hcut Reading.noConfusion heq
    exact .stuck ha hbefore
  | faulty heq hlex hbefore =>
    obtain ⟨middle, ha⟩ := hcut Reading.noConfusion heq
    exact .faulty ha (fun r hr => hlex r (List.mem_append_left _ hr)) hbefore

end FirstFault

/-- The items of a row of readings are those of the row with blank lines in it. -/
theorem tells_insert {a b : List Reading} {n : Nat} {items : List Item} :
    (∃ found : List (Option Item), a ++ List.replicate n (.tells none) ++ b = found.map .tells ∧
        items = found.filterMap id) ↔
      ∃ found : List (Option Item), a ++ b = found.map .tells ∧ items = found.filterMap id := by
  constructor
  · rintro ⟨found, heq, rfl⟩
    obtain ⟨front, after, rfl, hfront, rfl⟩ := List.append_eq_map_iff.mp heq
    obtain ⟨first, blanks, rfl, rfl, hblanks⟩ := List.append_eq_map_iff.mp hfront.symm
    have hnone : blanks = List.replicate n none := by
      rw [List.eq_replicate_iff]
      have hlength := congrArg List.length hblanks
      refine ⟨by simpa using hlength, fun item hitem => ?_⟩
      have hmem : Reading.tells item ∈ List.replicate n (.tells none) := by
        rw [← hblanks]
        exact List.mem_map_of_mem hitem
      exact Reading.tells.inj (List.eq_of_mem_replicate hmem)
    exact ⟨first ++ after, by simp, by simp [hnone]⟩
  · rintro ⟨found, heq, rfl⟩
    obtain ⟨first, after, rfl, rfl, rfl⟩ := List.append_eq_map_iff.mp heq
    exact ⟨first ++ List.replicate n none ++ after, by simp, by simp⟩

/-! ## Delimiters -/

theorem Piece.dash_mem_of_next? {text rest : List Char} {piece : Piece}
    (h : next? text = some (piece, rest)) (hslash : '/' ∉ text) (hdash : '-' ∈ text) :
    '-' ∈ rest := by
  cases text with
  | nil => cases h
  | cons c tail =>
    have hc : '/' ≠ c := fun hc => hslash (hc ▸ List.mem_cons_self ..)
    rw [List.mem_cons] at hdash
    rw [next?, if_neg hc.symm] at h
    split at h
    · rename_i hnewline
      cases h
      exact hdash.resolve_left (by simp [hnewline])
    · split at h
      · rename_i hblank
        cases h
        exact hdash.resolve_left (by rintro rfl; cases hblank)
      · split at h
        · rename_i hdigit
          cases h
          exact Text.mem_dropWhile (hdash.resolve_left (by rintro rfl; cases hdigit)) (by decide)
        · split at h
          · rename_i hletter
            cases h
            exact Text.mem_dropWhile (hdash.resolve_left (by rintro rfl; cases hletter))
              (by decide)
          · cases h

theorem pieces_of_dash {text : List Char} (hslash : '/' ∉ text) (hdash : '-' ∈ text) :
    (pieces text).2 ≠ [] := by
  induction text using pieceInduction with
  | stop text hn =>
    rw [pieces_of_next?_none hn]
    exact List.ne_nil_of_mem hdash
  | step text piece rest hn ih =>
    rw [pieces_of_next? hn]
    refine ih (fun hm => hslash ?_) (Piece.dash_mem_of_next? hn hslash hdash)
    rw [← Piece.source_append_of_next? hn]
    exact List.mem_append_right _ hm

namespace FrontMatter

theorem reading_of_isDelimiter {line : List Char} (h : isDelimiter line = true) :
    ∃ c, reading line = .stuck c := by
  have hslash : '/' ∉ line := by
    intro hm
    rw [isDelimiter_of_mem hm (by decide) (by decide)] at h
    cases h
  have hdash : '-' ∈ line := by
    apply Text.mem_of_mem_trim
    rw [of_decide_eq_true h]
    exact List.mem_cons_self ..
  obtain ⟨c, left, hleft⟩ := List.exists_cons_of_ne_nil (pieces_of_dash hslash hdash)
  exact ⟨c, reading_of_stuck hleft⟩

/-! ## Cuts -/

theorem cut?_of_delimiters {before inside after : List (List Char)} {opening closing : List Char}
    (hbefore : ∀ line ∈ before, isDelimiter line = false) (hopening : isDelimiter opening = true)
    (hinside : ∀ line ∈ inside, isDelimiter line = false) (hclosing : isDelimiter closing = true) :
    cut? (before ++ opening :: (inside ++ closing :: after)) = some ⟨before, inside, after⟩ := by
  have hplain : ∀ {lines : List (List Char)}, (∀ line ∈ lines, isDelimiter line = false) →
      ∀ line ∈ lines, (!isDelimiter line) = true := by
    intro lines h line hl
    rw [h line hl]
    rfl
  rw [cut?, List.dropWhile_append_of_pos (hplain hbefore),
    List.takeWhile_append_of_pos (hplain hbefore), List.dropWhile_cons_of_neg (by simp [hopening]),
    List.takeWhile_cons_of_neg (by simp [hopening])]
  dsimp only
  rw [List.dropWhile_append_of_pos (hplain hinside),
    List.takeWhile_append_of_pos (hplain hinside), List.dropWhile_cons_of_neg (by simp [hclosing]),
    List.takeWhile_cons_of_neg (by simp [hclosing])]
  simp

theorem eq_of_dropWhile {lines rest : List (List Char)} {line : List Char}
    (h : lines.dropWhile (!isDelimiter ·) = line :: rest) :
    lines = lines.takeWhile (!isDelimiter ·) ++ line :: rest ∧
      (∀ other ∈ lines.takeWhile (!isDelimiter ·), isDelimiter other = false) ∧
      isDelimiter line = true := by
  refine ⟨by rw [← h, List.takeWhile_append_dropWhile], fun other hother => ?_, ?_⟩
  · simpa using List.mem_takeWhile_imp hother
  · have hne : lines.dropWhile (!isDelimiter ·) ≠ [] := by simp [h]
    have hhead := List.head_dropWhile_not _ hne
    simpa [h] using hhead

/-- The lines of a cut: no delimiter stands before the opening one or between the two. -/
theorem eq_of_cut? {lines : List (List Char)} {cut : Cut} (h : cut? lines = some cut) :
    ∃ opening closing, lines = cut.before ++ opening :: (cut.inside ++ closing :: cut.after) ∧
      (∀ line ∈ cut.before, isDelimiter line = false) ∧ isDelimiter opening = true ∧
      (∀ line ∈ cut.inside, isDelimiter line = false) ∧ isDelimiter closing = true := by
  rw [cut?] at h
  split at h
  · cases h
  · rename_i opening rest hopening
    split at h
    · cases h
    · rename_i closing after hclosing
      cases h
      obtain ⟨hlines, hbefore, hfirst⟩ := eq_of_dropWhile hopening
      obtain ⟨hrest, hinside, hsecond⟩ := eq_of_dropWhile hclosing
      refine ⟨opening, closing, ?_, hbefore, hfirst, hinside, hsecond⟩
      rw [← hrest]
      exact hlines

theorem countP_of_cut? {lines : List (List Char)} {cut : Cut} (h : cut? lines = some cut) :
    lines.countP isDelimiter = cut.after.countP isDelimiter + 2 := by
  have hzero : ∀ {part : List (List Char)}, (∀ line ∈ part, isDelimiter line = false) →
      part.countP isDelimiter = 0 :=
    fun hpart => List.countP_eq_zero.mpr fun line hl => by simp [hpart line hl]
  obtain ⟨opening, closing, hlines, hbefore, hopening, hinside, hclosing⟩ := eq_of_cut? h
  rw [hlines, List.countP_append, List.countP_cons_of_pos hopening, List.countP_append,
    List.countP_cons_of_pos hclosing, hzero hbefore, hzero hinside]
  omega

theorem Cut.split_music {cut : Cut} (h : ∀ line ∈ cut.before ++ cut.after, '\n' ∉ line) :
    Text.split cut.music =
      cut.before ++ List.replicate (cut.inside.length + 2) [] ++ cut.after := by
  rw [music, Text.split_join _ (by simp)]
  intro line hl
  rw [List.mem_append, List.mem_append] at hl
  rcases hl with (hl | hl) | hl
  · exact h line (List.mem_append_left _ hl)
  · simp [List.eq_of_mem_replicate hl]
  · exact h line (List.mem_append_right _ hl)

theorem split_music_of_cut? {source : List Char} {cut : Cut}
    (h : cut? (Text.lines source) = some cut) :
    Text.split cut.music =
      cut.before ++ List.replicate (cut.inside.length + 2) [] ++ cut.after := by
  obtain ⟨opening, closing, hlines, _⟩ := eq_of_cut? h
  refine cut.split_music fun line hl => Text.not_mem_of_mem_lines (?_ : line ∈ Text.lines source)
  rcases List.mem_append.mp hl with hl | hl <;> simp [hlines, hl]

/-- A delimiter that is left in the music cannot be read. -/
theorem no_delimiter_of_parse [FrontMatter.Reader] {source : String} {program : Program}
    (h : parse source = .ok program)
    {line : List Char} (hl : line ∈ Text.split (divide source.toList).2) :
    isDelimiter line = false := by
  have hmusic : ∃ metadata, parseMusic metadata (divide source.toList).2 = .ok program := by
    rw [parse] at h
    dsimp only at h
    split at h
    · cases h
    · rename_i metadata _
      split at h
      · cases h
      · rename_i hp
        cases h
        exact ⟨metadata, hp⟩
  obtain ⟨metadata, hp⟩ := hmusic
  obtain ⟨items, htells, _⟩ := parseMusic_eq_ok_iff.mp hp
  rw [← Bool.not_eq_true]
  intro hdelimiter
  obtain ⟨c, hstuck⟩ := reading_of_isDelimiter hdelimiter
  have hmem : reading line ∈ items.map .tells := by
    rw [← htells]
    exact List.mem_map_of_mem hl
  rw [hstuck] at hmem
  obtain ⟨item, _, hitem⟩ := List.mem_map.mp hmem
  cases hitem

def delimiters (source : String) : Nat :=
  (Text.lines source.toList).countP isDelimiter

theorem delimiters_of_parse [FrontMatter.Reader] {source : String} {program : Program}
    (h : parse source = .ok program) : delimiters source = 0 ∨ delimiters source = 2 := by
  have hplain := @no_delimiter_of_parse _ source program h
  cases hcut : cut? (Text.lines source.toList) with
  | none =>
    left
    have hdivide : divide source.toList = (none, source.toList) := by rw [divide, hcut]
    rw [hdivide] at hplain
    rw [delimiters, List.countP_eq_zero]
    intro line hl
    obtain ⟨stretch, hs, rfl | rfl⟩ := Text.mem_split_of_mem_lines hl
    · simp [hplain hs]
    · simp [isDelimiter_dropReturn, hplain hs]
  | some cut =>
    right
    have hcount := countP_of_cut? hcut
    have hdivide : divide source.toList = (some cut.content, cut.music) := by rw [divide, hcut]
    rw [hdivide, split_music_of_cut? hcut] at hplain
    have hafter : cut.after.countP isDelimiter = 0 := by
      rw [List.countP_eq_zero]
      intro line hl
      simp [hplain (List.mem_append_right _ hl)]
    rw [delimiters, hcount, hafter]

/-! ## A block among lines of music -/

/-- A line that is no delimiter. -/
structure Plain where
  line : List Char
  unbroken : '\n' ∉ line
  plain : isDelimiter line = false

structure Delimiter where
  line : List Char
  unbroken : '\n' ∉ line
  delimits : isDelimiter line = true

structure Block where
  opening : Delimiter
  inside : List Plain
  closing : Delimiter

def sourceOf (lines : List (List Char)) : String :=
  String.ofList (Text.join lines)

def alone (music : List Plain) : String :=
  sourceOf (music.map Plain.line)

namespace Block

/-- The lines inside, each without the carriage return that may stand before its break. -/
def content (block : Block) : List Char :=
  Text.join (block.inside.map fun line => Text.dropReturn line.line)

def lines (block : Block) : List (List Char) :=
  block.opening.line :: (block.inside.map Plain.line ++ [block.closing.line])

/-- The source with the block between two parts of the music. -/
def between (block : Block) (before after : List Plain) : String :=
  sourceOf (before.map Plain.line ++ block.lines ++ after.map Plain.line)

def cut (block : Block) (before after : List Plain) : Cut where
  before := before.map fun line => Text.dropReturn line.line
  inside := block.inside.map fun line => Text.dropReturn line.line
  after := Text.ofStretches (after.map Plain.line)

end Block

theorem Plain.newline_not_mem {part : List Plain} {line : List Char}
    (h : line ∈ part.map Plain.line) : '\n' ∉ line := by
  obtain ⟨line, _, rfl⟩ := List.mem_map.mp h
  exact line.unbroken

theorem Plain.isDelimiter_of_mem_dropReturn {part : List Plain} {line : List Char}
    (h : line ∈ part.map fun line => Text.dropReturn line.line) : isDelimiter line = false := by
  obtain ⟨line, _, rfl⟩ := List.mem_map.mp h
  rw [isDelimiter_dropReturn, line.plain]

/-- The closing delimiter is a line also where the source ends with it. -/
theorem Delimiter.ofStretches_cons (closing : Delimiter) (stretches : List (List Char)) :
    ∃ line, isDelimiter line = true ∧
      Text.ofStretches (closing.line :: stretches) = line :: Text.ofStretches stretches := by
  cases stretches with
  | nil =>
    have hne : closing.line ≠ [] := by
      intro hnil
      have hdelimits := closing.delimits
      rw [hnil] at hdelimits
      cases hdelimits
    exact ⟨closing.line, closing.delimits, by simp [Text.ofStretches, hne]⟩
  | cons next more =>
    refine ⟨Text.dropReturn closing.line, ?_, rfl⟩
    rw [isDelimiter_dropReturn, closing.delimits]

variable (block : Block) (before after : List Plain)

namespace Block

theorem split_between : Text.split (block.between before after).toList =
    before.map Plain.line ++ block.lines ++ after.map Plain.line := by
  rw [between, sourceOf, String.toList_ofList, Text.split_join _ (by simp [lines])]
  intro line hl
  simp only [lines, List.mem_append, List.mem_cons, List.mem_nil_iff, or_false] at hl
  rcases hl with (hl | rfl | hl | rfl) | hl
  · exact Plain.newline_not_mem hl
  · exact block.opening.unbroken
  · exact Plain.newline_not_mem hl
  · exact block.closing.unbroken
  · exact Plain.newline_not_mem hl

theorem cut?_between :
    cut? (Text.lines (block.between before after).toList) = some (block.cut before after) := by
  obtain ⟨closing, hclosing, hlast⟩ := block.closing.ofStretches_cons (after.map Plain.line)
  have hstretches : before.map Plain.line ++ block.lines ++ after.map Plain.line =
      (before.map Plain.line ++ block.opening.line :: block.inside.map Plain.line) ++
        block.closing.line :: after.map Plain.line := by
    simp [lines]
  rw [Text.lines, split_between, hstretches, Text.ofStretches_append _ (List.cons_ne_nil _ _),
    hlast, List.map_append, List.map_cons, List.map_map, List.map_map, List.append_assoc,
    List.cons_append]
  exact cut?_of_delimiters (fun _ => Plain.isDelimiter_of_mem_dropReturn)
    ((isDelimiter_dropReturn _).trans block.opening.delimits)
    (fun _ => Plain.isDelimiter_of_mem_dropReturn) hclosing

theorem divide_between : divide (block.between before after).toList =
    (some block.content, (block.cut before after).music) := by
  rw [divide, cut?_between]
  rfl

end Block

/-! ## What is read -/

/-- A measure that a carriage return does not change is the same on stretches and on lines, but for
a last empty stretch, which is no line. -/
theorem map_ofStretches {α : Type} {f : List Char → α} {stretches : List (List Char)}
    (h : ∀ line ∈ stretches, f (Text.dropReturn line) = f line) :
    ∃ n, stretches.map f = (Text.ofStretches stretches).map f ++ List.replicate n (f []) := by
  induction stretches with
  | nil => exact ⟨0, rfl⟩
  | cons first rest ih =>
    obtain ⟨n, hrest⟩ := ih fun line hl => h line (List.mem_cons_of_mem _ hl)
    have hfirst := h first (List.mem_cons_self ..)
    cases rest with
    | nil =>
      rw [Text.ofStretches]
      split
      · rename_i hnil
        exact ⟨1, by simp [hnil]⟩
      · exact ⟨0, by simp⟩
    | cons next more =>
      have hlines : Text.ofStretches (first :: next :: more) =
          Text.dropReturn first :: Text.ofStretches (next :: more) := rfl
      refine ⟨n, ?_⟩
      rw [List.map_cons, hrest, hlines, List.map_cons, hfirst]
      rfl

/-- Stretches are read like lines, and an empty one says nothing. -/
theorem map_reading_ofStretches {stretches : List (List Char)}
    (h : ∀ line ∈ stretches, '\n' ∉ line) :
    ∃ n, stretches.map reading =
      (Text.ofStretches stretches).map reading ++ List.replicate n (.tells none) := by
  rw [← reading_nil]
  exact map_ofStretches fun line hl => reading_dropReturn (h line hl)

theorem Block.readings_between : (Text.split (block.cut before after).music).map reading =
    (block.cut before after).before.map reading ++
      List.replicate (block.inside.length + 2) (.tells none) ++
      (block.cut before after).after.map reading := by
  have hunbroken : ∀ line ∈ (block.cut before after).before ++ (block.cut before after).after,
      '\n' ∉ line := by
    intro line hl
    rcases List.mem_append.mp hl with hl | hl
    · obtain ⟨line, _, rfl⟩ := List.mem_map.mp hl
      exact Text.not_mem_dropReturn line.unbroken
    · obtain ⟨stretch, hs, rfl | rfl⟩ := Text.mem_of_mem_ofStretches hl
      · exact Plain.newline_not_mem hs
      · exact Text.not_mem_dropReturn (Plain.newline_not_mem hs)
  have hinside : (block.cut before after).inside.length = block.inside.length := List.length_map _
  rw [Cut.split_music hunbroken, List.map_append, List.map_append, List.map_replicate, reading_nil,
    hinside]

theorem split_alone (music : List Plain) :
    Text.split (alone music).toList = if music = [] then [[]] else music.map Plain.line := by
  rw [alone, sourceOf, String.toList_ofList]
  split
  · rename_i hnil
    rw [hnil]
    rfl
  · rename_i hne
    exact Text.split_join (fun _ => Plain.newline_not_mem) (by simpa using hne)

theorem Block.readings_alone : ∃ n, (Text.split (alone (before ++ after)).toList).map reading =
    (block.cut before after).before.map reading ++ (block.cut before after).after.map reading ++
      List.replicate n (.tells none) := by
  rw [split_alone]
  split
  · rename_i hnil
    obtain ⟨rfl, rfl⟩ := List.append_eq_nil_iff.mp hnil
    exact ⟨1, by simp [cut, Text.ofStretches, reading_nil]⟩
  · have hunbroken : ∀ line ∈ after.map Plain.line, '\n' ∉ line := fun _ => Plain.newline_not_mem
    have hbefore : (block.cut before after).before.map reading =
        (before.map Plain.line).map reading := by
      rw [cut, List.map_map, List.map_map]
      exact List.map_congr_left fun line _ => reading_dropReturn line.unbroken
    obtain ⟨n, hafter⟩ := map_reading_ofStretches hunbroken
    refine ⟨n, ?_⟩
    rw [hbefore, List.map_append, List.map_append, hafter, List.append_assoc]
    rfl

theorem parse_alone [FrontMatter.Reader] (music : List Plain) :
    parse (alone music) = match parseMusic {} (alone music).toList with
      | .error fault => .error (.parse fault)
      | .ok program => .ok program := by
  apply parse_of_no_delimiter
  intro line hl
  rw [split_alone] at hl
  split at hl
  · rw [List.mem_singleton.mp hl]
    rfl
  · obtain ⟨line, _, rfl⟩ := List.mem_map.mp hl
    exact line.plain

theorem Block.parse_between [FrontMatter.Reader] {metadata : Metadata}
    (h : Metadata.ofContent block.content = .ok metadata) :
    parse (block.between before after) =
      match parseMusic metadata (block.cut before after).music with
      | .error fault => .error (.parse fault)
      | .ok program => .ok program := by
  cases hmusic : parseMusic metadata (block.cut before after).music <;>
    simp only [parse, divide_between, metadataOf, h, hmusic]

theorem Block.parseMusic_cut {metadata : Metadata} {program : Program} :
    parseMusic metadata (block.cut before after).music = .ok program ↔
      ∃ plain, parseMusic {} (alone (before ++ after)).toList = .ok plain ∧
        program = { plain with metadata } := by
  obtain ⟨n, halone⟩ := block.readings_alone before after
  have hitems : ∀ items : List Item, (∃ found : List (Option Item),
      (Text.split (block.cut before after).music).map reading = found.map .tells ∧
        items = found.filterMap id) ↔
      ∃ found : List (Option Item),
        (Text.split (alone (before ++ after)).toList).map reading = found.map .tells ∧
          items = found.filterMap id := by
    intro items
    have hend := @tells_insert ((block.cut before after).before.map reading ++
      (block.cut before after).after.map reading) [] n items
    rw [List.append_nil, List.append_nil] at hend
    rw [readings_between, tells_insert, halone, hend]
  simp only [parseMusic_eq_ok_iff]
  constructor
  · rintro ⟨found, htells, rfl⟩
    obtain ⟨found', htells', heq⟩ := (hitems _).mp ⟨found, htells, rfl⟩
    exact ⟨_, ⟨found', htells', rfl⟩, by rw [heq]; rfl⟩
  · rintro ⟨_, ⟨found, htells, rfl⟩, rfl⟩
    obtain ⟨found', htells', heq⟩ := (hitems _).mpr ⟨found, htells, rfl⟩
    exact ⟨found', htells', by rw [heq]; rfl⟩

theorem Block.parseMusic_cut_error (metadata : Metadata) {fault : Fault}
    (h : parseMusic {} (alone (before ++ after)).toList = .error fault) :
    ∃ column, parseMusic metadata (block.cut before after).music =
      .error ⟨⟨shifted before.length (block.inside.length + 2) fault.position.line, column⟩,
        fault.complaint⟩ := by
  obtain ⟨n, halone⟩ := block.readings_alone before after
  have hfault := firstFault_of_parseMusic h
  rw [halone] at hfault
  have hinsert := hfault.of_append_blank.insert (block.inside.length + 2)
  rw [← readings_between] at hinsert
  have hbefore : ((block.cut before after).before.map reading).length = before.length := by
    simp [cut]
  rw [hbefore] at hinsert
  exact parseMusic_of_firstFault hinsert metadata

/-- A block between two parts of the music changes nothing but the metadata and the numbers of the
lines below it; if the block cannot be read, that is the error. No source that is read has other
delimiters than those of one block. -/
theorem parse_transparent [FrontMatter.Reader] (block : Block) (before after : List Plain) :
    (∀ fault, Metadata.ofContent block.content = .error fault →
      parse (block.between before after) = .error (.metadata fault)) ∧
    (∀ metadata, Metadata.ofContent block.content = .ok metadata →
      (∀ program, parse (block.between before after) = .ok program ↔
        ∃ plain, parse (alone (before ++ after)) = .ok plain ∧
          program = { plain with metadata }) ∧
      ∀ fault, parse (alone (before ++ after)) = .error (.parse fault) →
        ∃ column, parse (block.between before after) = .error (.parse
          ⟨⟨if fault.position.line ≤ before.length then fault.position.line
            else fault.position.line + (block.inside.length + 2), column⟩, fault.complaint⟩)) ∧
    ∀ source program, parse source = .ok program →
      delimiters source = 0 ∨ delimiters source = 2 := by
  refine ⟨?_, ?_, fun source program => delimiters_of_parse⟩
  · intro fault hfault
    rw [parse, Block.divide_between]
    simp only [metadataOf, hfault]
  · intro metadata hmetadata
    rw [block.parse_between before after hmetadata, parse_alone]
    constructor
    · intro program
      have hcut := @block.parseMusic_cut before after metadata program
      cases hp : parseMusic metadata (block.cut before after).music <;>
        cases ha : parseMusic {} (alone (before ++ after)).toList <;>
        simp_all
    · intro fault hfault
      cases ha : parseMusic {} (alone (before ++ after)).toList with
      | ok plain =>
        rw [ha] at hfault
        cases hfault
      | error found =>
        rw [ha] at hfault
        cases hfault
        obtain ⟨column, hcut⟩ := block.parseMusic_cut_error before after metadata ha
        exact ⟨column, by rw [hcut]; rfl⟩

/-- A block with an indented delimiter and with carriage returns. -/
def waltz : Block where
  opening := ⟨"  ---".toList, by decide, by decide⟩
  inside := [⟨"title: Vals\r".toList, by decide, by decide⟩]
  closing := ⟨"---\r".toList, by decide, by decide⟩

/-- The note without a duration is on the second line of the music, and three lines further down
once the block stands before it. -/
theorem parse_transparent_waltz : ∃ tempo note : Plain,
    waltz.between [tempo] [note] = "Tempo 60\r\n  ---\ntitle: Vals\r\n---\r\nDo4" ∧
    Metadata.ofContent waltz.content = .ok { title := some "Vals" } ∧
    ∃ column, parse (waltz.between [tempo] [note]) =
      .error (.parse ⟨⟨5, column⟩, .expectedDuration "Do" 4⟩) := by
  let tempo : Plain := ⟨"Tempo 60\r".toList, by decide, by decide⟩
  let note : Plain := ⟨"Do4".toList, by decide, by decide⟩
  have hmetadata : Metadata.ofContent waltz.content = .ok { title := some "Vals" } := by
    decide +kernel
  have halone : parse (alone [tempo, note]) =
      .error (.parse ⟨⟨2, 4⟩, .expectedDuration "Do" 4⟩) := by
    decide +kernel
  exact ⟨tempo, note, by decide +kernel, hmetadata,
    ((parse_transparent waltz [tempo] [note]).2.1 _ hmetadata).2 _ halone⟩

end FrontMatter
end Solfege
