import Mathlib.Data.List.TakeWhile
import Solfege.FrontMatter

/-!
# Solfege.Proofs.Lines

Texts line by line.

* `lineInduction`          — a text is a last line, or a line with a break and a text after it.
* `split_append_newline`   — `split` takes off one line.
* `split_join`             — lines that are joined come apart again.
* `trim_dropReturn`        — a carriage return at the end of a line does not show once trimmed.
* `divide_of_no_delimiter` — a text without delimiters is all music.
-/

namespace Solfege
namespace Text

/-! ## Breaks -/

/-- A property of texts holds if it holds of a line without a break, and of a line, a break and a
text of which it holds. -/
theorem lineInduction {motive : List Char → Prop} (last : ∀ text, '\n' ∉ text → motive text)
    (line : ∀ first rest, '\n' ∉ first → motive rest → motive (first ++ '\n' :: rest))
    (text : List Char) : motive text := by
  -- The characters of the first line that have been passed are kept in `first`.
  suffices h : ∀ first, '\n' ∉ first → motive (first ++ text) from h [] (List.not_mem_nil)
  induction text with
  | nil =>
    intro first hf
    rw [List.append_nil]
    exact last first hf
  | cons c rest ih =>
    intro first hf
    by_cases hc : c = '\n'
    · subst hc
      exact line first rest hf (ih [] (List.not_mem_nil))
    · have := ih (first ++ [c]) (by simpa [hf] using fun h => hc h.symm)
      simpa using this

theorem split_append_newline {first : List Char} (h : '\n' ∉ first) (rest : List Char) :
    split (first ++ '\n' :: rest) = first :: split rest := by
  induction first with
  | nil => simp [split]
  | cons c tail ih =>
    rw [List.mem_cons, not_or] at h
    have htail := ih h.2
    simp only [split, List.cons_append, List.foldr_cons] at htail ⊢
    rw [htail, if_neg (Ne.symm h.1)]

theorem split_of_no_newline {text : List Char} (h : '\n' ∉ text) : split text = [text] := by
  induction text with
  | nil => rfl
  | cons c tail ih =>
    rw [List.mem_cons, not_or] at h
    have htail := ih h.2
    simp only [split, List.foldr_cons] at htail ⊢
    rw [htail, if_neg (Ne.symm h.1)]

theorem not_mem_of_mem_split {text line : List Char} (h : line ∈ split text) : '\n' ∉ line := by
  induction text using lineInduction with
  | last text hn =>
    rw [split_of_no_newline hn, List.mem_singleton] at h
    rw [h]
    exact hn
  | line first rest hf ih =>
    rw [split_append_newline hf, List.mem_cons] at h
    rcases h with rfl | h
    · exact hf
    · exact ih h

/-- A line of a file is a stretch of the text, less a carriage return. -/
theorem mem_of_mem_ofStretches {stretches : List (List Char)} {line : List Char}
    (h : line ∈ ofStretches stretches) :
    ∃ stretch ∈ stretches, line = stretch ∨ line = dropReturn stretch := by
  induction stretches with
  | nil => cases h
  | cons stretch rest ih =>
    cases rest with
    | nil =>
      rw [ofStretches] at h
      split at h
      · cases h
      · exact ⟨stretch, by simp, .inl (List.mem_singleton.mp h)⟩
    | cons next more =>
      simp only [ofStretches, List.mem_cons] at h
      rcases h with h | h
      · exact ⟨stretch, by simp, .inr h⟩
      · obtain ⟨s, hs, heq⟩ := ih h
        exact ⟨s, List.mem_cons_of_mem _ hs, heq⟩

theorem mem_split_of_mem_lines {text line : List Char} (h : line ∈ lines text) :
    ∃ stretch ∈ split text, line = stretch ∨ line = dropReturn stretch :=
  mem_of_mem_ofStretches h

/-! ## Joined lines -/

theorem split_join {ls : List (List Char)} (h : ∀ line ∈ ls, '\n' ∉ line) (hne : ls ≠ []) :
    split (join ls) = ls := by
  induction ls with
  | nil => exact absurd rfl hne
  | cons first rest ih =>
    have hfirst := h first (List.mem_cons_self ..)
    cases rest with
    | nil =>
      rw [join, List.intercalate_singleton]
      exact split_of_no_newline hfirst
    | cons next more =>
      have hrest := ih (fun line hl => h line (List.mem_cons_of_mem _ hl)) (List.cons_ne_nil _ _)
      rw [join, List.intercalate_cons_cons, List.append_assoc, List.singleton_append,
        split_append_newline hfirst]
      exact congrArg (first :: ·) hrest

theorem not_mem_dropReturn {line : List Char} {c : Char} (h : c ∉ line) : c ∉ dropReturn line := by
  rw [dropReturn]
  split
  · exact fun hm => h (List.dropLast_subset _ hm)
  · exact h

theorem not_mem_of_mem_lines {text line : List Char} (h : line ∈ lines text) : '\n' ∉ line := by
  obtain ⟨stretch, hs, rfl | rfl⟩ := mem_split_of_mem_lines h
  · exact not_mem_of_mem_split hs
  · exact not_mem_dropReturn (not_mem_of_mem_split hs)

theorem ofStretches_append (first : List (List Char)) {last : List (List Char)} (h : last ≠ []) :
    ofStretches (first ++ last) = first.map dropReturn ++ ofStretches last := by
  induction first with
  | nil => rfl
  | cons stretch rest ih =>
    have hne : rest ++ last ≠ [] := by simp [h]
    obtain ⟨next, more, hcons⟩ := List.exists_cons_of_ne_nil hne
    rw [List.cons_append, hcons, ofStretches, ← hcons, ih]
    · rfl
    · exact List.cons_ne_nil next more

/-! ## Trimming -/

theorem trim_append_blank (text : List Char) {c : Char} (h : isBlank c = true) :
    trim (text ++ [c]) = trim text := by
  simp only [trim]
  congr 1
  rw [List.dropWhile_append]
  split
  · rename_i hempty
    rw [List.isEmpty_iff.mp hempty]
    simp [h]
  · simp [h]

theorem trim_dropReturn (line : List Char) : trim (dropReturn line) = trim line := by
  rw [dropReturn]
  split
  · rename_i h
    obtain ⟨text, rfl⟩ := List.getLast?_eq_some_iff.mp h
    rw [List.dropLast_concat, trim_append_blank text (by decide)]
  · rfl

theorem mem_dropWhile {p : Char → Bool} {text : List Char} {c : Char} (h : c ∈ text)
    (hc : p c = false) : c ∈ text.dropWhile p := by
  rw [← List.takeWhile_append_dropWhile (p := p) (l := text), List.mem_append] at h
  rcases h with h | h
  · have hp := List.mem_takeWhile_imp h
    rw [hc] at hp
    cases hp
  · exact h

/-- Trimming takes away blanks only. -/
theorem mem_trim {text : List Char} {c : Char} (h : c ∈ text) (hc : isBlank c = false) :
    c ∈ trim text := by
  rw [trim, List.mem_reverse]
  exact mem_dropWhile (List.mem_reverse.mpr (mem_dropWhile h hc)) hc

theorem mem_of_mem_trim {text : List Char} {c : Char} (h : c ∈ trim text) : c ∈ text := by
  rw [trim, List.mem_reverse] at h
  have hdrop := List.mem_reverse.mp ((List.dropWhile_sublist _).subset h)
  exact (List.dropWhile_sublist _).subset hdrop

end Text

namespace FrontMatter

/-- A delimiter holds nothing but blanks and dashes. -/
theorem isDelimiter_of_mem {line : List Char} {c : Char} (h : c ∈ line)
    (hblank : Text.isBlank c = false) (hdash : c ≠ '-') : isDelimiter line = false := by
  have hmem := Text.mem_trim h hblank
  rw [isDelimiter, decide_eq_false_iff_not]
  intro heq
  rw [heq] at hmem
  simp [hdash] at hmem

theorem isDelimiter_dropReturn (line : List Char) :
    isDelimiter (Text.dropReturn line) = isDelimiter line := by
  rw [isDelimiter, isDelimiter, Text.trim_dropReturn]

theorem cut?_of_no_delimiter {lines : List (List Char)}
    (h : ∀ line ∈ lines, isDelimiter line = false) : cut? lines = none := by
  have hall : lines.dropWhile (!isDelimiter ·) = [] := by
    rw [List.dropWhile_eq_nil_iff]
    intro line hl
    simp [h line hl]
  rw [cut?, hall]

theorem divide_of_no_delimiter {source : List Char}
    (h : ∀ line ∈ Text.split source, isDelimiter line = false) :
    divide source = (none, source) := by
  have hlines : ∀ line ∈ Text.lines source, isDelimiter line = false := by
    intro line hl
    obtain ⟨stretch, hs, rfl | rfl⟩ := Text.mem_split_of_mem_lines hl
    · exact h line hs
    · rw [isDelimiter_dropReturn]
      exact h stretch hs
  rw [divide, cut?_of_no_delimiter hlines]

end FrontMatter
end Solfege
