import Solfege.Proofs.Written
import Solfege.Yaml.Fields

/-!
# Solfege.Proofs.AppendOnly

Adding a fragment to a score succeeds or changes nothing.

* `append_verdict`   — the verdict on a fragment is the compiler's, whatever the score.
* `append_eq_onto`   — the text of the score plays no part in what is added to it.
* `appendAll_filter` — in a run, the fragments that do not compile may be left out.

`append_atomic` states the three together.
-/

namespace Solfege

def compiles [FrontMatter.Reader] (source : String) : Bool :=
  (compile source).isOk

theorem compile_of_ok [FrontMatter.Reader] {source : String} {program : Program}
    (h : accept source = .ok program) : compile source = .ok program.toAbc := by
  rw [compile, h]
  rfl

theorem compile_of_error [FrontMatter.Reader] {source : String} {error : Error}
    (h : accept source = .error error) : compile source = .error error := by
  rw [compile, h]
  rfl

theorem compiles_iff [FrontMatter.Reader] {source : String} :
    compiles source = true ↔ ∃ text, compile source = .ok text := by
  rw [compiles]
  cases compile source <;> simp [Except.isOk, Except.toBool]

theorem not_compiles_iff [FrontMatter.Reader] {source : String} :
    compiles source = false ↔ ∃ error, compile source = .error error := by
  rw [compiles]
  cases compile source <;> simp [Except.isOk, Except.toBool]

namespace Score

variable {β : Type} [Beat β]

def alone [FrontMatter.Reader] (clock : Clock β) (source : String) : Score β :=
  ((⟨"", clock⟩ : Score β).append source).2

def onto (score next : Score β) : Score β :=
  ⟨score.text ++ next.text, next.clock⟩

/-- Both stop at the same point, before anything is written. -/
theorem append_verdict [FrontMatter.Reader] (score : Score β) (source : String) :
    (score.append source).1 = (compile source).map fun _ => () := by
  cases h : accept source with
  | error error =>
    rw [append_of_error h, compile_of_error h]
    rfl
  | ok program =>
    rw [append_of_ok h, compile_of_ok h]
    rfl

theorem append_of_compile_error [FrontMatter.Reader] {source : String} {error : Error}
    (h : compile source = .error error) (score : Score β) :
    score.append source = (.error error, score) := by
  cases ha : accept source with
  | error other =>
    rw [compile_of_error ha] at h
    cases h
    exact append_of_error ha score
  | ok program =>
    rw [compile_of_ok ha] at h
    cases h

theorem append_eq_onto [FrontMatter.Reader] (score : Score β) (source : String) :
    (score.append source).2 = score.onto (alone score.clock source) := by
  cases h : accept source with
  | error error =>
    rw [alone, append_of_error h, append_of_error h, onto]
    simp
  | ok program =>
    rw [alone, append_of_ok h, append_of_ok h, onto]
    simp

/-- At the start of a piece, the text that a fragment adds is the one it compiles to. -/
theorem alone_start [FrontMatter.Reader] {source text : String} (h : compile source = .ok text) :
    (alone (.start : Clock Float) source).text = text := by
  cases ha : accept source with
  | error error =>
    rw [compile_of_error ha] at h
    cases h
  | ok program =>
    rw [compile_of_ok ha] at h
    cases h
    rw [alone, append_of_ok ha]
    exact String.empty_append

/-- One fragment more or less: what does not compile leaves the score as it was for the fragments
after it. -/
theorem appendAll_filter [FrontMatter.Reader] (score : Score β) (sources : List String) :
    score.appendAll sources = score.appendAll (sources.filter compiles) := by
  induction sources generalizing score with
  | nil => rfl
  | cons source rest ih =>
    cases h : compile source with
    | error error =>
      have hdrop := not_compiles_iff.mpr ⟨error, h⟩
      rw [List.filter_cons_of_neg (by simp [hdrop]), appendAll_cons,
        append_of_compile_error h, ih]
    | ok text =>
      have hkeep := compiles_iff.mpr ⟨text, h⟩
      rw [List.filter_cons_of_pos hkeep, appendAll_cons, appendAll_cons, ih]

/-- Adding a fragment fails exactly if compiling it fails, with the same error, and the score is
then as before. Otherwise the score goes on with a text and a clock that depend on its own clock
and the source alone; from the start of a piece the text is the compiled one. Hence a run over any
fragments ends like the run over those that compile. -/
theorem append_atomic [FrontMatter.Reader] (score : Score Float) :
    (∀ source,
      (∀ error, (score.append source).1 = .error error ↔ compile source = .error error) ∧
      (∀ error, (score.append source).1 = .error error → (score.append source).2 = score) ∧
      ((score.append source).1 = .ok () →
        (score.append source).2 = score.onto (alone score.clock source) ∧
        compile source = .ok (alone (.start : Clock Float) source).text)) ∧
    ∀ sources, score.appendAll sources = score.appendAll (sources.filter compiles) := by
  refine ⟨fun source => ?_, fun sources => appendAll_filter score sources⟩
  rw [append_verdict]
  cases h : compile source with
  | error error =>
    rw [append_of_compile_error h]
    simp [Except.map]
  | ok text =>
    refine ⟨by simp [Except.map], by simp [Except.map], fun _ => ?_⟩
    exact ⟨append_eq_onto score source, by rw [alone_start h]⟩

def slowMiddle : List String :=
  ["Tempo 60\nCompas 2/4\nTonalidad Do M\nDo4 Blanca",
    "Tempo 10\nCompas 4/4\nTonalidad Do M\nRe4 Blanca",
    "Tempo 60\nCompas 2/4\nTonalidad Do M\nMi4 Blanca"]

theorem append_atomic_slowMiddle :
    (∃ error, ((new : Score Float).append slowMiddle[1]).1 = .error error ∧
      compile slowMiddle[1] = .error error) ∧
      ((new : Score Float).append slowMiddle[1]).2 = new ∧
      ((new : Score Float).append slowMiddle[0]).1 = .ok () ∧
      compile slowMiddle[0] = .ok (alone (.start : Clock Float) slowMiddle[0]).text ∧
      (new : Score Float).appendAll slowMiddle =
        (new : Score Float).appendAll [slowMiddle[0], slowMiddle[2]] := by
  obtain ⟨hone, hrun⟩ := append_atomic new
  have hkept : slowMiddle.filter compiles = [slowMiddle[0], slowMiddle[2]] := by
    decide +kernel
  obtain ⟨error, herror⟩ :=
    not_compiles_iff.mp (show compiles slowMiddle[1] = false by decide +kernel)
  have hrefused := ((hone slowMiddle[1]).1 error).mpr herror
  obtain ⟨text, htext⟩ := compiles_iff.mp (show compiles slowMiddle[0] = true by decide +kernel)
  have haccepted : ((new : Score Float).append slowMiddle[0]).1 = .ok () := by
    rw [append_verdict, htext]
    rfl
  refine ⟨⟨error, hrefused, herror⟩, (hone slowMiddle[1]).2.1 error hrefused, haccepted,
    ((hone slowMiddle[0]).2.2 haccepted).2, ?_⟩
  rw [hrun slowMiddle, hkept]

end Score
end Solfege
