import Solfege.Pitch

/-!
# Solfege.Proofs.Spelling

Which texts name a pitch. `PitchClass.ofName?` strips an accidental from the end of a text and
looks the rest up; `Spelling` builds the texts from the front, a step name and then an accidental.
`ofName?_isSome` says that the two agree on every text.
-/

namespace Solfege

/-- The names of the seven steps, in solfège and as letters. -/
def stepNames : List String :=
  ["Do", "Re", "Mi", "Fa", "Sol", "La", "Si", "C", "D", "E", "F", "G", "A", "B"]

/-- The text is a step name followed by nothing, by `#` or by `b`. -/
def Spelling (text : String) : Prop :=
  ∃ base ∈ stepNames, ∃ accidental ∈ ["", "#", "b"], text = base ++ accidental

theorem Step.mem_stepNames {base : List Char} (h : (Step.ofName? base).isSome = true) :
    String.ofList base ∈ stepNames := by
  unfold Step.ofName? at h
  repeat' split at h
  rotate_right
  · cases h
  all_goals
    rename_i hb
    rcases hb with rfl | rfl <;> decide

/-- Nothing is lost by taking the accidental off. -/
theorem PitchClass.divide_append (name : List Char) :
    ∃ accidental ∈ ["", "#", "b"], name = (divide name).1 ++ String.toList accidental := by
  unfold divide
  split
  · rename_i h
    obtain ⟨base, rfl⟩ := List.getLast?_eq_some_iff.mp h
    exact ⟨"#", by decide, by simp⟩
  · split
    · rename_i _ h
      obtain ⟨base, rfl⟩ := List.getLast?_eq_some_iff.mp h
      exact ⟨"b", by decide, by simp⟩
    · exact ⟨"", by decide, (List.append_nil name).symm⟩

theorem PitchClass.ofName?_isSome_of_spelling :
    ∀ base ∈ stepNames, ∀ accidental ∈ ["", "#", "b"],
      (ofName? (base ++ accidental)).isSome = true := by
  decide

/-- A text is read as a pitch exactly if it is a spelling. -/
theorem PitchClass.ofName?_isSome {name : String} :
    (ofName? name).isSome = true ↔ Spelling name := by
  constructor
  · intro h
    have hbase : String.ofList (divide name.toList).1 ∈ stepNames :=
      Step.mem_stepNames (by simpa [ofName?] using h)
    obtain ⟨accidental, hmem, hname⟩ := divide_append name.toList
    refine ⟨_, hbase, accidental, hmem, ?_⟩
    apply String.toList_injective
    simpa using hname
  · rintro ⟨base, hbase, accidental, hacc, rfl⟩
    exact ofName?_isSome_of_spelling base hbase accidental hacc

theorem PitchClass.ofName?_isNone {name : String} :
    (ofName? name).isNone = true ↔ ¬ Spelling name := by
  rw [← ofName?_isSome]
  simp

end Solfege
