import Solfege.Proofs.Spelling
import Solfege.Validation

/-!
# Solfege.Proofs.FirstViolation

What the check of a program decides, said without scopes and without an order of work.

* `Program.Valid`          — every kind once, every value in range, every note playable.
* `Program.FirstViolation` — the violation that comes first: declarations from the front, a
  repeated kind before a bad value; then notes from the front; then the kinds that are missing.

The check accepts the valid programs, and on any other it reports the first violation
(`check_verdict`). The scopes are a record of the kinds seen so far (`Records`): one declaration
keeps the record, so a whole row of them does.
-/

namespace Solfege

/-! ## Values -/

/-- The value of the declaration is allowed. -/
def Declaration.InRange : Declaration → Prop
  | .tempo bpm => 20 ≤ bpm ∧ bpm ≤ 200
  | .timeSignature numerator denominator =>
    (2 ≤ numerator ∧ numerator ≤ 12) ∧ denominator ∈ [2, 4, 8, 16]
  | .key root _ => Spelling root

/-- What is wrong with the value of a declaration; a numerator comes before its denominator. -/
inductive Declaration.Faulty : Declaration → ValueFault → Prop where
  | bpm {bpm : Int} : ¬ (20 ≤ bpm ∧ bpm ≤ 200) → Faulty (.tempo bpm) (.bpm bpm)
  | numerator {numerator denominator : Int} : ¬ (2 ≤ numerator ∧ numerator ≤ 12) →
      Faulty (.timeSignature numerator denominator) (.numerator numerator)
  | denominator {numerator denominator : Int} : 2 ≤ numerator ∧ numerator ≤ 12 →
      denominator ∉ [2, 4, 8, 16] →
      Faulty (.timeSignature numerator denominator) (.denominator denominator)
  | root {root : String} {mode : Mode} : ¬ Spelling root → Faulty (.key root mode) (.root root)

namespace Declaration

theorem inRange_or_faulty (declaration : Declaration) :
    declaration.InRange ∨ ∃ fault, declaration.Faulty fault := by
  cases declaration with
  | tempo bpm =>
    by_cases h : 20 ≤ bpm ∧ bpm ≤ 200
    · exact .inl h
    · exact .inr ⟨_, .bpm h⟩
  | timeSignature numerator denominator =>
    by_cases hn : 2 ≤ numerator ∧ numerator ≤ 12
    · by_cases hd : denominator ∈ [2, 4, 8, 16]
      · exact .inl ⟨hn, hd⟩
      · exact .inr ⟨_, .denominator hn hd⟩
    · exact .inr ⟨_, .numerator hn⟩
  | key root mode =>
    by_cases h : Spelling root
    · exact .inl h
    · exact .inr ⟨_, .root h⟩

theorem checkValue_of_inRange {declaration : Declaration} (h : declaration.InRange) :
    declaration.checkValue = .ok () := by
  cases declaration with
  | tempo bpm => exact if_pos h
  | timeSignature numerator denominator =>
    obtain ⟨⟨hlow, hhigh⟩, hd⟩ := h
    have hd' : denominator = 2 ∨ denominator = 4 ∨ denominator = 8 ∨ denominator = 16 := by
      simpa using hd
    rw [checkValue, if_neg (by omega), if_pos hd']
  | key root mode => exact if_pos (PitchClass.ofName?_isSome.mpr h)

theorem checkValue_of_faulty {declaration : Declaration} {fault : ValueFault}
    (h : declaration.Faulty fault) : declaration.checkValue = .error fault := by
  cases h with
  | bpm h => exact if_neg h
  | numerator h => exact if_pos (by omega)
  | denominator hn hd =>
    rw [checkValue, if_neg (by omega), if_neg (by simpa using hd)]
  | root h => exact if_neg fun hs => h (PitchClass.ofName?_isSome.mp hs)

end Declaration

namespace Note

/-- The note has a pitch, in an octave of the keyboard. -/
def Playable (note : Note) : Prop :=
  Spelling note.name ∧ 0 ≤ note.octave ∧ note.octave ≤ 8

/-- What is wrong with a note; its name comes before its octave. -/
inductive Faulty (note : Note) : NoteFault → Prop where
  | name : ¬ Spelling note.name → Faulty note (.name note)
  | octave : Spelling note.name → ¬ (0 ≤ note.octave ∧ note.octave ≤ 8) →
      Faulty note (.octave note)

theorem playable_or_faulty (note : Note) : note.Playable ∨ ∃ fault, note.Faulty fault := by
  by_cases hs : Spelling note.name
  · by_cases ho : 0 ≤ note.octave ∧ note.octave ≤ 8
    · exact .inl ⟨hs, ho⟩
    · exact .inr ⟨_, .octave hs ho⟩
  · exact .inr ⟨_, .name hs⟩

theorem check_of_playable {note : Note} (h : note.Playable) : note.check = .ok () := by
  rw [check, if_neg fun hn => PitchClass.ofName?_isNone.mp hn h.1, if_pos h.2]

theorem check_of_faulty {note : Note} {fault : NoteFault} (h : note.Faulty fault) :
    note.check = .error (.note fault) := by
  cases h with
  | name h => rw [check, if_pos (PitchClass.ofName?_isNone.mpr h)]
  | octave hs ho => rw [check, if_neg fun hn => PitchClass.ofName?_isNone.mp hn hs, if_neg ho]

end Note

/-! ## Programs -/

/-- No kind twice, and every value in range. -/
structure Clean (declarations : List Declaration) : Prop where
  nodup : (declarations.map Declaration.kind).Nodup
  inRange : ∀ d ∈ declarations, d.InRange

/-- The declaration is refused after the ones before it: for repeating a kind, whatever its
value, or else for its value. -/
inductive Refused (before : List Declaration) (declaration : Declaration) : Violation → Prop where
  | duplicate : declaration.kind ∈ before.map Declaration.kind →
      Refused before declaration (.duplicate declaration.kind)
  | value {fault : ValueFault} : declaration.kind ∉ before.map Declaration.kind →
      declaration.Faulty fault → Refused before declaration (.value fault)

namespace Program

structure Valid (program : Program) : Prop where
  once : ∀ kind, (program.declarations.map Declaration.kind).count kind = 1
  inRange : ∀ d ∈ program.declarations, d.InRange
  playable : ∀ n ∈ program.notes, n.Playable

inductive FirstViolation (program : Program) : Violation → Prop where
  | declaration {before after : List Declaration} {d : Declaration} {violation : Violation} :
      program.declarations = before ++ d :: after → Clean before → Refused before d violation →
      FirstViolation program violation
  | note {before after : List Note} {n : Note} {fault : NoteFault} :
      Clean program.declarations → program.notes = before ++ n :: after →
      (∀ m ∈ before, m.Playable) → n.Faulty fault → FirstViolation program (.note fault)
  | missing {earlier later : List Kind} {kind : Kind} :
      Clean program.declarations → (∀ n ∈ program.notes, n.Playable) →
      [.tempo, .timeSignature, .key] = earlier ++ kind :: later →
      (∀ k ∈ earlier, k ∈ program.declarations.map Declaration.kind) →
      kind ∉ program.declarations.map Declaration.kind → FirstViolation program (.missing kind)

end Program

theorem Clean.nil : Clean [] := ⟨List.nodup_nil, fun _ h => absurd h (List.not_mem_nil)⟩

theorem Clean.snoc {before : List Declaration} {d : Declaration} (h : Clean before)
    (hnew : d.kind ∉ before.map Declaration.kind) (hr : d.InRange) : Clean (before ++ [d]) := by
  constructor
  · rw [List.map_append, List.nodup_append]
    refine ⟨h.nodup, by simp, ?_⟩
    rintro a ha b hb rfl
    rw [List.map_singleton, List.mem_singleton] at hb
    exact hnew (hb ▸ ha)
  · intro e he
    rcases List.mem_append.mp he with he | he
    · exact h.inRange e he
    · rw [List.mem_singleton.mp he]; exact hr

/-- A clean row that goes on after `d` had no `d` before, and `d` in range. -/
theorem Clean.split {before after : List Declaration} {d : Declaration}
    (h : Clean (before ++ d :: after)) :
    d.kind ∉ before.map Declaration.kind ∧ d.InRange := by
  refine ⟨?_, h.inRange d (by simp)⟩
  intro hd
  have hnodup := h.nodup
  rw [List.map_append, List.nodup_append] at hnodup
  exact hnodup.2.2 d.kind hd d.kind (by simp) rfl

theorem Program.Valid.clean {program : Program} (h : program.Valid) :
    Clean program.declarations := by
  refine ⟨?_, h.inRange⟩
  rw [List.nodup_iff_count]
  intro kind
  exact Nat.le_of_eq (h.once kind)

/-! ## The declarations -/

/-- The innermost scope holds the sentinels of exactly these kinds. -/
def Records (scopes : Scopes) (kinds : List Kind) : Prop :=
  ∀ kind, scopes.isDeclared kind.sentinel = true ↔ kind ∈ kinds

theorem Kind.sentinel_injective {a b : Kind} (h : a.sentinel = b.sentinel) : a = b := by
  cases a <;> cases b <;> revert h <;> decide

theorem Scopes.isDeclared_declare (s : Scopes) (key other : String) :
    (s.declare key).2.isDeclared other = true ↔ other = key ∨ s.isDeclared other = true := by
  simp only [declare]
  split
  · rename_i h
    constructor
    · exact .inr
    · rintro (rfl | ho)
      · exact h
      · exact ho
  · simp [isDeclared]

theorem Records.enter (scopes : Scopes) : Records scopes.enter [] := by
  intro kind
  simp

theorem Records.declare {scopes : Scopes} {kinds : List Kind} (h : Records scopes kinds)
    (kind : Kind) : Records (scopes.declare kind.sentinel).2 (kinds ++ [kind]) := by
  intro other
  rw [Scopes.isDeclared_declare, h other, List.mem_append, List.mem_singleton]
  constructor
  · rintro (he | hk)
    · exact .inr (Kind.sentinel_injective he)
    · exact .inl hk
  · rintro (hk | rfl)
    · exact .inr hk
    · exact .inl rfl

section Declare

variable {scopes : Scopes} {before : List Declaration} {d : Declaration}

theorem Declaration.declare_of_inRange (hrec : Records scopes (before.map Declaration.kind))
    (hnew : d.kind ∉ before.map Declaration.kind) (hr : d.InRange) :
    d.declare scopes = (.ok (), (scopes.declare d.kind.sentinel).2) := by
  rw [declare, if_neg fun hd => hnew ((hrec d.kind).mp hd), checkValue_of_inRange hr]

theorem Declaration.declare_of_refused (hrec : Records scopes (before.map Declaration.kind))
    {violation : Violation} (h : Refused before d violation) :
    d.declare scopes = (.error violation, scopes) := by
  cases h with
  | duplicate hd => rw [declare, if_pos ((hrec d.kind).mpr hd)]
  | value hnew hf =>
    rw [declare, if_neg fun hd => hnew ((hrec d.kind).mp hd), checkValue_of_faulty hf]

end Declare

theorem declareAll_append_of_ok {first second : List Declaration} {scopes scopes' : Scopes}
    (h : declareAll first scopes = (.ok (), scopes')) :
    declareAll (first ++ second) scopes = declareAll second scopes' := by
  induction first generalizing scopes with
  | nil =>
    simp only [declareAll] at h
    cases h
    rfl
  | cons d rest ih =>
    simp only [declareAll, List.cons_append] at h ⊢
    split at h
    · cases h
    · exact ih h

/-- A clean row is accepted as a whole, and the record is kept along it. -/
theorem declareAll_of_clean {scopes : Scopes} (before : List Declaration) {ds : List Declaration}
    (hclean : Clean (before ++ ds)) (hrec : Records scopes (before.map Declaration.kind)) :
    ∃ scopes', declareAll ds scopes = (.ok (), scopes') ∧
      Records scopes' ((before ++ ds).map Declaration.kind) := by
  induction ds generalizing before scopes with
  | nil => exact ⟨scopes, rfl, by simpa using hrec⟩
  | cons d rest ih =>
    obtain ⟨hnew, hr⟩ := hclean.split
    have hrec' : Records (scopes.declare d.kind.sentinel).2
        ((before ++ [d]).map Declaration.kind) := by
      rw [List.map_append]; exact hrec.declare d.kind
    obtain ⟨scopes', hall, hrec''⟩ := ih (before ++ [d]) (by simpa using hclean) hrec'
    refine ⟨scopes', ?_, by simpa using hrec''⟩
    rw [declareAll, Declaration.declare_of_inRange hrec hnew hr]
    exact hall

theorem declareAll_of_refused {scopes : Scopes} {before : List Declaration} {d : Declaration}
    (after : List Declaration) {violation : Violation} (hrec : Records scopes [])
    (hclean : Clean before) (h : Refused before d violation) :
    (declareAll (before ++ d :: after) scopes).1 = .error violation := by
  obtain ⟨scopes', hall, hrec'⟩ := declareAll_of_clean [] hclean hrec
  rw [declareAll_append_of_ok hall, declareAll, Declaration.declare_of_refused hrec' h]

theorem clean_or_refused (declarations : List Declaration) :
    Clean declarations ∨ ∃ before d after violation, declarations = before ++ d :: after ∧
      Clean before ∧ Refused before d violation := by
  -- The row is cut at `before`, which is known to be clean, and the cut moves to the right.
  suffices h : ∀ before, Clean before → Clean (before ++ declarations) ∨
      ∃ first d after violation, before ++ declarations = first ++ d :: after ∧
        Clean first ∧ Refused first d violation from h [] .nil
  induction declarations with
  | nil => intro before hb; exact .inl (by simpa using hb)
  | cons d rest ih =>
    intro before hb
    by_cases hd : d.kind ∈ before.map Declaration.kind
    · exact .inr ⟨before, d, rest, _, rfl, hb, .duplicate hd⟩
    · rcases d.inRange_or_faulty with hr | ⟨fault, hf⟩
      · have := ih (before ++ [d]) (hb.snoc hd hr)
        simpa using this
      · exact .inr ⟨before, d, rest, _, rfl, hb, .value hd hf⟩

/-! ## The notes and the missing kinds -/

theorem checkNotes_of_playable {notes : List Note} (h : ∀ n ∈ notes, n.Playable) :
    checkNotes notes = .ok () := by
  induction notes with
  | nil => rfl
  | cons n rest ih =>
    rw [checkNotes, Note.check_of_playable (h n (by simp))]
    exact ih fun m hm => h m (by simp [hm])

theorem checkNotes_of_faulty {before after : List Note} {n : Note} {fault : NoteFault}
    (h : ∀ m ∈ before, m.Playable) (hf : n.Faulty fault) :
    checkNotes (before ++ n :: after) = .error (.note fault) := by
  induction before with
  | nil => rw [List.nil_append, checkNotes, Note.check_of_faulty hf]
  | cons m rest ih =>
    rw [List.cons_append, checkNotes, Note.check_of_playable (h m (by simp))]
    exact ih fun k hk => h k (by simp [hk])

theorem playable_or_faulty (notes : List Note) :
    (∀ n ∈ notes, n.Playable) ∨ ∃ before n after fault, notes = before ++ n :: after ∧
      (∀ m ∈ before, m.Playable) ∧ n.Faulty fault := by
  induction notes with
  | nil => exact .inl fun _ h => absurd h (List.not_mem_nil)
  | cons n rest ih =>
    rcases n.playable_or_faulty with hn | ⟨fault, hf⟩
    · rcases ih with hall | ⟨before, m, after, fault, rfl, hb, hf⟩
      · exact .inl (List.forall_mem_cons.mpr ⟨hn, hall⟩)
      · exact .inr ⟨n :: before, m, after, fault, rfl, List.forall_mem_cons.mpr ⟨hn, hb⟩, hf⟩
    · exact .inr ⟨[], n, rest, fault, rfl, fun _ h => absurd h (List.not_mem_nil), hf⟩

theorem checkMissing_of_all {scopes : Scopes} {kinds : List Kind} (hrec : Records scopes kinds)
    (h : ∀ kind, kind ∈ kinds) : checkMissing scopes = .ok () := by
  have hnone : Kind.all.find? (fun kind => !scopes.isDeclared kind.sentinel) = none := by
    rw [List.find?_eq_none]
    intro kind _
    simp [(hrec kind).mpr (h kind)]
  rw [checkMissing, hnone]

theorem checkMissing_of_absent {scopes : Scopes} {kinds earlier later : List Kind} {kind : Kind}
    (hrec : Records scopes kinds) (hall : Kind.all = earlier ++ kind :: later)
    (hearlier : ∀ k ∈ earlier, k ∈ kinds) (hkind : kind ∉ kinds) :
    checkMissing scopes = .error (.missing kind) := by
  have hsome : Kind.all.find? (fun kind => !scopes.isDeclared kind.sentinel) = some kind := by
    rw [List.find?_eq_some_iff_append]
    refine ⟨by simpa using fun hd => hkind ((hrec kind).mp hd), earlier, later, hall, ?_⟩
    intro k hk
    simp [(hrec k).mpr (hearlier k hk)]
  rw [checkMissing, hsome]

theorem all_or_absent (kinds : List Kind) :
    (∀ kind, kind ∈ kinds) ∨ ∃ earlier kind later,
      [Kind.tempo, .timeSignature, .key] = earlier ++ kind :: later ∧
        (∀ k ∈ earlier, k ∈ kinds) ∧ kind ∉ kinds := by
  by_cases ht : Kind.tempo ∈ kinds
  · by_cases hs : Kind.timeSignature ∈ kinds
    · by_cases hk : Kind.key ∈ kinds
      · exact .inl fun kind => by cases kind <;> assumption
      · exact .inr ⟨[.tempo, .timeSignature], .key, [], rfl, by simp [ht, hs], hk⟩
    · exact .inr ⟨[.tempo], .timeSignature, [.key], rfl, by simp [ht], hs⟩
  · exact .inr ⟨[], .tempo, [.timeSignature, .key], rfl, by simp, ht⟩

/-! ## The verdict -/

namespace Program

theorem check_eq_checkHere (program : Program) :
    program.check = (program.checkHere Scopes.new.enter).1 := rfl

/-- A program with clean declarations comes as far as its notes. -/
theorem check_of_clean {program : Program} (h : Clean program.declarations) :
    ∃ scopes, Records scopes (program.declarations.map Declaration.kind) ∧
      program.check = match checkNotes program.notes with
        | .error violation => .error violation
        | .ok () => checkMissing scopes := by
  obtain ⟨scopes, hall, hrec⟩ := declareAll_of_clean [] h (Records.enter .new)
  refine ⟨scopes, hrec, ?_⟩
  simp only [check_eq_checkHere, checkHere, hall]
  cases checkNotes program.notes <;> rfl

theorem check_of_valid {program : Program} (h : program.Valid) : program.check = .ok () := by
  obtain ⟨scopes, hrec, hcheck⟩ := check_of_clean h.clean
  have hall : ∀ kind, kind ∈ program.declarations.map Declaration.kind := by
    intro kind
    rw [← List.count_pos_iff, h.once kind]
    exact Nat.one_pos
  rw [hcheck, checkNotes_of_playable h.playable]
  exact checkMissing_of_all hrec hall

theorem check_of_firstViolation {program : Program} {violation : Violation}
    (h : program.FirstViolation violation) : program.check = .error violation := by
  cases h with
  | @declaration before after d _ hds hclean hd =>
    have hfst := declareAll_of_refused after (Records.enter .new) hclean hd
    simp only [check_eq_checkHere, checkHere, hds]
    split
    · rename_i heq
      rw [heq] at hfst
      exact hfst
    · rename_i heq
      rw [heq] at hfst
      cases hfst
  | note hclean hns hb hf =>
    obtain ⟨scopes, _, hcheck⟩ := check_of_clean hclean
    rw [hcheck, hns, checkNotes_of_faulty hb hf]
  | missing hclean hns hall hearlier hkind =>
    obtain ⟨scopes, hrec, hcheck⟩ := check_of_clean hclean
    rw [hcheck, checkNotes_of_playable hns]
    exact checkMissing_of_absent hrec hall hearlier hkind

theorem valid_or_firstViolation (program : Program) :
    program.Valid ∨ ∃ violation, program.FirstViolation violation := by
  rcases clean_or_refused program.declarations with
    hclean | ⟨before, d, after, violation, hds, hclean, hd⟩
  · rcases playable_or_faulty program.notes with
      hns | ⟨before, n, after, fault, hns, hb, hf⟩
    · rcases all_or_absent (program.declarations.map Declaration.kind) with
        hall | ⟨earlier, kind, later, hall, hearlier, hkind⟩
      · left
        refine ⟨fun kind => ?_, hclean.inRange, hns⟩
        rw [hclean.nodup.count, if_pos (hall kind)]
      · exact .inr ⟨_, .missing hclean hns hall hearlier hkind⟩
    · exact .inr ⟨_, .note hclean hns hb hf⟩
  · exact .inr ⟨_, .declaration hds hclean hd⟩

theorem valid_of_check {program : Program} (h : program.check = .ok ()) : program.Valid := by
  rcases program.valid_or_firstViolation with hv | ⟨violation, hf⟩
  · exact hv
  · rw [check_of_firstViolation hf] at h
    cases h

theorem firstViolation_of_check {program : Program} {violation : Violation}
    (h : program.check = .error violation) : program.FirstViolation violation := by
  rcases program.valid_or_firstViolation with hv | ⟨first, hf⟩
  · rw [check_of_valid hv] at h
    cases h
  · rw [check_of_firstViolation hf] at h
    cases h
    exact hf

/-- The check accepts exactly the valid programs, and refuses any other with its first
violation. -/
theorem check_verdict (program : Program) :
    (program.check = .ok () ↔ program.Valid) ∧
      ∀ violation, program.check = .error violation ↔ program.FirstViolation violation :=
  ⟨⟨valid_of_check, check_of_valid⟩,
    fun _ => ⟨firstViolation_of_check, check_of_firstViolation⟩⟩

end Program
end Solfege
