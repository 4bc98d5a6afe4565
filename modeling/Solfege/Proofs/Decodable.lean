import Mathlib.Data.List.Forall2
import Solfege.Proofs.FirstViolation
import Solfege.Proofs.LexForms
import Solfege.Proofs.Written

/-!
# Solfege.Proofs.Decodable

The text in ABC notation keeps everything of a valid program but how its pitches are spelled.

Two programs are alike if they agree, declaration by declaration and note by note, up to the pitch
class of each name. Programs that are alike have one text (`toAbc_of_alike`). For the converse the
text is taken apart from the left: a line ends at its break, a note at its blank, and within a note
the accidental, the letter, the octave marks and the length can be told apart.

* `declarationText_inj` — the lines of a declaration give the declaration.
* `note_inj`            — a note gives pitch class, octave and length.
* `bodySegments_inj`    — bars need not be recognised: once the header and the notes up to a point
  are known, so is the clock, and with it whether a bar comes next.
-/

namespace Solfege

/-- The declarations agree, the root of a key as a pitch class. -/
inductive Declaration.Alike : Declaration → Declaration → Prop where
  | tempo (bpm : Int) : Alike (.tempo bpm) (.tempo bpm)
  | timeSignature (numerator denominator : Int) :
      Alike (.timeSignature numerator denominator) (.timeSignature numerator denominator)
  | key {root root' : String} (mode : Mode) :
      PitchClass.ofName? root = PitchClass.ofName? root' → Alike (.key root mode) (.key root' mode)

/-- The notes agree, the name as a pitch class. -/
structure Note.Alike (n m : Note) : Prop where
  pitch : PitchClass.ofName? n.name = PitchClass.ofName? m.name
  octave : n.octave = m.octave
  duration : n.duration = m.duration

structure Program.Alike (p q : Program) : Prop where
  declarations : List.Forall₂ Declaration.Alike p.declarations q.declarations
  notes : List.Forall₂ Note.Alike p.notes q.notes

/-! ## Taking texts apart -/

/-- What stands before the first separator, and after it. -/
theorem append_separator_inj {separator : Char} {a b r s : List Char} (ha : separator ∉ a)
    (hb : separator ∉ b) (h : a ++ separator :: r = b ++ separator :: s) : a = b ∧ r = s := by
  induction a generalizing b with
  | nil =>
    cases b with
    | nil => exact ⟨rfl, (List.cons.inj h).2⟩
    | cons c b => exact absurd (List.cons.inj h).1 (by rintro rfl; simp at hb)
  | cons c a ih =>
    cases b with
    | nil => exact absurd (List.cons.inj h).1 (by rintro rfl; simp at ha)
    | cons c' b =>
      obtain ⟨rfl, hrest⟩ := List.cons.inj h
      obtain ⟨rfl, rfl⟩ := ih (List.not_mem_of_not_mem_cons ha) (List.not_mem_of_not_mem_cons hb)
        hrest
      exact ⟨rfl, rfl⟩

/-- A run of one character ends where another one stands. -/
theorem replicate_append_inj {c : Char} {k l : Nat} {r s : List Char} (hr : c ∉ r) (hs : c ∉ s)
    (h : List.replicate k c ++ r = List.replicate l c ++ s) : k = l ∧ r = s := by
  have hcount := congrArg (List.count c) h
  rw [List.count_append, List.count_append, List.count_replicate_self, List.count_replicate_self,
    List.count_eq_zero_of_not_mem hr, List.count_eq_zero_of_not_mem hs] at hcount
  have hkl : k = l := hcount
  subst hkl
  exact ⟨rfl, List.append_cancel_left h⟩

theorem toList_repr_negSucc (n : Nat) :
    (Int.negSucc n).repr.toList = '-' :: (n + 1).repr.toList := by
  simp [Int.repr]

theorem not_mem_repr {c : Char} (hdigit : c.isDigit = false) (hminus : c ≠ '-') (z : Int) :
    c ∉ z.repr.toList := by
  intro h
  cases z with
  | ofNat n =>
    have hmem : c ∈ n.repr.toList := h
    rw [isDigit_of_mem_repr hmem] at hdigit
    cases hdigit
  | negSucc n =>
    rw [toList_repr_negSucc] at h
    rcases List.mem_cons.mp h with hc | hc
    · exact hminus hc
    · rw [isDigit_of_mem_repr hc] at hdigit
      cases hdigit

theorem natRepr_inj {m n : Nat} (h : m.repr.toList = n.repr.toList) : m = n := by
  rw [Nat.toList_repr, Nat.toList_repr] at h
  rw [← @Nat.ofDigitChars_ten_toDigits m, h, Nat.ofDigitChars_ten_toDigits]

/-- A number is told by its sign and its digits. -/
theorem intRepr_inj {z w : Int} (h : z.repr.toList = w.repr.toList) : z = w := by
  have hsign : ∀ n : Nat, '-' ∉ n.repr.toList := fun n hn => by
    cases isDigit_of_mem_repr hn
  cases z with
  | ofNat m =>
    cases w with
    | ofNat n => rw [natRepr_inj h]
    | negSucc n =>
      rw [toList_repr_negSucc] at h
      exact absurd (h ▸ List.mem_cons_self ..) (hsign m)
  | negSucc m =>
    rw [toList_repr_negSucc] at h
    cases w with
    | ofNat n => exact absurd (h ▸ List.mem_cons_self ..) (hsign n)
    | negSucc n =>
      rw [toList_repr_negSucc] at h
      rw [Nat.succ.inj (natRepr_inj (List.cons.inj h).2)]

theorem Spelling.pitch {name : String} (h : Spelling name) :
    ∃ step accidental, PitchClass.ofName? name = some ⟨step, accidental⟩ := by
  obtain ⟨⟨step, accidental⟩, hpitch⟩ :=
    Option.isSome_iff_exists.mp (PitchClass.ofName?_isSome.mpr h)
  exact ⟨step, accidental, hpitch⟩

namespace Abc

/-! ## Declarations -/

theorem letter_inj {s t : Step} (h : s.letter = t.letter) : s = t := by
  cases s <;> cases t <;> revert h <;> decide

/-- After the letter of a key, an accidental and a mode. -/
theorem keyEnding_inj {a b : Accidental} {m m' : Mode}
    (h : (keyAccidental a).toList ++ (modeName m).toList =
      (keyAccidental b).toList ++ (modeName m').toList) : a = b ∧ m = m' := by
  cases a <;> cases b <;> cases m <;> cases m' <;> revert h <;> decide

theorem toList_key {root : String} {pitch : PitchClass} (h : PitchClass.ofName? root = some pitch)
    (mode : Mode) :
    (key root mode).toList = pitch.step.letter ::
      ((keyAccidental pitch.accidental).toList ++ (modeName mode).toList) := by
  simp [key, h]

theorem key_inj {root root' : String} {mode mode' : Mode} (hroot : Spelling root)
    (hroot' : Spelling root')
    (h : (key root mode).toList = (key root' mode').toList) :
    PitchClass.ofName? root = PitchClass.ofName? root' ∧ mode = mode' := by
  obtain ⟨step, accidental, hp⟩ := hroot.pitch
  obtain ⟨step', accidental', hp'⟩ := hroot'.pitch
  rw [toList_key hp, toList_key hp'] at h
  obtain ⟨hletter, hending⟩ := List.cons.inj h
  obtain ⟨haccidental, hmode⟩ := keyEnding_inj hending
  have hstep : step = step' := letter_inj hletter
  have hacc : accidental = accidental' := haccidental
  rw [hp, hp', hstep, hacc]
  exact ⟨rfl, hmode⟩

theorem newline_not_mem_key {root : String} (hroot : Spelling root) (mode : Mode) :
    '\n' ∉ (key root mode).toList := by
  obtain ⟨step, accidental, hp⟩ := hroot.pitch
  rw [toList_key hp]
  cases step <;> cases accidental <;> cases mode <;> decide

theorem toList_declarationText (d : Declaration) :
    (declarationText d).toList = match d with
      | .tempo bpm => "Q:1/4=".toList ++ (bpm.repr.toList ++ ['\n'])
      | .timeSignature numerator denominator =>
        "M:".toList ++ (numerator.repr.toList ++ '/' :: (denominator.repr.toList ++
          '\n' :: "L:1/8\n".toList))
      | .key root mode => "K:".toList ++ ((key root mode).toList ++ ['\n']) := by
  cases d <;> simp [declarationText]

theorem declarationText_inj {d d' : Declaration} (hd : d.InRange) (hd' : d'.InRange)
    {r r' : List Char}
    (h : (declarationText d).toList ++ r = (declarationText d').toList ++ r') :
    d.Alike d' ∧ r = r' := by
  have hbreak := not_mem_repr (c := '\n') rfl (by decide)
  have hslash := not_mem_repr (c := '/') rfl (by decide)
  rw [toList_declarationText, toList_declarationText] at h
  cases d with
  | tempo bpm =>
    cases d' with
    | tempo bpm' =>
      simp only [List.append_assoc, List.cons_append, List.nil_append] at h
      obtain ⟨hbpm, rfl⟩ :=
        append_separator_inj (hbreak bpm) (hbreak bpm') (List.append_cancel_left h)
      cases intRepr_inj hbpm
      exact ⟨.tempo bpm, rfl⟩
    | timeSignature numerator' denominator' => simp at h
    | key root' mode' => simp at h
  | timeSignature numerator denominator =>
    cases d' with
    | tempo bpm' => simp at h
    | timeSignature numerator' denominator' =>
      simp only [List.append_assoc, List.cons_append] at h
      obtain ⟨hnum, hafter⟩ := append_separator_inj (hslash numerator) (hslash numerator')
        (List.append_cancel_left h)
      obtain ⟨hden, hlast⟩ :=
        append_separator_inj (hbreak denominator) (hbreak denominator') hafter
      cases intRepr_inj hnum
      cases intRepr_inj hden
      exact ⟨.timeSignature numerator denominator, List.append_cancel_left hlast⟩
    | key root' mode' => simp at h
  | key root mode =>
    cases d' with
    | tempo bpm' => simp at h
    | timeSignature numerator' denominator' => simp at h
    | key root' mode' =>
      simp only [List.append_assoc, List.cons_append, List.nil_append] at h
      obtain ⟨hkey, rfl⟩ := append_separator_inj (newline_not_mem_key hd mode)
        (newline_not_mem_key hd' mode') (List.append_cancel_left h)
      obtain ⟨hroot, rfl⟩ := key_inj hd hd' hkey
      exact ⟨.key mode hroot, rfl⟩

theorem declarationTexts_inj {ds ds' : List Declaration} (hlen : ds.length = ds'.length)
    (hds : ∀ d ∈ ds, d.InRange) (hds' : ∀ d ∈ ds', d.InRange) {r r' : List Char}
    (h : (String.join (ds.map declarationText)).toList ++ r =
      (String.join (ds'.map declarationText)).toList ++ r') :
    List.Forall₂ Declaration.Alike ds ds' ∧ r = r' := by
  induction ds generalizing ds' with
  | nil =>
    cases ds' with
    | nil => exact ⟨.nil, h⟩
    | cons d' rest' => cases hlen
  | cons d rest ih =>
    cases ds' with
    | nil => cases hlen
    | cons d' rest' =>
      simp only [List.map_cons, String.join_cons, String.toList_append, List.append_assoc] at h
      obtain ⟨halike, h⟩ := declarationText_inj (hds d (by simp)) (hds' d' (by simp)) h
      obtain ⟨hrest, rfl⟩ := ih (Nat.succ.inj hlen) (fun e he => hds e (by simp [he]))
        (fun e he => hds' e (by simp [he])) h
      exact ⟨.cons halike hrest, rfl⟩

/-! ## Notes -/

/-- A letter, small or capital. -/
def casedLetter (small : Bool) (step : Step) : Char :=
  if small then step.letter.toLower else step.letter

/-- The octave marks, apart from the letter. -/
def octaveMarks (octave : Int) : List Char :=
  if 5 ≤ octave then List.replicate (octave - 5).toNat '\''
  else List.replicate (4 - octave).toNat ','

theorem toList_note {n : Note} {pitch : PitchClass} (h : PitchClass.ofName? n.name = some pitch) :
    (note n).toList = noteAccidental pitch.accidental ++
      casedLetter (decide (5 ≤ n.octave)) pitch.step ::
        (octaveMarks n.octave ++ length n.duration) := by
  simp only [note, h, pitched, casedLetter, octaveMarks, String.toList_ofList, decide_eq_true_iff]
  split <;> simp

theorem casedLetter_inj {small small' : Bool} {s t : Step}
    (h : casedLetter small s = casedLetter small' t) : small = small' ∧ s = t := by
  cases small <;> cases small' <;> cases s <;> cases t <;> revert h <;> decide

theorem accidental_not_casedLetter (small : Bool) (step : Step) :
    casedLetter small step ≠ '^' ∧ casedLetter small step ≠ '_' := by
  cases small <;> cases step <;> decide

theorem noteAccidental_inj {a b : Accidental} {c c' : Char} {r r' : List Char}
    (hc : c ≠ '^' ∧ c ≠ '_') (hc' : c' ≠ '^' ∧ c' ≠ '_')
    (h : noteAccidental a ++ c :: r = noteAccidental b ++ c' :: r') :
    a = b ∧ c = c' ∧ r = r' := by
  cases a <;> cases b <;> grind [noteAccidental]

theorem length_inj {d d' : Duration} (h : length d = length d') : d = d' := by
  cases d <;> cases d' <;> revert h <;> decide

theorem mark_not_mem_length (d : Duration) : '\'' ∉ length d ∧ ',' ∉ length d := by
  cases d <;> decide

/-- On one side of the line between capitals and small letters, the number of marks is the
octave. -/
theorem octaveMarks_inj {i j : Int} (hside : 5 ≤ i ↔ 5 ≤ j) {d d' : Duration}
    (h : octaveMarks i ++ length d = octaveMarks j ++ length d') : i = j ∧ d = d' := by
  obtain ⟨hhigh, hlow⟩ := mark_not_mem_length d
  obtain ⟨hhigh', hlow'⟩ := mark_not_mem_length d'
  by_cases hi : 5 ≤ i
  · have hj := hside.mp hi
    rw [octaveMarks, octaveMarks, if_pos hi, if_pos hj] at h
    obtain ⟨hcount, hlength⟩ := replicate_append_inj hhigh hhigh' h
    exact ⟨by omega, length_inj hlength⟩
  · have hj : ¬ 5 ≤ j := fun hj => hi (hside.mpr hj)
    rw [octaveMarks, octaveMarks, if_neg hi, if_neg hj] at h
    obtain ⟨hcount, hlength⟩ := replicate_append_inj hlow hlow' h
    exact ⟨by omega, length_inj hlength⟩

theorem note_inj {n m : Note} (hn : n.Playable) (hm : m.Playable)
    (h : (note n).toList = (note m).toList) : n.Alike m := by
  obtain ⟨step, accidental, hp⟩ := hn.1.pitch
  obtain ⟨step', accidental', hp'⟩ := hm.1.pitch
  rw [toList_note hp, toList_note hp'] at h
  obtain ⟨haccidental, hletter, hrest⟩ := noteAccidental_inj
    (accidental_not_casedLetter _ step) (accidental_not_casedLetter _ step') h
  obtain ⟨hsmall, hstep⟩ := casedLetter_inj hletter
  obtain ⟨hoctave, hduration⟩ := octaveMarks_inj (decide_eq_decide.mp hsmall) hrest
  refine ⟨?_, hoctave, hduration⟩
  have hpitch : (⟨step, accidental⟩ : PitchClass) = ⟨step', accidental'⟩ :=
    congrArg₂ PitchClass.mk hstep haccidental
  rw [hp, hp', hpitch]

/-- The characters that notes are written with. -/
def noteCharacters : List Char :=
  "^_ABCDEFGabcdefg',/24".toList

theorem mem_noteCharacters {n : Note} (hn : n.Playable) {c : Char} (h : c ∈ (note n).toList) :
    c ∈ noteCharacters := by
  obtain ⟨step, accidental, hp⟩ := hn.1.pitch
  have haccidental : noteAccidental accidental ⊆ noteCharacters := by cases accidental <;> decide
  have hletter : ∀ small, casedLetter small step ∈ noteCharacters := by
    intro small
    cases small <;> cases step <;> decide
  have hmarks : octaveMarks n.octave ⊆ noteCharacters := by
    rw [octaveMarks]
    split <;> exact List.replicate_subset.mpr (.inr (by decide))
  have hlength : length n.duration ⊆ noteCharacters := by cases n.duration <;> decide
  rw [toList_note hp, List.mem_append, List.mem_cons, List.mem_append] at h
  rcases h with h | rfl | h | h
  · exact haccidental h
  · exact hletter _
  · exact hmarks h
  · exact hlength h

theorem blank_not_mem_note {n : Note} (hn : n.Playable) : ' ' ∉ (note n).toList :=
  fun h => absurd (mem_noteCharacters hn h) (by decide)

section Body

variable {β : Type} [Beat β]

theorem bodySegments_inj (grid : Option (Grid β)) (clock : Clock β) {ns ms : List Note}
    (hns : ∀ n ∈ ns, n.Playable) (hms : ∀ m ∈ ms, m.Playable)
    (h : (textOf (bodySegments grid clock ns)).toList =
      (textOf (bodySegments grid clock ms)).toList) :
    List.Forall₂ Note.Alike ns ms := by
  induction ns generalizing ms clock with
  | nil =>
    cases ms with
    | nil => exact .nil
    | cons m rest' =>
      rw [textOf_bodySegments_cons] at h
      simp [bodySegments, textOf] at h
  | cons n rest ih =>
    cases ms with
    | nil =>
      rw [textOf_bodySegments_cons] at h
      simp [bodySegments, textOf] at h
    | cons m rest' =>
      have hn := hns n (by simp)
      have hm := hms m (by simp)
      rw [textOf_bodySegments_cons, textOf_bodySegments_cons] at h
      simp only [String.toList_append, List.append_assoc] at h
      obtain ⟨htoken, h⟩ :=
        append_separator_inj (blank_not_mem_note hn) (blank_not_mem_note hm) h
      have halike := note_inj hn hm htoken
      -- The two notes are equally long, so the clocks stay together and so do the bars.
      rw [halike.duration] at h
      refine .cons halike (ih (clock.advance m.duration) (fun k hk => hns k (by simp [hk]))
        (fun k hk => hms k (by simp [hk])) (List.append_cancel_left h))

/-! ## Programs -/

theorem note_of_alike {n m : Note} (h : n.Alike m) : note n = note m := by
  simp only [note, h.pitch, h.octave, h.duration]

theorem bodySegments_of_alike (grid : Option (Grid β)) (clock : Clock β) {ns ms : List Note}
    (h : List.Forall₂ Note.Alike ns ms) :
    bodySegments grid clock ns = bodySegments grid clock ms := by
  induction h generalizing clock with
  | nil => rfl
  | cons halike _ ih =>
    simp only [bodySegments, noteSegments, note_of_alike halike, halike.duration, ih]

/-- A root that names a pitch is written as that pitch. -/
theorem declarationSegment_of_alike (bars : Bars β) (clock : Clock β) {d d' : Declaration}
    (hd : d.InRange) (h : d.Alike d') :
    declarationSegment bars clock d = declarationSegment bars clock d' := by
  cases h with
  | tempo bpm => rfl
  | timeSignature numerator denominator => rfl
  | @key root root' mode hroot =>
    obtain ⟨step, accidental, hpitch⟩ := Spelling.pitch hd
    have hpitch' := hroot.symm.trans hpitch
    simp only [declarationSegment, key, hpitch, hpitch']

theorem header_of_alike (bars : Bars β) (clock : Clock β) {ds ds' : List Declaration}
    (hds : ∀ d ∈ ds, d.InRange) (h : List.Forall₂ Declaration.Alike ds ds') :
    headerSegments bars clock ds = headerSegments bars clock ds' ∧
      headerClock bars clock ds = headerClock bars clock ds' := by
  induction h generalizing clock with
  | nil => exact ⟨rfl, rfl⟩
  | cons halike _ ih =>
    have hsegment := declarationSegment_of_alike bars clock (hds _ (by simp)) halike
    obtain ⟨hsegments, hclock⟩ := ih (declarationSegment bars clock _).clock
      fun d hd => hds d (by simp [hd])
    simp only [headerSegments, headerClock, ← hsegment]
    exact ⟨by rw [hsegments], hclock⟩

end Body
end Abc

namespace Program

theorem Valid.kinds_perm {program : Program} (h : program.Valid) :
    (program.declarations.map Declaration.kind).Perm Kind.all := by
  rw [List.perm_iff_count]
  intro kind
  rw [h.once]
  cases kind <;> rfl

theorem Valid.length_declarations {program : Program} (h : program.Valid) :
    program.declarations.length = 3 := by
  simpa [Kind.all] using h.kinds_perm.length_eq

theorem toAbc_of_alike {p q : Program} (hp : p.Valid) (hmetadata : p.metadata = q.metadata)
    (h : p.Alike q) : p.toAbc = q.toAbc := by
  obtain ⟨hsegments, hclock⟩ := Abc.header_of_alike
    (Abc.Options.ofMetadata q.metadata : Abc.Options Float).bars .start hp.inRange h.declarations
  have hbody := fun (grid : Option (Grid Float)) clock =>
    Abc.bodySegments_of_alike grid clock h.notes
  simp only [toAbc, Abc.emission, Abc.emit_text, hmetadata]
  rw [hclock, hbody, Abc.headerText, Abc.headerText,
    ← Abc.textOf_headerSegments (Abc.Options.ofMetadata q.metadata : Abc.Options Float).bars .start,
    hsegments, Abc.textOf_headerSegments]

theorem alike_of_toAbc {p q : Program} (hp : p.Valid) (hq : q.Valid)
    (hmetadata : p.metadata = q.metadata) (h : p.toAbc = q.toAbc) : p.Alike q := by
  simp only [toAbc, Abc.emission, Abc.emit_text, hmetadata, Abc.headerText] at h
  have hlist := congrArg String.toList h
  simp only [String.toList_append, List.append_assoc, List.append_cancel_left_eq] at hlist
  have hlen : p.declarations.length = q.declarations.length :=
    hp.length_declarations.trans hq.length_declarations.symm
  obtain ⟨hdeclarations, hbody⟩ :=
    Abc.declarationTexts_inj hlen hp.inRange hq.inRange hlist
  refine ⟨hdeclarations, ?_⟩
  have hclock := (Abc.header_of_alike
    (Abc.Options.ofMetadata q.metadata : Abc.Options Float).bars .start hp.inRange
    hdeclarations).2
  rw [hclock] at hbody
  exact Abc.bodySegments_inj _ _ hp.playable hq.playable (List.append_cancel_right hbody)

/-- Valid programs with the same metadata have the same text exactly if they are alike: as many
declarations and notes, each the same in its place up to the spelling of its pitch. -/
theorem toAbc_eq_iff_alike {p q : Program} (hp : p.check = .ok ()) (hq : q.check = .ok ())
    (hmetadata : p.metadata = q.metadata) : p.toAbc = q.toAbc ↔ p.Alike q :=
  ⟨alike_of_toAbc (valid_of_check hp) (valid_of_check hq) hmetadata,
    toAbc_of_alike (valid_of_check hp) hmetadata⟩

/-- A measure in solfège names. -/
def inSolfege : Program :=
  { declarations := [.tempo 90, .key "Sib" .minor, .timeSignature 2 4]
    notes := [⟨"Do#", 5, .quarter⟩, ⟨"Sib", 3, .quarter⟩] }

/-- The same in letters. -/
def inLetters : Program :=
  { declarations := [.tempo 90, .key "Bb" .minor, .timeSignature 2 4]
    notes := [⟨"C#", 5, .quarter⟩, ⟨"Bb", 3, .quarter⟩] }

theorem toAbc_inSolfege :
    inSolfege.check = .ok () ∧ inLetters.check = .ok () ∧
      inSolfege.metadata = inLetters.metadata ∧ inSolfege ≠ inLetters ∧
      inSolfege.toAbc = inLetters.toAbc := by
  have hsolfege : inSolfege.check = .ok () := by rfl
  have hletters : inLetters.check = .ok () := by rfl
  refine ⟨hsolfege, hletters, rfl, by decide, ?_⟩
  rw [toAbc_eq_iff_alike hsolfege hletters rfl]
  refine ⟨.cons (.tempo 90) (.cons (.key .minor ?_) (.cons (.timeSignature 2 4) .nil)),
    .cons ⟨?_, rfl, rfl⟩ (.cons ⟨?_, rfl, rfl⟩ .nil)⟩
  all_goals decide

end Program
end Solfege
