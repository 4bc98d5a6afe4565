import Solfege.Proofs.FirstViolation
import Solfege.Proofs.InPlace
import Solfege.Proofs.Inscription
import Solfege.Proofs.LineEndings

/-!
# Solfege.Proofs.Saturation

A number that is too large is refused and never taken for a small one.

The lexer stops counting at the largest number of 32 bits and the reader of a line at the largest
32-bit integer. Both are far above what any setting and any octave allows, so whether a number is in
range can be told from its digits, however many there are.

* `number_of_mem_lex`  — every number of a text is read from the digits that stand there.
* `parse_inscribed`    — a program is what is stored for the lines in writing.
* `compiles_inscribed` — with every setting once and names that exist, a source compiles exactly if
  the numbers in writing are in range.
-/

namespace Solfege

/-! ## Numbers in a text -/

theorem lex_digits (digits : Digits) :
    lex digits.run = .ok [⟨.number (min digits.value 4294967295), digits.run, .start⟩] := by
  have hnext := @Digits.next?_run digits [] rfl
  rw [List.append_nil] at hnext
  have hpieces := pieces_of_next? hnext
  rw [pieces_nil] at hpieces
  rw [lex_of_pieces (by rw [hpieces]), hpieces]
  rfl

theorem number_of_mem_lex {text : List Char} {lexemes : List Lexeme} (h : lex text = .ok lexemes)
    {lexeme : Lexeme} (hmem : lexeme ∈ lexemes)
    (hdigit : lexeme.source.head?.any Char.isDigit = true) :
    ∃ digits : Digits, lexeme.source = digits.run ∧
      lexeme.token = .number (min digits.value 4294967295) := by
  obtain ⟨_, rfl⟩ := pieces_of_lex h
  obtain ⟨before, after, _, _, hstands⟩ := stands_of_mem hmem
  obtain ⟨_, hsource⟩ | ⟨_, hsource⟩ | ⟨_, c, hc, hsource⟩ | ⟨digits, hread, hsource⟩ |
    ⟨_, hshape, _⟩ := Piece.writing_of_next? (Piece.next?_of_stands hstands)
  · rw [hsource] at hdigit
    cases hdigit
  · rw [hsource] at hdigit
    cases hdigit
  · rw [hsource, List.head?_cons, Option.any_some, Piece.isDigit_of_isBlank c hc] at hdigit
    cases hdigit
  · exact ⟨digits, hsource, hread⟩
  · have hletter := hshape.leaves_digit []
    rw [List.append_nil, Leaves, hdigit] at hletter
    cases hletter

/-! ## What is stored -/

theorem forall₂_map_right {α β γ : Type} {R : α → β → Prop} {f : β → γ} {l : List α} {m : List γ} :
    List.Forall₂ (fun a c => ∃ b, R a b ∧ f b = c) l m ↔
      ∃ bs, List.Forall₂ R l bs ∧ bs.map f = m := by
  induction l generalizing m with
  | nil =>
    constructor
    · rintro ⟨⟩
      exact ⟨[], .nil, rfl⟩
    · rintro ⟨_, ⟨⟩, rfl⟩
      exact .nil
  | cons a rest ih =>
    constructor
    · rintro ⟨⟩
      rename_i c m hc hm
      obtain ⟨b, hb, rfl⟩ := hc
      obtain ⟨bs, hbs, rfl⟩ := ih.mp hm
      exact ⟨b :: bs, .cons hb hbs, rfl⟩
    · rintro ⟨_, ⟨⟩, rfl⟩
      rename_i b bs hb hbs
      exact .cons ⟨b, hb, rfl⟩ (ih.mpr ⟨bs, hbs, rfl⟩)

/-- The items that are stored for the lines. -/
def itemsOf (scripts : List (Option Script)) : List Item :=
  scripts.filterMap (·.map Script.item)

theorem parseMusic_inscribed {metadata : Metadata} {music : List Char} {program : Program} :
    parseMusic metadata music = .ok program ↔ ∃ scripts,
      List.Forall₂ Inscribed (Text.split music) scripts ∧
        program = Program.ofItems metadata (itemsOf scripts) := by
  have hreads : ∀ found, List.Forall₂ LineReads (Text.split music) found ↔
      ∃ scripts, List.Forall₂ Inscribed (Text.split music) scripts ∧
        scripts.map (Option.map Script.item) = found := by
    intro found
    rw [← forall₂_map_right]
    exact forall₂_congr_of_mem fun line hl _ => lineReads_inscribed (Text.not_mem_of_mem_split hl)
  rw [parseMusic_eq_ok]
  constructor
  · rintro ⟨found, hall, rfl⟩
    obtain ⟨scripts, hscripts, rfl⟩ := (hreads found).mp hall
    exact ⟨scripts, hscripts, by rw [itemsOf, List.filterMap_map]; rfl⟩
  · rintro ⟨scripts, hscripts, rfl⟩
    refine ⟨_, (hreads _).mpr ⟨scripts, hscripts, rfl⟩, ?_⟩
    rw [itemsOf, List.filterMap_map]
    rfl

theorem parse_eq_ok [FrontMatter.Reader] {source : String} {program : Program} :
    parse source = .ok program ↔
    ∃ metadata, metadataOf (FrontMatter.divide source.toList).1 = .ok metadata ∧
      parseMusic metadata (FrontMatter.divide source.toList).2 = .ok program := by
  rw [parse]
  dsimp only
  cases metadataOf (FrontMatter.divide source.toList).1 with
  | error fault => simp
  | ok metadata =>
    dsimp only
    cases hmusic : parseMusic metadata (FrontMatter.divide source.toList).2 <;> simp [hmusic]

theorem parse_inscribed [FrontMatter.Reader] {source : String} {program : Program} :
    parse source = .ok program ↔
    ∃ metadata scripts, metadataOf (FrontMatter.divide source.toList).1 = .ok metadata ∧
      List.Forall₂ Inscribed (Text.split (FrontMatter.divide source.toList).2) scripts ∧
      program = Program.ofItems metadata (itemsOf scripts) := by
  rw [parse_eq_ok]
  constructor
  · rintro ⟨metadata, hmetadata, hmusic⟩
    obtain ⟨scripts, hscripts, hprogram⟩ := parseMusic_inscribed.mp hmusic
    exact ⟨metadata, scripts, hmetadata, hscripts, hprogram⟩
  · rintro ⟨metadata, scripts, hmetadata, hscripts, hprogram⟩
    exact ⟨metadata, hmetadata, parseMusic_inscribed.mpr ⟨scripts, hscripts, hprogram⟩⟩

theorem parse_of_inscribed [FrontMatter.Reader] {source : String} {scripts : List (Option Script)}
    (h : List.Forall₂ Inscribed (Text.split source.toList) scripts) :
    parse source = .ok (Program.ofItems {} (itemsOf scripts)) := by
  have hplain : ∀ line ∈ Text.split source.toList, FrontMatter.isDelimiter line = false := by
    intro line hl
    obtain ⟨script, hscript⟩ := exists_forall₂_iff.mp ⟨_, h⟩ line hl
    have hn := Text.not_mem_of_mem_split hl
    have hreads := (lineReads_inscribed hn).mpr ⟨script, hscript, rfl⟩
    have htells := (lineReads_iff_tells hn).mp hreads
    refine Bool.eq_false_iff.mpr fun hdelimiter => ?_
    obtain ⟨c, hstuck⟩ := FrontMatter.reading_of_isDelimiter hdelimiter
    rw [htells] at hstuck
    cases hstuck
  rw [parse_inscribed, FrontMatter.divide_of_no_delimiter hplain]
  exact ⟨{}, scripts, rfl, h, rfl⟩

/-! ## What is in range -/

namespace Script

def kind? : Script → Option Kind
  | .tempo _ => some .tempo
  | .timeSignature _ _ => some .timeSignature
  | .key _ _ => some .key
  | .note _ _ _ => none

/-- The root or the name, if there is one, is that of a pitch. -/
def Named : Script → Prop
  | .key root _ => Spelling root
  | .note name _ _ => Spelling name
  | _ => True

/-- The numbers in writing are allowed. -/
def InRange : Script → Prop
  | .tempo bpm => 20 ≤ bpm.value ∧ bpm.value ≤ 200
  | .timeSignature numerator denominator =>
    (2 ≤ numerator.value ∧ numerator.value ≤ 12) ∧ denominator.value ∈ [2, 4, 8, 16]
  | .key _ _ => True
  | .note _ octave _ => octave.value ≤ 8

end Script

/-- The item passes the check of its values. -/
def Item.Sound : Item → Prop
  | .declaration d => d.InRange
  | .note n => n.Playable

/-- A number is stored as a large one if it is large. -/
theorem Script.sound_iff (script : Script) : script.item.Sound ↔ script.Named ∧ script.InRange := by
  cases script with
  | tempo bpm =>
    simp only [item, Item.Sound, Declaration.InRange, Digits.stored, Named, InRange, true_and]
    omega
  | timeSignature numerator denominator =>
    simp only [item, Item.Sound, Declaration.InRange, Digits.stored, Named, InRange, true_and,
      List.mem_cons, List.not_mem_nil, or_false]
    omega
  | key root mode => simp [item, Item.Sound, Declaration.InRange, Named, InRange]
  | note name octave duration =>
    simp only [item, Item.Sound, Note.Playable, Digits.stored, Named, InRange]
    refine and_congr_right fun _ => ?_
    omega

theorem mem_declarations_ofItems {metadata : Metadata} {items : List Item} {d : Declaration} :
    d ∈ (Program.ofItems metadata items).declarations ↔ .declaration d ∈ items := by
  rw [Program.ofItems, List.mem_filterMap]
  constructor
  · rintro ⟨_ | _, hitem, ⟨⟩⟩
    exact hitem
  · intro hitem
    exact ⟨_, hitem, rfl⟩

theorem mem_notes_ofItems {metadata : Metadata} {items : List Item} {n : Note} :
    n ∈ (Program.ofItems metadata items).notes ↔ .note n ∈ items := by
  rw [Program.ofItems, List.mem_filterMap]
  constructor
  · rintro ⟨_ | _, hitem, ⟨⟩⟩
    exact hitem
  · intro hitem
    exact ⟨_, hitem, rfl⟩

theorem valid_ofItems_iff {metadata : Metadata} {items : List Item} :
    (Program.ofItems metadata items).Valid ↔
      (∀ kind, ((items.filterMap Item.declaration?).map Declaration.kind).count kind = 1) ∧
        ∀ item ∈ items, item.Sound := by
  constructor
  · rintro ⟨honce, hrange, hplayable⟩
    refine ⟨honce, fun item hitem => ?_⟩
    cases item with
    | declaration d => exact hrange d (mem_declarations_ofItems.mpr hitem)
    | note n => exact hplayable n (mem_notes_ofItems.mpr hitem)
  · rintro ⟨honce, hsound⟩
    refine ⟨honce, fun d hd => ?_, fun n hn => ?_⟩
    · exact hsound _ (mem_declarations_ofItems.mp hd)
    · exact hsound _ (mem_notes_ofItems.mp hn)

theorem kinds_itemsOf (scripts : List (Option Script)) :
    ((itemsOf scripts).filterMap Item.declaration?).map Declaration.kind =
      scripts.filterMap (·.bind Script.kind?) := by
  rw [itemsOf, List.filterMap_filterMap, List.map_filterMap]
  congr 1
  funext script?
  rcases script? with _ | _ | _ | _ | _ <;> rfl

theorem sound_itemsOf {scripts : List (Option Script)} :
    (∀ item ∈ itemsOf scripts, item.Sound) ↔
      ∀ script, some script ∈ scripts → script.Named ∧ script.InRange := by
  constructor
  · intro h script hscript
    exact script.sound_iff.mp (h _ (List.mem_filterMap.mpr ⟨_, hscript, rfl⟩))
  · intro h item hitem
    obtain ⟨script?, hscript, hfound⟩ := List.mem_filterMap.mp hitem
    obtain ⟨script, rfl, rfl⟩ := Option.map_eq_some_iff.mp hfound
    exact script.sound_iff.mpr (h script hscript)

/-- The numbers decide, by what they are in writing. -/
theorem compiles_inscribed [FrontMatter.Reader] {source : String} {scripts : List (Option Script)}
    (h : List.Forall₂ Inscribed (Text.split source.toList) scripts)
    (honce : ∀ kind, (scripts.filterMap (·.bind Script.kind?)).count kind = 1)
    (hnamed : ∀ script, some script ∈ scripts → script.Named) :
    (∃ abc, compile source = .ok abc) ↔ ∀ script, some script ∈ scripts → script.InRange := by
  have hparse := parse_of_inscribed h
  have hvalid : (Program.ofItems {} (itemsOf scripts)).Valid ↔
      ∀ script, some script ∈ scripts → script.InRange := by
    rw [valid_ofItems_iff, kinds_itemsOf, sound_itemsOf]
    constructor
    · rintro ⟨_, hsound⟩ script hscript
      exact (hsound script hscript).2
    · intro hrange
      exact ⟨honce, fun script hscript => ⟨hnamed script hscript, hrange script hscript⟩⟩
  rw [← hvalid]
  constructor
  · rintro ⟨abc, habc⟩
    obtain ⟨program, haccept, _⟩ := compile_eq_ok.mp habc
    obtain ⟨hfound, hcheck⟩ := accept_eq_ok.mp haccept
    rw [hparse] at hfound
    cases hfound
    exact Program.valid_of_check hcheck
  · intro hprogram
    have haccept := accept_eq_ok.mpr ⟨hparse, Program.check_of_valid hprogram⟩
    exact ⟨_, compile_eq_ok.mpr ⟨_, haccept, rfl⟩⟩

/-- However many digits a number has, the lexer reads it as it is written up to the largest number
of 32 bits, and what is stored is the number up to the largest 32-bit integer. So a source with
every setting once and names of pitches compiles exactly if the numbers in writing are in range. -/
theorem numbers_saturate [FrontMatter.Reader] :
    (∀ digits : Digits,
      lex digits.run = .ok [⟨.number (min digits.value 4294967295), digits.run, .start⟩]) ∧
    (∀ text lexemes, lex text = .ok lexemes → ∀ lexeme ∈ lexemes,
      lexeme.source.head?.any Char.isDigit = true → ∃ digits : Digits,
        lexeme.source = digits.run ∧ lexeme.token = .number (min digits.value 4294967295)) ∧
    (∀ source program, parse source = .ok program ↔ ∃ metadata scripts,
      metadataOf (FrontMatter.divide source.toList).1 = .ok metadata ∧
        List.Forall₂ Inscribed (Text.split (FrontMatter.divide source.toList).2) scripts ∧
        program = Program.ofItems metadata (itemsOf scripts)) ∧
    ∀ source scripts, List.Forall₂ Inscribed (Text.split source.toList) scripts →
      (∀ kind, (scripts.filterMap (·.bind Script.kind?)).count kind = 1) →
      (∀ script, some script ∈ scripts → script.Named) →
      ((∃ abc, compile source = .ok abc) ↔ ∀ script, some script ∈ scripts → script.InRange) := by
  refine ⟨lex_digits, ?_, fun _ _ => parse_inscribed, fun _ _ => compiles_inscribed⟩
  intro text lexemes hlex lexeme hmem hdigit
  exact number_of_mem_lex hlex hmem hdigit

/-- The lowest 32 bits of the numerator are 4. -/
theorem numbers_saturate_tooWide :
    lex "/4294967300".toList =
      .ok [⟨.slash, ['/'], ⟨1, 1⟩⟩, ⟨.number 4294967295, "4294967300".toList, ⟨1, 2⟩⟩] ∧
    (∃ digits : Digits, "4294967300".toList = digits.run ∧
      Token.number 4294967295 = .number (min digits.value 4294967295)) ∧
    (∃ scripts, List.Forall₂ Inscribed
        (Text.split "Tempo 060\nCompas 4294967300/4\nTonalidad Do M\nSol04 Negra".toList) scripts ∧
      (∀ kind, (scripts.filterMap (·.bind Script.kind?)).count kind = 1) ∧
      ∀ script, some script ∈ scripts → script.Named) ∧
    ¬ ∃ abc, compile "Tempo 060\nCompas 4294967300/4\nTonalidad Do M\nSol04 Negra" = .ok abc := by
  let tempo : Digits := ⟨"060".toList, by decide, List.all_eq_true.mp (by decide)⟩
  let numerator : Digits := ⟨"4294967300".toList, by decide, List.all_eq_true.mp (by decide)⟩
  let denominator : Digits := ⟨"4".toList, by decide, List.all_eq_true.mp (by decide)⟩
  let octave : Digits := ⟨"04".toList, by decide, List.all_eq_true.mp (by decide)⟩
  let scripts : List (Option Script) := [some (.tempo tempo),
    some (.timeSignature numerator denominator), some (.key "Do" .major),
    some (.note "Sol" octave .quarter)]
  have hlines : Text.split "Tempo 060\nCompas 4294967300/4\nTonalidad Do M\nSol04 Negra".toList =
      ["Tempo".toList ++ ([' '] ++ tempo.run),
        "Compas".toList ++ ([' '] ++ (numerator.run ++ ([] ++ '/' :: ([] ++ denominator.run)))),
        "Tonalidad".toList ++ ([' '] ++ ("Do".toList ++ ([' '] ++ "M".toList))),
        "Sol".toList ++ (octave.run ++ ([' '] ++ "Negra".toList))] := by
    decide +kernel
  have hinscribed : List.Forall₂ Inscribed
      (Text.split "Tempo 060\nCompas 4294967300/4\nTonalidad Do M\nSol04 Negra".toList)
      scripts := by
    rw [hlines]
    refine .cons ?_ (.cons ?_ (.cons ?_ (.cons ?_ .nil)))
    · exact (Spells.tempo tempo (by decide) (by decide)).inscribed
    · exact (Spells.timeSignature numerator denominator (by decide) (by decide) (by decide)
        (by decide)).inscribed
    · exact (Spells.key (by decide) (by decide) (by decide) (by decide) (by decide) (by decide)
        (by decide)).inscribed
    · exact (Spells.note octave (by decide) (by decide) (by decide)).inscribed
  have honce : ∀ kind, (scripts.filterMap (·.bind Script.kind?)).count kind = 1 := by
    rintro (_ | _ | _) <;> rfl
  have hnamed : ∀ script, some script ∈ scripts → script.Named := by
    have hdo : Spelling "Do" := PitchClass.ofName?_isSome.mp (by decide)
    have hsol : Spelling "Sol" := PitchClass.ofName?_isSome.mp (by decide)
    simp [scripts, Script.Named, hdo, hsol]
  have hlex : lex "/4294967300".toList =
      .ok [⟨.slash, ['/'], ⟨1, 1⟩⟩, ⟨.number 4294967295, "4294967300".toList, ⟨1, 2⟩⟩] := by
    decide +kernel
  have hnumber := numbers_saturate.2.1 _ _ hlex _ (List.mem_of_getLast? rfl) (by decide)
  refine ⟨hlex, hnumber, ⟨scripts, hinscribed, honce, hnamed⟩, fun hcompiles => ?_⟩
  have hrange := (numbers_saturate.2.2.2 _ _ hinscribed honce hnamed).mp hcompiles
    (.timeSignature numerator denominator) (by simp [scripts])
  have hvalue : numerator.value = 4294967300 := by decide
  rw [Script.InRange, hvalue] at hrange
  omega

end Solfege
