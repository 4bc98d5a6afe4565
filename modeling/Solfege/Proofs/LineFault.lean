import Solfege.Proofs.LineForm

/-!
# Solfege.Proofs.LineFault

The faults of one line: where they are placed and what they say.

* A fault is placed at a lexeme of its line; if it is placed where the line stops, the line breaks
  off too early (`item?_blames`).
* What a line says, or is blamed for, depends on its tokens alone and not on a blank after them
  (`item?_trails`). A carriage return before a break is such a blank.

The parts of the reader answer with an `Except Fault (α × Line)`. `Twins` is what is kept by every
part, for the answers to two lines that differ in a last blank.
-/

namespace Solfege

/-- The tokens break off inside an item, or with a duration that no note precedes. -/
inductive Unfinished (tokens : List Token) : Prop where
  | item (more : List Token) {item : Item} : LineForm (tokens ++ more) (some item) →
      Unfinished tokens
  | duration {duration : Duration} : visible tokens = [.duration duration] →
      tokens.getLast? = some (.duration duration) → Unfinished tokens

theorem visible_append (first second : List Token) :
    visible (first ++ second) = visible first ++ visible second :=
  List.filter_append ..

namespace Line

/-! ## What is left of a line -/

/-- What is left of a line after some of its lexemes. -/
structure Later (rest line : Line) : Prop where
  lexemes : rest.lexemes <:+ line.lexemes
  stop : rest.stop = line.stop

namespace Later

theorem trans {a b c : Line} (hab : a.Later b) (hbc : b.Later c) : a.Later c :=
  ⟨hab.lexemes.trans hbc.lexemes, hab.stop.trans hbc.stop⟩

theorem skip (line : Line) : line.skip.Later line := ⟨List.dropWhile_suffix _, rfl⟩

theorem tail (line : Line) : line.tail.Later line := ⟨List.tail_suffix _, rfl⟩

theorem skip_tail (line : Line) : line.skip.tail.Later line := (tail line.skip).trans (skip line)

end Later

/-! ## What the parts of the reader complain of -/

theorem except_map_eq_error {ε α β : Type} {f : α → β} {e : Except ε α} {b : ε}
    (h : e.map f = .error b) : e = .error b := by
  cases e with
  | error _ =>
    cases h
    rfl
  | ok _ => cases h

theorem number_eq_error {line : Line} {complaint : Complaint} {fault : Fault}
    (h : line.number complaint = .error fault) : fault = line.skip.fault complaint := by
  rw [number] at h
  split at h <;> cases h
  rfl

theorem tempo_eq_error {line : Line} {fault : Fault} (h : line.tempo = .error fault) :
    fault = line.skip.fault .expectedTempo := by
  rw [tempo] at h
  split at h <;> cases h
  rename_i hnumber
  exact number_eq_error hnumber

theorem timeSignature_eq_error {line : Line} {fault : Fault}
    (h : line.timeSignature = .error fault) :
    fault = line.skip.fault .expectedNumerator ∨
      ∃ n, line.skip.token? = some (.number n) ∧
        (fault = line.skip.tail.skip.fault .expectedSlash ∨
          line.skip.tail.skip.token? = some .slash ∧
            fault = line.skip.tail.skip.tail.skip.fault .expectedDenominator) := by
  rw [timeSignature] at h
  split at h
  · rename_i hnumber
    cases h
    exact .inl (number_eq_error hnumber)
  · rename_i hnumber
    obtain ⟨n, hn, rfl, rfl⟩ := number_eq_ok.mp hnumber
    refine .inr ⟨n, hn, ?_⟩
    split at h
    · rename_i hslash
      split at h <;> cases h
      rename_i hnumber
      exact .inr ⟨hslash, number_eq_error hnumber⟩
    · cases h
      exact .inl rfl

theorem key_eq_error {line : Line} {fault : Fault} (h : line.key = .error fault) :
    fault = line.skip.fault .expectedRoot ∨
      ∃ root, line.skip.token? = some (.word root) ∧
        fault = line.skip.tail.skip.fault (.expectedMode root) := by
  rw [key] at h
  split at h
  · rename_i root hroot
    dsimp only at h
    split at h <;> cases h
    exact .inr ⟨root, hroot, rfl⟩
  · cases h
    exact .inl rfl

theorem note_eq_error {line : Line} {name : String} {fault : Fault}
    (h : line.note name = .error fault) :
    fault = line.fault (.expectedOctave name) ∨
      ∃ n, line.token? = some (.number n) ∧
        fault = line.tail.skip.fault (.expectedDuration name (clamp n)) := by
  rw [Line.note] at h
  split at h
  · rename_i n hn
    dsimp only at h
    split at h <;> cases h
    exact .inr ⟨n, hn, rfl⟩
  · cases h
    exact .inl rfl

/-! ## The place of a fault -/

/-- The fault is at a lexeme of the line, or the line stops too early. -/
def Blames (line : Line) (fault : Fault) : Prop :=
  (∃ lexeme ∈ line.lexemes, fault.position = lexeme.position) ∨
    fault.position = line.stop ∧ Unfinished line.tokens

/-- A complaint about what is left of a line; if nothing is left, the line has to be unfinished. -/
theorem blames_of_later {rest line : Line} (hlater : rest.Later line) (complaint : Complaint)
    (h : rest.lexemes = [] → Unfinished line.tokens) : line.Blames (rest.fault complaint) := by
  obtain ⟨lexemes, stop⟩ := rest
  cases lexemes with
  | nil => exact .inr ⟨hlater.stop, h rfl⟩
  | cons lexeme more => exact .inl ⟨lexeme, hlater.lexemes.subset (List.mem_cons_self ..), rfl⟩

theorem visible_of_skip_nil {line : Line} (h : line.skip.lexemes = []) :
    visible line.tokens = [] :=
  visible_eq_nil.mpr (by rw [token?, h]; rfl)

/-- The blanks, the token after them, and the rest. -/
theorem tokens_of_token?_skip {line : Line} {token : Token} (h : line.skip.token? = some token) :
    ∃ blanks, line.tokens = blanks ++ token :: line.skip.tail.tokens := by
  refine ⟨line.tokens.takeWhile (· = .blank), ?_⟩
  rw [← tokens_of_token? h, tokens_skip, List.takeWhile_append_dropWhile]

section Leading

variable {line : Line} {fault : Fault}

theorem tempo_blames (ht : line.skip.token? = some .tempo)
    (h : line.skip.tail.tempo = .error fault) : line.Blames fault := by
  rw [tempo_eq_error h]
  refine blames_of_later ((Later.skip _).trans (Later.skip_tail line)) _ fun hnil => ?_
  have hvisible : visible line.tokens = [.tempo] :=
    visible_eq_cons.mpr ⟨ht, visible_of_skip_nil hnil⟩
  exact .item [.number 0] (.tempo (by rw [visible_append, hvisible]; rfl))

theorem timeSignature_blames (ht : line.skip.token? = some .meter)
    (h : line.skip.tail.timeSignature = .error fault) : line.Blames fault := by
  have hlater := Later.skip_tail line
  have hform : ∀ (more : List Token) {numerator denominator : Nat},
      visible line.tokens ++ visible more =
        [.meter, .number numerator, .slash, .number denominator] → Unfinished line.tokens :=
    fun more _ _ heq => .item more (.timeSignature ((visible_append _ _).trans heq))
  obtain rfl | ⟨n, hn, rfl | ⟨hslash, rfl⟩⟩ := timeSignature_eq_error h
  · refine blames_of_later ((Later.skip _).trans hlater) _ fun hnil => ?_
    have hvisible := visible_eq_cons.mpr ⟨ht, visible_of_skip_nil hnil⟩
    exact hform [.number 0, .slash, .number 0] (by rw [hvisible]; rfl)
  · have hrest := (Later.skip _).trans ((Later.skip_tail line.skip.tail).trans hlater)
    refine blames_of_later hrest _ fun hnil => ?_
    have hvisible := visible_eq_cons.mpr ⟨ht, visible_eq_cons.mpr ⟨hn, visible_of_skip_nil hnil⟩⟩
    exact hform [.slash, .number 0] (by rw [hvisible]; rfl)
  · have hrest := (Later.skip _).trans ((Later.skip_tail line.skip.tail.skip.tail).trans
      ((Later.skip_tail line.skip.tail).trans hlater))
    refine blames_of_later hrest _ fun hnil => ?_
    have hvisible := visible_eq_cons.mpr ⟨ht, visible_eq_cons.mpr ⟨hn,
      visible_eq_cons.mpr ⟨hslash, visible_of_skip_nil hnil⟩⟩⟩
    exact hform [.number 0] (by rw [hvisible]; rfl)

theorem key_blames (ht : line.skip.token? = some .key)
    (h : line.skip.tail.key = .error fault) : line.Blames fault := by
  have hlater := Later.skip_tail line
  obtain rfl | ⟨root, hroot, rfl⟩ := key_eq_error h
  · refine blames_of_later ((Later.skip _).trans hlater) _ fun hnil => ?_
    have hvisible := visible_eq_cons.mpr ⟨ht, visible_of_skip_nil hnil⟩
    exact .item [.word "", .mode .major] (.key (by rw [visible_append, hvisible]; rfl))
  · have hrest := (Later.skip _).trans ((Later.skip_tail line.skip.tail).trans hlater)
    refine blames_of_later hrest _ fun hnil => ?_
    have hvisible := visible_eq_cons.mpr
      ⟨ht, visible_eq_cons.mpr ⟨hroot, visible_of_skip_nil hnil⟩⟩
    exact .item [.mode .major] (.key (by rw [visible_append, hvisible]; rfl))

theorem note_blames {name : String} (ht : line.skip.token? = some (.word name))
    (h : line.skip.tail.note name = .error fault) : line.Blames fault := by
  have hlater := Later.skip_tail line
  obtain ⟨blanks, htokens⟩ := tokens_of_token?_skip ht
  obtain rfl | ⟨n, hn, rfl⟩ := note_eq_error h
  · -- The octave is looked for at once, so the line has to end with the name itself.
    refine blames_of_later hlater _ fun hnil => ?_
    have htail : line.skip.tail.tokens = [] := by rw [tokens, hnil]; rfl
    have hvisible : visible line.tokens = [.word name] :=
      visible_eq_cons.mpr ⟨ht, by rw [htail]; rfl⟩
    rw [htail] at htokens
    have hform : visible (line.tokens ++ [.number 0, .duration .half]) =
        [.word name, .number 0, .duration .half] := by
      rw [visible_append, hvisible]
      rfl
    have hnext : [.word name, .number 0] <:+: line.tokens ++ [.number 0, .duration .half] := by
      refine ⟨blanks, [.duration .half], ?_⟩
      rw [htokens, List.append_assoc, List.append_assoc]
      rfl
    exact .item _ (.note hform hnext)
  · refine blames_of_later ((Later.skip _).trans ((Later.tail _).trans hlater)) _ fun hnil => ?_
    have hvisible : visible line.tokens = [.word name, .number n] := by
      refine visible_eq_cons.mpr ⟨ht, visible_eq_cons.mpr ?_⟩
      rw [skip_of_token? hn Token.noConfusion]
      exact ⟨hn, visible_of_skip_nil hnil⟩
    rw [tokens_of_token? hn] at htokens
    have hform : visible (line.tokens ++ [.duration .half]) =
        [.word name, .number n, .duration .half] := by
      rw [visible_append, hvisible]
      rfl
    have hnext : [.word name, .number n] <:+: line.tokens ++ [.duration .half] := by
      refine ⟨blanks, line.skip.tail.tail.tokens ++ [.duration .half], ?_⟩
      rw [htokens, List.append_assoc, List.append_assoc]
      rfl
    exact .item _ (.note hform hnext)

theorem leading_blames {token : Token} (ht : line.skip.token? = some token)
    (h : line.skip.leading token = .error fault) : line.Blames fault := by
  -- The other tokens start no item, and they are there to be blamed.
  have hother : ∀ complaint, line.Blames (line.skip.fault complaint) := by
    refine fun complaint => blames_of_later (Later.skip line) complaint fun hnil => ?_
    rw [token?, hnil] at ht
    cases ht
  cases token with
  | tempo => exact tempo_blames ht (except_map_eq_error h)
  | meter => exact timeSignature_blames ht (except_map_eq_error h)
  | key => exact key_blames ht (except_map_eq_error h)
  | word name => exact note_blames ht (except_map_eq_error h)
  | duration duration =>
    cases h
    refine blames_of_later (Later.skip_tail line) _ fun hnil => ?_
    have htail : line.skip.tail.tokens = [] := by rw [tokens, hnil]; rfl
    obtain ⟨blanks, htokens⟩ := tokens_of_token?_skip ht
    rw [htail] at htokens
    refine .duration (visible_eq_cons.mpr ⟨ht, by rw [htail]; rfl⟩) ?_
    rw [htokens]
    simp
  | mode mode =>
    cases h
    exact hother _
  | number value =>
    cases h
    exact hother _
  | slash =>
    cases h
    exact hother _
  | newline =>
    cases h
    exact hother _
  | blank =>
    cases h
    exact hother _

end Leading

theorem leading_later {line rest : Line} {token : Token} {item : Item}
    (h : line.leading token = .ok (item, rest)) : rest.Later line := by
  have htail := Later.tail line
  cases token with
  | tempo =>
    obtain ⟨⟨declaration, left⟩, hd, heq⟩ := except_map_eq_ok h
    cases heq
    obtain ⟨bpm, hnumber, _⟩ := tempo_eq_ok.mp hd
    obtain ⟨n, _, _, rfl⟩ := number_eq_ok.mp hnumber
    exact (Later.skip_tail _).trans htail
  | meter =>
    obtain ⟨⟨declaration, left⟩, hd, heq⟩ := except_map_eq_ok h
    cases heq
    obtain ⟨numerator, denominator, middle, hnumerator, _, hdenominator, _⟩ :=
      timeSignature_eq_ok.mp hd
    obtain ⟨n, _, _, rfl⟩ := number_eq_ok.mp hnumerator
    obtain ⟨m, _, _, rfl⟩ := number_eq_ok.mp hdenominator
    exact (Later.skip_tail _).trans ((Later.skip_tail _).trans ((Later.skip_tail _).trans htail))
  | key =>
    obtain ⟨⟨declaration, left⟩, hd, heq⟩ := except_map_eq_ok h
    cases heq
    obtain ⟨root, mode, _, _, _, rfl⟩ := key_eq_ok.mp hd
    exact (Later.skip_tail _).trans ((Later.skip_tail _).trans htail)
  | word name =>
    obtain ⟨⟨note, left⟩, hread, heq⟩ := except_map_eq_ok h
    cases heq
    obtain ⟨octave, duration, _, _, _, rfl⟩ := note_eq_ok.mp hread
    exact (Later.skip_tail _).trans ((Later.tail _).trans htail)
  | mode mode => cases h
  | duration duration => cases h
  | number value => cases h
  | slash => cases h
  | newline => cases h
  | blank => cases h

theorem item?_blames {line : Line} {fault : Fault} (h : line.item? = .error fault) :
    line.Blames fault := by
  rw [item?] at h
  split at h
  · cases h
  · rename_i token ht
    split at h
    · rename_i hleading
      cases h
      exact leading_blames ht hleading
    · rename_i item rest hleading
      split at h <;> cases h
      rename_i found hfound
      have hlater := (leading_later hleading).trans (Later.skip line)
      refine blames_of_later ((Later.skip rest).trans hlater) _ fun hnil => ?_
      rw [token?, hnil] at hfound
      cases hfound

theorem item?_of_no_lexemes {line : Line} (h : line.lexemes = []) : line.item? = .ok none := by
  simp [item?, skip, token?, h]

theorem item?_fault_position {line : Line} {fault : Fault} (h : line.item? = .error fault) :
    line.lexemes ≠ [] ∧
      (fault.position = line.stop ∨ ∃ lexeme ∈ line.lexemes, fault.position = lexeme.position) := by
  constructor
  · intro hnil
    rw [item?_of_no_lexemes hnil] at h
    cases h
  · rcases item?_blames h with hlexeme | ⟨hstop, _⟩
    · exact .inr hlexeme
    · exact .inl hstop

/-! ## A last blank -/

/-- The second line has the tokens of the first, and no more after them than one blank. -/
def Trails (a b : Line) : Prop :=
  b.tokens = a.tokens ∨ b.tokens = a.tokens ++ [.blank]

namespace Trails

variable {a b : Line} (h : a.Trails b)

include h

theorem tail : a.tail.Trails b.tail := by
  have htail : ∀ line : Line, line.tail.tokens = line.tokens.tail := fun line => List.map_tail
  rw [Trails, htail, htail]
  rcases h with h | h
  · exact .inl (by rw [h])
  · rw [h]
    cases a.tokens with
    | nil => exact .inl rfl
    | cons token rest => exact .inr rfl

theorem skip : a.skip.Trails b.skip := by
  rw [Trails, tokens_skip, tokens_skip]
  rcases h with h | h
  · exact .inl (by rw [h])
  · rw [h, List.dropWhile_append]
    split
    · rename_i hempty
      left
      rw [List.isEmpty_iff.mp hempty]
      rfl
    · exact .inr rfl

/-- Past the blanks the two lines go on alike. -/
theorem token?_skip : b.skip.token? = a.skip.token? := by
  rw [token?_eq_head?, token?_eq_head?, tokens_skip, tokens_skip]
  rcases h with h | h
  · rw [h]
  · rw [h, List.dropWhile_append]
    split
    · rename_i hempty
      rw [List.isEmpty_iff.mp hempty]
      rfl
    · rename_i hvisible
      cases hd : a.tokens.dropWhile (· = .blank) with
      | nil => simp [hd] at hvisible
      | cons token rest => rfl

theorem token?_iff {token : Token} (hblank : token ≠ .blank) :
    b.token? = some token ↔ a.token? = some token := by
  rw [token?_eq_head?, token?_eq_head?]
  rcases h with h | h
  · rw [h]
  · rw [h]
    cases a.tokens with
    | nil => simp [hblank.symm]
    | cons other rest => rfl

end Trails

variable {α : Type}

/-- Two answers that say the same, or complain of the same. -/
inductive Twins : Except Fault (α × Line) → Except Fault (α × Line) → Prop where
  | ok {a b : Line} (value : α) : a.Trails b → Twins (.ok (value, a)) (.ok (value, b))
  | error {f g : Fault} : f.complaint = g.complaint → Twins (.error f) (.error g)

theorem Twins.map {β : Type} {x y : Except Fault (α × Line)} (h : Twins x y) (f : α → β) :
    Twins (x.map fun (a, rest) => (f a, rest)) (y.map fun (a, rest) => (f a, rest)) := by
  cases h with
  | ok value ht => exact .ok (f value) ht
  | error hc => exact .error hc

section Parts

variable {a b : Line} (h : a.Trails b)

include h

theorem number_twins (complaint : Complaint) :
    Twins (a.number complaint) (b.number complaint) := by
  rw [number, number, h.token?_skip]
  split
  · exact .ok _ h.skip.tail
  · exact .error rfl

theorem tempo_twins : Twins a.tempo b.tempo := by
  have hnumber := number_twins h .expectedTempo
  rw [tempo, tempo]
  generalize a.number .expectedTempo = x, b.number .expectedTempo = y at hnumber
  cases hnumber with
  | ok value ht => exact .ok _ ht
  | error hc => exact .error hc

theorem timeSignature_twins : Twins a.timeSignature b.timeSignature := by
  have hnumerator := number_twins h .expectedNumerator
  rw [timeSignature, timeSignature]
  generalize a.number .expectedNumerator = x, b.number .expectedNumerator = y at hnumerator
  cases hnumerator with
  | error hc => exact .error hc
  | @ok a b numerator ht =>
    dsimp only
    rw [ht.token?_skip]
    split
    · have hdenominator := number_twins ht.skip.tail .expectedDenominator
      generalize a.skip.tail.number .expectedDenominator = x,
        b.skip.tail.number .expectedDenominator = y at hdenominator
      cases hdenominator with
      | ok denominator ht => exact .ok _ ht
      | error hc => exact .error hc
    · exact .error rfl

theorem key_twins : Twins a.key b.key := by
  rw [key, key, h.token?_skip]
  split
  · dsimp only
    rw [h.skip.tail.token?_skip]
    split
    · exact .ok _ h.skip.tail.skip.tail
    · exact .error rfl
  · exact .error rfl

/-- The octave is looked for without skipping, where one line may have a blank and the other
nothing: neither is a number. -/
theorem note_twins (name : String) : Twins (a.note name) (b.note name) := by
  have hoctave : ∀ n, b.token? = some (.number n) ↔ a.token? = some (.number n) :=
    fun n => h.token?_iff Token.noConfusion
  rw [Line.note, Line.note]
  split
  · rename_i n hn
    rw [(hoctave n).mpr hn]
    dsimp only
    rw [h.tail.token?_skip]
    split
    · exact .ok _ h.tail.skip.tail
    · exact .error rfl
  · rename_i hn
    split
    · rename_i n hb
      exact absurd ((hoctave n).mp hb) (hn n)
    · exact .error rfl

theorem leading_twins (token : Token) : Twins (a.leading token) (b.leading token) := by
  cases token with
  | tempo => exact (tempo_twins h.tail).map _
  | meter => exact (timeSignature_twins h.tail).map _
  | key => exact (key_twins h.tail).map _
  | word name => exact (note_twins h.tail name).map _
  | duration duration => exact .error rfl
  | mode mode => exact .error rfl
  | number value => exact .error rfl
  | slash => exact .error rfl
  | newline => exact .error rfl
  | blank => exact .error rfl

theorem item?_trails :
    a.item?.mapError Fault.complaint = b.item?.mapError Fault.complaint := by
  rw [item?, item?, h.token?_skip]
  split
  · rfl
  · rename_i token _
    have hleading := leading_twins h.skip token
    generalize a.skip.leading token = x, b.skip.leading token = y at hleading
    cases hleading with
    | error hc => exact congrArg Except.error hc
    | @ok a b item ht =>
      dsimp only
      rw [ht.token?_skip]
      split <;> rfl

end Parts

end Line
end Solfege
