import Mathlib.Data.List.Infix
import Solfege.Proofs.FirstViolation
import Solfege.Proofs.SharedScopes

/-!
# Solfege.Proofs.ScopeHistory

A stack of scopes, told from the operations that built it and not from what it holds.

Scopes have levels, from zero for the outermost one. The level of a row of operations goes up with
every `enter` and down with every `exit`, except that nothing is below zero. A key is `Added` at a
level if an operation put it into the scope of that level and the level has not been lower since,
so that the scope is still the same one.

* `Above.after`      — operations that stay above some scopes leave them as they are.
* `exit_after_enter` — a `Balanced` row in a scope of its own is undone when the scope is closed.
* `holds_after`      — the keys in each scope are those that were added at its level.
* `stack_of_history` — what every operation does to, and finds in, a stack with a history.
-/

namespace Solfege
namespace Scopes

/-! ## What one operation does -/

namespace Operation

def isEnter : Operation → Bool
  | .enter => true
  | _ => false

def isExit : Operation → Bool
  | .exit => true
  | _ => false

end Operation

/-- A declaration is refused and leaves no trace, or it is accepted and its kind recorded. -/
theorem declaration_cases (d : Declaration) (s : Scopes) :
    (∃ violation, d.declare s = (.error violation, s)) ∨
      d.declare s = (.ok (), (s.declare d.kind.sentinel).2) := by
  rw [Declaration.declare]
  split
  · exact .inl ⟨_, rfl⟩
  · split
    · exact .inl ⟨_, rfl⟩
    · exact .inr rfl

theorem declaration_of_error {d : Declaration} {s : Scopes} {violation : Violation}
    (h : (d.declare s).1 = .error violation) : (d.declare s).2 = s := by
  obtain ⟨_, hd⟩ | hd := declaration_cases d s
  · rw [hd]
  · rw [hd] at h
    cases h

/-- Only `enter` and `exit` change which scopes are open. -/
theorem outer_apply {operation : Operation} (henter : operation.isEnter = false)
    (hexit : operation.isExit = false) (s : Scopes) : (s.apply operation).outer = s.outer := by
  cases operation with
  | enter => cases henter
  | exit => cases hexit
  | declare key => exact outer_declare s key
  | declaration d =>
    obtain ⟨_, hd⟩ | hd := declaration_cases d s
    · rw [apply, hd]
    · rw [apply, hd]
      exact outer_declare s _
  | check program => rw [apply, program.checkIn_eq]

theorem after_concat (s : Scopes) (operations : List Operation) (operation : Operation) :
    s.after (operations ++ [operation]) = (s.after operations).apply operation := by
  rw [after, List.foldl_append]
  rfl

/-! ## Rows that close what they open -/

def enters (operations : List Operation) : Nat :=
  operations.countP Operation.isEnter

def exits (operations : List Operation) : Nat :=
  operations.countP Operation.isExit

theorem enters_cons (operation : Operation) (rest : List Operation) :
    enters (operation :: rest) = enters [operation] + enters rest :=
  @List.countP_append _ _ [operation] _

theorem exits_cons (operation : Operation) (rest : List Operation) :
    exits (operation :: rest) = exits [operation] + exits rest :=
  @List.countP_append _ _ [operation] _

structure Balanced (operations : List Operation) : Prop where
  nested : ∀ front, front <+: operations → exits front ≤ enters front
  closed : exits operations = enters operations

theorem balanced_iff {operations : List Operation} : Balanced operations ↔
    (∀ front ∈ operations.inits, exits front ≤ enters front) ∧
      exits operations = enters operations := by
  simp only [List.mem_inits]
  exact ⟨fun h => ⟨h.nested, h.closed⟩, fun h => ⟨h.1, h.2⟩⟩

instance (operations : List Operation) : Decidable (Balanced operations) :=
  decidable_of_iff _ balanced_iff.symm

/-- The scopes `below` are open, and `n` others between them and the innermost one. -/
def Above (below : List (List String)) (n : Nat) (s : Scopes) : Prop :=
  ∃ between, s.outer = between ++ below ∧ between.length = n

section Above

variable {below : List (List String)} {n : Nat} {s : Scopes}

theorem Above.enter (h : s.Above below n) : s.enter.Above below (n + 1) := by
  obtain ⟨between, houter, hlength⟩ := h
  refine ⟨s.inner :: between, ?_, by rw [List.length_cons, hlength]⟩
  rw [Scopes.enter, houter, List.cons_append]

theorem Above.exit (h : s.Above below (n + 1)) : s.exit.Above below n := by
  obtain ⟨between, houter, hlength⟩ := h
  obtain ⟨scope, rest, rfl⟩ := List.exists_cons_of_length_eq_add_one hlength
  refine ⟨rest, ?_, Nat.succ.inj hlength⟩
  rw [Scopes.exit, houter]
  rfl

theorem Above.apply (h : s.Above below n) {operation : Operation}
    (hexit : exits [operation] ≤ n + enters [operation]) :
    ∃ m, m + exits [operation] = n + enters [operation] ∧ (s.apply operation).Above below m := by
  have hother : operation.isEnter = false → operation.isExit = false →
      (s.apply operation).Above below n := by
    intro henter hexit
    rw [Above, outer_apply henter hexit]
    exact h
  cases operation with
  | enter => exact ⟨n + 1, rfl, h.enter⟩
  | exit =>
    obtain ⟨m, rfl⟩ := Nat.exists_eq_add_of_le' hexit
    exact ⟨m, rfl, h.exit⟩
  | declare key => exact ⟨n, rfl, hother rfl rfl⟩
  | declaration d => exact ⟨n, rfl, hother rfl rfl⟩
  | check program => exact ⟨n, rfl, hother rfl rfl⟩

/-- While no more scopes are closed than are open above `below`, the scopes `below` stay as they
were. -/
theorem Above.after (h : s.Above below n) {operations : List Operation}
    (hnested : ∀ front, front <+: operations → exits front ≤ n + enters front) :
    ∃ m, m + exits operations = n + enters operations ∧
      (s.after operations).Above below m := by
  induction operations generalizing s n with
  | nil => exact ⟨n, rfl, h⟩
  | cons operation rest ih =>
    have hfirst := hnested [operation] ((List.prefix_cons_inj operation).mpr List.nil_prefix)
    obtain ⟨m, hm, habove⟩ := h.apply hfirst
    have hrest : ∀ front, front <+: rest → exits front ≤ m + enters front := by
      intro front hfront
      have hlong := hnested (operation :: front) ((List.prefix_cons_inj operation).mpr hfront)
      rw [exits_cons, enters_cons] at hlong
      omega
    obtain ⟨k, hk, hafter⟩ := ih habove hrest
    refine ⟨k, ?_, hafter⟩
    rw [exits_cons, enters_cons]
    omega

end Above

/-- A balanced row in a scope of its own is undone with that scope. -/
theorem exit_after_enter {operations : List Operation} (h : Balanced operations) (s : Scopes) :
    (s.enter.after operations).exit = s := by
  have hstart : s.enter.Above (s.inner :: s.outer) 0 := ⟨[], rfl, rfl⟩
  obtain ⟨m, hm, between, houter, hlength⟩ := hstart.after fun front hfront =>
    (Nat.zero_add (enters front)).symm ▸ h.nested front hfront
  have hnil : between = [] := by
    have := h.closed
    exact List.length_eq_zero_iff.mp (by omega)
  rw [Scopes.exit, houter, hnil]
  rfl

/-! ## Levels -/

/-- The level after one more operation. -/
def Operation.shift (l : Nat) : Operation → Nat
  | .enter => l + 1
  | .exit => l - 1
  | _ => l

/-- The level of the innermost scope. At the outermost one an `exit` has no effect. -/
def level (operations : List Operation) : Nat :=
  operations.foldl Operation.shift 0

theorem level_concat (operations : List Operation) (operation : Operation) :
    level (operations ++ [operation]) = operation.shift (level operations) := by
  rw [level, List.foldl_append]
  rfl

theorem length_outer_apply (s : Scopes) (operation : Operation) :
    (s.apply operation).outer.length = operation.shift s.outer.length := by
  have hother : operation.isEnter = false → operation.isExit = false →
      (s.apply operation).outer.length = s.outer.length := by
    intro henter hexit
    rw [outer_apply henter hexit]
  cases operation with
  | enter => rfl
  | exit =>
    rw [apply, Scopes.exit]
    split
    · rename_i houter
      rw [houter]
      rfl
    · rename_i houter
      rw [houter]
      rfl
  | declare key => exact hother rfl rfl
  | declaration d => exact hother rfl rfl
  | check program => exact hother rfl rfl

theorem length_outer_after (operations : List Operation) :
    (new.after operations).outer.length = level operations := by
  induction operations using List.reverseRecOn with
  | nil => rfl
  | append_singleton operations operation ih =>
    rw [after_concat, length_outer_apply, ih, level_concat]

/-! ## Keys -/

/-- The operation puts the key into the innermost scope, or finds it there. -/
inductive Adds (s : Scopes) : Operation → String → Prop where
  | declare (key : String) : Adds s (.declare key) key
  | declaration {d : Declaration} : (d.declare s).1 = .ok () →
      Adds s (.declaration d) d.kind.sentinel

/-- An operation added the key at level `l`, and the scope that was innermost then is still open:
the level has not been lower since. -/
def Added (operations : List Operation) (key : String) (l : Nat) : Prop :=
  ∃ before operation since, operations = before ++ operation :: since ∧
    (new.after before).Adds operation key ∧ level before = l ∧
    ∀ front, front <+: since → l ≤ level (before ++ operation :: front)

/-- One operation more: it may close the scope, and it may add the key. -/
theorem added_concat {operations : List Operation} {operation : Operation} {key : String}
    {l : Nat} : Added (operations ++ [operation]) key l ↔
      l ≤ level (operations ++ [operation]) ∧
        (Added operations key l ∨
          level operations = l ∧ (new.after operations).Adds operation key) := by
  constructor
  · rintro ⟨before, first, since, heq, hadds, hlevel, hopen⟩
    rcases List.eq_nil_or_concat' since with rfl | ⟨since, last, rfl⟩
    · obtain ⟨rfl, hlast⟩ := List.append_inj' heq rfl
      cases hlast
      exact ⟨hopen [] List.nil_prefix, .inr ⟨hlevel, hadds⟩⟩
    · rw [← List.cons_append, ← List.append_assoc] at heq
      obtain ⟨rfl, hlast⟩ := List.append_inj' heq rfl
      cases hlast
      constructor
      · have hwhole := hopen _ (List.prefix_refl _)
        rwa [← List.cons_append, ← List.append_assoc] at hwhole
      · refine .inl ⟨before, first, since, rfl, hadds, hlevel, fun front hfront => ?_⟩
        exact hopen front (hfront.trans (List.prefix_append _ _))
  · rintro ⟨hle, ⟨before, first, since, rfl, hadds, hlevel, hopen⟩ | ⟨hlevel, hadds⟩⟩
    · refine ⟨before, first, since ++ [operation], by simp, hadds, hlevel, fun front hfront => ?_⟩
      rcases List.prefix_concat_iff.mp hfront with rfl | hfront
      · simpa using hle
      · exact hopen front hfront
    · refine ⟨operations, operation, [], rfl, hadds, hlevel, fun front hfront => ?_⟩
      rw [List.prefix_nil.mp hfront]
      exact hle

/-- The scope of level `l` holds the key. -/
inductive Holds (key : String) : Scopes → Nat → Prop where
  | inner {inner : List String} {outer : List (List String)} : key ∈ inner →
      Holds key ⟨inner, outer⟩ outer.length
  | outer {inner scope : List String} {rest : List (List String)} {l : Nat} :
      Holds key ⟨scope, rest⟩ l → Holds key ⟨inner, scope :: rest⟩ l

section Holds

variable {key : String} {s : Scopes} {l : Nat}

theorem Holds.le (h : Holds key s l) : l ≤ s.outer.length := by
  induction h with
  | inner _ => exact Nat.le_refl _
  | outer _ ih => exact Nat.le_succ_of_le ih

theorem isDeclared_iff : s.isDeclared key = true ↔ Holds key s s.outer.length := by
  obtain ⟨inner, outer⟩ := s
  rw [isDeclared, List.contains_iff_mem]
  constructor
  · exact .inner
  · intro h
    generalize hl : (Scopes.mk inner outer).outer.length = l at h
    cases h with
    | inner hmem => exact hmem
    | outer hrest =>
      have := hrest.le
      simp only [List.length_cons] at hl this
      omega

theorem lookup_iff : s.lookup key = true ↔ ∃ l, Holds key s l := by
  obtain ⟨inner, outer⟩ := s
  induction outer generalizing inner with
  | nil =>
    rw [lookup, List.any_nil, Bool.or_false, isDeclared_iff]
    constructor
    · exact fun h => ⟨0, h⟩
    · rintro ⟨l, h⟩
      have hl := h.le
      rwa [Nat.le_zero.mp hl] at h
  | cons scope rest ih =>
    have hsplit : lookup ⟨inner, scope :: rest⟩ key =
        (isDeclared ⟨inner, scope :: rest⟩ key || lookup ⟨scope, rest⟩ key) := rfl
    rw [hsplit, Bool.or_eq_true, ih, isDeclared_iff]
    constructor
    · rintro (h | ⟨l, h⟩)
      · exact ⟨_, h⟩
      · exact ⟨l, .outer h⟩
    · rintro ⟨l, h⟩
      cases h with
      | inner hmem => exact .inl (.inner hmem)
      | outer hrest => exact .inr ⟨l, hrest⟩

theorem holds_enter : Holds key s.enter l ↔ Holds key s l := by
  constructor
  · rintro (hmem | hrest)
    · cases hmem
    · exact hrest
  · exact .outer

theorem holds_exit : Holds key s.exit l ↔ l ≤ s.exit.outer.length ∧ Holds key s l := by
  obtain ⟨inner, outer⟩ := s
  cases outer with
  | nil => exact ⟨fun h => ⟨h.le, h⟩, And.right⟩
  | cons scope rest =>
    constructor
    · exact fun h => ⟨h.le, .outer h⟩
    · rintro ⟨hle, h⟩
      cases h with
      | inner _ => exact absurd hle (Nat.not_succ_le_self _)
      | outer hrest => exact hrest

/-- The innermost scope apart from the others. -/
theorem holds_iff : Holds key s l ↔
    s.outer.length = l ∧ s.isDeclared key = true ∨ Holds key ⟨[], s.outer⟩ l := by
  constructor
  · intro h
    cases h with
    | inner hmem => exact .inl ⟨rfl, List.contains_iff_mem.mpr hmem⟩
    | outer hrest => exact .inr (.outer hrest)
  · rintro (⟨rfl, hdeclared⟩ | h)
    · exact isDeclared_iff.mp hdeclared
    · obtain ⟨inner, outer⟩ := s
      cases h with
      | inner hmem => cases hmem
      | outer hrest => exact .outer hrest

theorem holds_declare (other : String) :
    Holds key (s.declare other).2 l ↔ Holds key s l ∨ s.outer.length = l ∧ key = other := by
  rw [holds_iff, outer_declare, isDeclared_declare, @holds_iff key s]
  constructor
  · rintro (⟨hl, hkey | hdeclared⟩ | h)
    · exact .inr ⟨hl, hkey⟩
    · exact .inl (.inl ⟨hl, hdeclared⟩)
    · exact .inl (.inr h)
  · rintro ((⟨hl, hdeclared⟩ | h) | ⟨hl, hkey⟩)
    · exact .inl ⟨hl, .inr hdeclared⟩
    · exact .inr h
    · exact .inl ⟨hl, .inl hkey⟩

theorem adds_declare {other : String} : s.Adds (.declare other) key ↔ key = other := by
  constructor
  · rintro ⟨⟩
    rfl
  · rintro rfl
    exact .declare key

theorem adds_declaration {d : Declaration} : s.Adds (.declaration d) key ↔
    (d.declare s).1 = .ok () ∧ key = d.kind.sentinel := by
  constructor
  · rintro ⟨⟩
    rename_i hok
    exact ⟨hok, rfl⟩
  · rintro ⟨hok, rfl⟩
    exact .declaration hok

/-- What a scope holds after an operation: what it held, unless it is closed, and what is added. -/
theorem holds_apply {operation : Operation} : Holds key (s.apply operation) l ↔
    l ≤ (s.apply operation).outer.length ∧
      (Holds key s l ∨ s.outer.length = l ∧ s.Adds operation key) := by
  -- A scope that holds a key is an open one.
  have hle : Holds key (s.apply operation) l ↔
      l ≤ (s.apply operation).outer.length ∧ Holds key (s.apply operation) l :=
    ⟨fun h => ⟨h.le, h⟩, And.right⟩
  rw [hle]
  refine and_congr_right fun hopen => ?_
  have hquiet : ¬ s.Adds operation key →
      (Holds key s l ∨ s.outer.length = l ∧ s.Adds operation key ↔ Holds key s l) :=
    fun hnone => or_iff_left fun hadds => hnone hadds.2
  cases operation with
  | enter => rw [hquiet (by rintro ⟨⟩), apply, holds_enter]
  | exit =>
    rw [hquiet (by rintro ⟨⟩), apply, holds_exit]
    exact and_iff_right hopen
  | declare other => rw [apply, holds_declare, adds_declare]
  | declaration d =>
    rw [apply, adds_declaration]
    obtain ⟨_, hd⟩ | hd := declaration_cases d s
    · simp [hd]
    · rw [hd, holds_declare]
      simp
  | check program => rw [hquiet (by rintro ⟨⟩), apply, program.checkIn_eq]

end Holds

theorem holds_new (key : String) (l : Nat) : ¬ Holds key new l := by
  rintro (hmem | _)
  cases hmem

theorem not_added_nil (key : String) (l : Nat) : ¬ Added [] key l := by
  rintro ⟨before, operation, since, heq, _⟩
  simp at heq

/-- Each scope holds the keys that were added at its level. -/
theorem holds_after {operations : List Operation} {key : String} {l : Nat} :
    Holds key (new.after operations) l ↔ Added operations key l := by
  induction operations using List.reverseRecOn with
  | nil => exact iff_of_false (holds_new key l) (not_added_nil key l)
  | append_singleton operations operation ih =>
    rw [added_concat, ← length_outer_after, ← length_outer_after, after_concat, holds_apply, ih]

/-- After any history a row of operations that closes as many scopes as it opens, and at no point
more, is undone by the scope around it. There is always a scope; a key is found if it was added in
one that is still open, and found in the innermost one if it was added there. Declaring a key says
whether it is new to that scope, and a declaration that is refused records nothing. -/
theorem stack_of_history (history : List Operation) :
    (∀ operations, Balanced operations →
      new.after (history ++ .enter :: operations ++ [.exit]) = new.after history) ∧
    1 ≤ (new.after history).depth ∧ (new.after history).depth = level history + 1 ∧
    (∀ key, (new.after history).lookup key = true ↔ ∃ l, Added history key l) ∧
    (∀ key, (new.after history).isDeclared key = true ↔ Added history key (level history)) ∧
    (∀ key, ((new.after history).declare key).1 = true ↔
      (new.after history).isDeclared key = false) ∧
    ∀ (d : Declaration) (violation : Violation),
      (d.declare (new.after history)).1 = .error violation →
        (d.declare (new.after history)).2 = new.after history := by
  have hlength := length_outer_after history
  refine ⟨?_, Nat.succ_pos _, congrArg (· + 1) hlength, ?_, ?_, ?_, ?_⟩
  · intro operations hbalanced
    rw [after_concat, after, List.foldl_append]
    exact exit_after_enter hbalanced (new.after history)
  · intro key
    simp only [lookup_iff, holds_after]
  · intro key
    rw [isDeclared_iff, hlength, holds_after]
  · intro key
    rw [fst_declare, Bool.not_eq_true']
  · intro d violation
    exact declaration_of_error

/-- An `exit` that closes nothing, and a tempo inside a scope. -/
def inside : List Operation :=
  [.exit, .declare "__key__", .enter, .declaration (.tempo 60)]

/-- A tempo in a scope of its own, where another one is refused, and a check that fails. -/
def visit : List Operation :=
  [.declaration (.tempo 75), .enter, .declare "__key__", .exit, .declaration (.tempo 90), .check {}]

theorem stack_of_history_visit :
    Balanced visit ∧ new.after (inside ++ .enter :: visit ++ [.exit]) = new.after inside ∧
      ((Declaration.tempo 90).declare (new.after inside)).1 = .error (.duplicate .tempo) ∧
      ((Declaration.tempo 90).declare (new.after inside)).2 = new.after inside := by
  have hbalanced : Balanced visit := by decide
  have hrefused : ((Declaration.tempo 90).declare (new.after inside)).1 =
      .error (.duplicate .tempo) := by
    decide
  obtain ⟨hundone, _, _, _, _, _, hunchanged⟩ := stack_of_history inside
  exact ⟨hbalanced, hundone visit hbalanced, hrefused, hunchanged _ _ hrefused⟩

end Scopes
end Solfege
