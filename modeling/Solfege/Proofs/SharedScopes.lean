import Solfege.Validation

/-!
# Solfege.Proofs.SharedScopes

Programs checked in a stack of scopes that others use too.

A check works in a scope that it opens on top of the stack. Whatever it does there, up to the
violation it stops at, is the same on top of any stack and leaves the scopes below alone
(`checkHere_atop`). Closing the scope therefore gives the stack back, and the verdict is that of a
check with nothing below (`checkIn_eq`).

* `Scopes.Operation` — what the users of a stack can do to it; `Scopes.after` runs a row of them.
* `checkIn_transparent` — in every stack that operations can build, a check gives the verdict of
  the program alone and is not noticed by anyone else.
-/

namespace Solfege

/-! ## On top of other scopes -/

namespace Scopes

/-- The innermost scope on top of the given ones. -/
def atop (s : Scopes) (outer : List (List String)) : Scopes :=
  { s with outer := outer }

variable (s : Scopes) (outer : List (List String))

@[simp] theorem isDeclared_atop (key : String) : (s.atop outer).isDeclared key = s.isDeclared key :=
  rfl

theorem declare_atop (key : String) :
    (s.atop outer).declare key = ((s.declare key).1, (s.declare key).2.atop outer) := by
  rw [declare, declare, isDeclared_atop]
  by_cases h : s.isDeclared key = true
  · rw [if_pos h, if_pos h]
  · rw [if_neg h, if_neg h]
    rfl

theorem enter_eq_atop : s.enter = new.enter.atop (s.inner :: s.outer) := rfl

end Scopes

section Atop

variable (s : Scopes) (outer : List (List String))

theorem Declaration.declare_atop (d : Declaration) :
    d.declare (s.atop outer) = ((d.declare s).1, (d.declare s).2.atop outer) := by
  simp only [declare, Scopes.isDeclared_atop, Scopes.declare_atop]
  split
  · rfl
  · split <;> rfl

/-- The row stops at the same declaration, with the same scope on top. -/
theorem declareAll_atop (ds : List Declaration) :
    declareAll ds (s.atop outer) = ((declareAll ds s).1, (declareAll ds s).2.atop outer) := by
  induction ds generalizing s with
  | nil => rfl
  | cons d rest ih =>
    simp only [declareAll, Declaration.declare_atop]
    obtain ⟨verdict, after⟩ := d.declare s
    cases verdict with
    | error violation => rfl
    | ok _ => exact ih after

theorem checkMissing_atop : checkMissing (s.atop outer) = checkMissing s := rfl

theorem Program.checkHere_atop (program : Program) :
    program.checkHere (s.atop outer) =
      ((program.checkHere s).1, (program.checkHere s).2.atop outer) := by
  simp only [checkHere, declareAll_atop]
  obtain ⟨verdict, after⟩ := declareAll program.declarations s
  cases verdict with
  | error violation => rfl
  | ok _ =>
    simp only [checkMissing_atop]
    cases checkNotes program.notes <;> rfl

end Atop

theorem Program.checkIn_eq (program : Program) (scopes : Scopes) :
    program.checkIn scopes = (program.check, scopes) := by
  have hhere := program.checkHere_atop Scopes.new.enter (scopes.inner :: scopes.outer)
  rw [checkIn, Scopes.enter_eq_atop, hhere]
  rfl

/-! ## Stacks that operations build -/

namespace Scopes

inductive Operation where
  | enter
  | exit
  | declare (key : String)
  | declaration (declaration : Declaration)
  | check (program : Program)

def apply (s : Scopes) : Operation → Scopes
  | .enter => s.enter
  | .exit => s.exit
  | .declare key => (s.declare key).2
  | .declaration d => (d.declare s).2
  | .check program => (program.checkIn s).2

/-- The stack after operations, whatever their verdicts. -/
def after (s : Scopes) (operations : List Operation) : Scopes :=
  operations.foldl apply s

def Operation.isCheck : Operation → Bool
  | .check _ => true
  | _ => false

theorem apply_of_isCheck {operation : Operation} (h : operation.isCheck = true) (s : Scopes) :
    s.apply operation = s := by
  cases operation with
  | check program => rw [apply, program.checkIn_eq]
  | enter => cases h
  | exit => cases h
  | declare key => cases h
  | declaration d => cases h

theorem after_filter (s : Scopes) (operations : List Operation) :
    s.after (operations.filter (!·.isCheck)) = s.after operations := by
  induction operations generalizing s with
  | nil => rfl
  | cons operation rest ih =>
    cases hcheck : operation.isCheck with
    | true =>
      rw [List.filter_cons_of_neg (by simp [hcheck]), ih]
      show s.after rest = (s.apply operation).after rest
      rw [apply_of_isCheck hcheck]
    | false =>
      rw [List.filter_cons_of_pos (by simp [hcheck])]
      exact ih (s.apply operation)

end Scopes

/-- After any operations, sentinels declared by hand included, the check of a program gives the
verdict that it gives on its own and leaves every scope with the keys it had. Hence the checks in a
row of operations may be left out without a trace. -/
theorem Scopes.checkIn_transparent (operations : List Operation) :
    (∀ program : Program, program.checkIn (new.after operations) =
      (program.check, new.after operations)) ∧
    new.after operations = new.after (operations.filter (!·.isCheck)) :=
  ⟨fun program => program.checkIn_eq (new.after operations), (after_filter new operations).symm⟩

end Solfege
