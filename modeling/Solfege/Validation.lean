import Solfege.Error
import Solfege.Scopes

/-!
# Solfege.Validation

The rules of a program: each kind of declaration exactly once, with a value in range, and notes
with a known name and an octave in range.

Declarations are checked first, a repeated kind before its value; then the notes, a name before
its octave; then whether a kind is missing. The first violation is reported.

* `declare` — check one declaration and record its kind in the innermost scope.
* `checkIn` — check a program in a scope of its own.
* `check`   — check a program.
-/

namespace Solfege

namespace Declaration

def checkValue : Declaration → Except ValueFault Unit
  | .tempo bpm => if 20 ≤ bpm ∧ bpm ≤ 200 then .ok () else .error (.bpm bpm)
  | .timeSignature numerator denominator =>
    if numerator ≤ 1 ∨ 12 < numerator then .error (.numerator numerator)
    else if denominator = 2 ∨ denominator = 4 ∨ denominator = 8 ∨ denominator = 16 then .ok ()
    else .error (.denominator denominator)
  | .key root _ => if (PitchClass.ofName? root).isSome then .ok () else .error (.root root)

/-- The verdict on the declaration, and the scopes after it. A refused one records nothing. -/
def declare (declaration : Declaration) (scopes : Scopes) : Except Violation Unit × Scopes :=
  if scopes.isDeclared declaration.kind.sentinel then
    (.error (.duplicate declaration.kind), scopes)
  else
    match declaration.checkValue with
    | .error fault => (.error (.value fault), scopes)
    | .ok () => (.ok (), (scopes.declare declaration.kind.sentinel).2)

end Declaration

def Note.check (note : Note) : Except Violation Unit :=
  if (PitchClass.ofName? note.name).isNone then .error (.note (.name note))
  else if 0 ≤ note.octave ∧ note.octave ≤ 8 then .ok ()
  else .error (.note (.octave note))

def declareAll : List Declaration → Scopes → Except Violation Unit × Scopes
  | [], scopes => (.ok (), scopes)
  | declaration :: rest, scopes =>
    match declaration.declare scopes with
    | (.error violation, scopes) => (.error violation, scopes)
    | (.ok (), scopes) => declareAll rest scopes

def checkNotes : List Note → Except Violation Unit
  | [] => .ok ()
  | note :: rest =>
    match note.check with
    | .error violation => .error violation
    | .ok () => checkNotes rest

def checkMissing (scopes : Scopes) : Except Violation Unit :=
  match Kind.all.find? fun kind => !scopes.isDeclared kind.sentinel with
  | some kind => .error (.missing kind)
  | none => .ok ()

namespace Program

/-- The check within the innermost scope, which keeps what was declared before a violation. -/
def checkHere (program : Program) (scopes : Scopes) : Except Violation Unit × Scopes :=
  match declareAll program.declarations scopes with
  | (.error violation, scopes) => (.error violation, scopes)
  | (.ok (), scopes) =>
    match checkNotes program.notes with
    | .error violation => (.error violation, scopes)
    | .ok () => (checkMissing scopes, scopes)

/-- The check in a new scope, which is closed again whatever the verdict. -/
def checkIn (program : Program) (scopes : Scopes) : Except Violation Unit × Scopes :=
  let (verdict, scopes) := program.checkHere scopes.enter
  (verdict, scopes.exit)

def check (program : Program) : Except Violation Unit :=
  (program.checkIn .new).1

end Program
end Solfege
