/-!
# Solfege.Scopes

A stack of scopes, each a set of keys. The outermost scope is always there: closing it leaves the
stack as it is.

* `isDeclared` — the innermost scope holds the key.
* `lookup`     — some open scope holds the key.
* `declare`    — put a key into the innermost scope.
-/

namespace Solfege

/-- Each scope lists its keys once, latest first. -/
structure Scopes where
  inner : List String := []
  outer : List (List String) := []
  deriving DecidableEq, Repr

namespace Scopes

def new : Scopes := {}

def enter (s : Scopes) : Scopes :=
  ⟨[], s.inner :: s.outer⟩

def exit (s : Scopes) : Scopes :=
  match s.outer with
  | [] => s
  | scope :: rest => ⟨scope, rest⟩

def depth (s : Scopes) : Nat :=
  s.outer.length + 1

def isDeclared (s : Scopes) (key : String) : Bool :=
  s.inner.contains key

def lookup (s : Scopes) (key : String) : Bool :=
  s.isDeclared key || s.outer.any (·.contains key)

/-- The flag tells whether the key is new to the innermost scope. -/
def declare (s : Scopes) (key : String) : Bool × Scopes :=
  if s.isDeclared key then (false, s) else (true, { s with inner := key :: s.inner })

@[simp] theorem exit_enter (s : Scopes) : s.enter.exit = s := rfl

@[simp] theorem depth_enter (s : Scopes) : s.enter.depth = s.depth + 1 := rfl

@[simp] theorem isDeclared_enter (s : Scopes) (key : String) : s.enter.isDeclared key = false := rfl

@[simp] theorem outer_declare (s : Scopes) (key : String) : (s.declare key).2.outer = s.outer := by
  simp only [declare]
  split <;> rfl

theorem fst_declare (s : Scopes) (key : String) : (s.declare key).1 = !s.isDeclared key := by
  simp only [declare]
  split <;> simp_all

end Scopes
end Solfege
