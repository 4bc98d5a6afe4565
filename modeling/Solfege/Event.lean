import Solfege.Clock
import Solfege.Error

/-!
# Solfege.Event

What a run reports as it goes: how a source was read, how a program was judged, where a meter
changed and where bars fell. Every event has a level and a topic; the wording is in `message`.
-/

namespace Solfege

inductive Level where
  | info
  | debug
  | trace
  deriving DecidableEq, Repr

def Level.name : Level → String
  | .info => "INFO"
  | .debug => "DEBUG"
  | .trace => "TRACE"

inductive Event (β : Type) where
  | parsed (declarations notes : Nat)
  | accepted (declarations notes : Nat)
  | rejected (violation : Violation)
  | meterChange (beats : β)
  | bar (beats : β)
  | compiling (path : String)
  | wrote (path : String)

namespace Event

variable {β : Type}

def level : Event β → Level
  | .parsed _ _ => .debug
  | .accepted _ _ => .debug
  | .rejected _ => .debug
  | .meterChange _ => .debug
  | .bar _ => .trace
  | .compiling _ => .info
  | .wrote _ => .info

def topic : Event β → String
  | .parsed _ _ => "musica::parser"
  | .accepted _ _ => "musica::semantic"
  | .rejected _ => "musica::semantic"
  | .meterChange _ => "musica::abc"
  | .bar _ => "musica::abc"
  | .compiling _ => "musica"
  | .wrote _ => "musica"

def counted (verb : String) (declarations notes : Nat) : String :=
  verb ++ " " ++ declarations.repr ++ " declarations and " ++ notes.repr ++ " statements"

def message : Event Float → String
  | .parsed declarations notes => counted "parsed" declarations notes
  | .accepted declarations notes => counted "resolved" declarations notes
  | .rejected violation => "semantic analysis failed: " ++ violation.message
  | .meterChange beats => "meter change at beat " ++ Decimal.text beats
  | .bar beats => "bar at beat " ++ Decimal.text beats
  | .compiling path => "compiling " ++ path
  | .wrote path => "wrote ABC to " ++ path

/-- The event of reading a source: only success is reported. -/
def ofParse : Except Error Program → List (Event β)
  | .error _ => []
  | .ok program => [.parsed program.declarations.length program.notes.length]

/-- The event of judging a program. -/
def ofCheck (program : Program) : Except Violation Unit → Event β
  | .error violation => .rejected violation
  | .ok () => .accepted program.declarations.length program.notes.length

end Event
end Solfege
