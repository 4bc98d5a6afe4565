import Solfege.Abc.Emission
import Solfege.Source
import Solfege.Validation

/-!
# Solfege.Compile

From a source to ABC notation.

* `compile`          — read, check and write.
* `compileUnchecked` — read and write.
* `Score.append`     — compile a fragment and add it to a score. A fragment that is refused leaves
  the score as it is.

Beside each stands the list of events that it reports.
-/

namespace Solfege

variable [FrontMatter.Reader]

def accept (source : String) : Except Error Program :=
  match parse source with
  | .error error => .error error
  | .ok program =>
    match program.check with
    | .error violation => .error (.semantic violation)
    | .ok () => .ok program

def compile (source : String) : Except Error String :=
  (accept source).map Program.toAbc

def compileUnchecked (source : String) : Except Error String :=
  (parse source).map Program.toAbc

/-- A text under way and the clock at its end. -/
structure Score (β : Type) where
  text : String
  clock : Clock β

namespace Score

variable {β : Type} [Beat β]

def new : Score β := ⟨"", .start⟩

/-- What a program adds to a score at the given clock. -/
def addition (clock : Clock β) (program : Program) : Abc.Outcome β :=
  Abc.emit none (.ofMetadata program.metadata) clock program

/-- Add a fragment. What has been written by the time the text is refused stays written. -/
def append (score : Score β) (source : String) : Except Error Unit × Score β :=
  match accept source with
  | .error error => (.error error, score)
  | .ok program =>
    let added := addition score.clock program
    (if added.complete then .ok () else .error .output,
      ⟨score.text ++ added.text, added.clock⟩)

end Score

namespace Event

variable {β : Type}

def ofAccept (source : String) : List (Event β) :=
  match parse source with
  | .error _ => []
  | .ok program => Event.ofParse (.ok program) ++ [Event.ofCheck program program.check]

def ofCompile [Beat β] (source : String) : List (Event β) :=
  ofAccept source ++
    match accept source with
    | .error _ => []
    | .ok program => (Abc.emission program).events

def ofCompileUnchecked [Beat β] (source : String) : List (Event β) :=
  match parse source with
  | .error _ => []
  | .ok program => Event.ofParse (.ok program) ++ (Abc.emission program).events

def ofAppend [Beat β] (clock : Clock β) (source : String) : List (Event β) :=
  ofAccept source ++
    match accept source with
    | .error _ => []
    | .ok program => (Score.addition clock program).events

end Event
end Solfege
