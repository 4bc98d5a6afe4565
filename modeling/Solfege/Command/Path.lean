/-!
# Solfege.Command.Path

Paths as they are written: components between slashes.

* `components` — all of them, empty ones and dots included.
* `extension?` — what follows the last dot of the file name. A dot at the start of a name does not
  begin an extension.
-/

namespace Solfege
namespace Command
namespace Path

/-- The stretches between slashes. -/
def components (path : String) : List (List Char) :=
  path.toList.foldr
    (fun c stretches =>
      if c = '/' then [] :: stretches
      else
        match stretches with
        | [] => [[c]]
        | first :: rest => (c :: first) :: rest)
    [[]]

def isHere (component : List Char) : Bool :=
  component = [] || component = ['.']

def isUp (component : List Char) : Bool :=
  component = ['.', '.']

def fileName? (path : String) : Option (List Char) :=
  match ((components path).filter (!isHere ·)).getLast? with
  | none => none
  | some name => if isUp name then none else some name

def extension? (path : String) : Option (List Char) :=
  match fileName? path with
  | none => none
  | some name =>
    let ending := (name.reverse.takeWhile (· ≠ '.')).reverse
    if ending.length + 1 < name.length then some ending else none

end Path
end Command
end Solfege
