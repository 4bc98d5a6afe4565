import Solfege.Text.Blank
import Solfege.Text.Line

/-!
# Solfege.FrontMatter

Front matter: a block of lines between two delimiters, anywhere in a source. A delimiter is a line
that trims to `---`, and only the first two count.

Taking the block out leaves as many empty lines, so that every line of music keeps its number.

* `cut?`   — the lines before, inside and after the block.
* `divide` — the content of the block and the music around it.
-/

namespace Solfege
namespace FrontMatter

def isDelimiter (line : List Char) : Bool :=
  Text.trim line = ['-', '-', '-']

structure Cut where
  before : List (List Char)
  inside : List (List Char)
  after : List (List Char)
  deriving DecidableEq

def cut? (lines : List (List Char)) : Option Cut :=
  match lines.dropWhile (!isDelimiter ·) with
  | [] => none
  | _ :: rest =>
    match rest.dropWhile (!isDelimiter ·) with
    | [] => none
    | _ :: after =>
      some ⟨lines.takeWhile (!isDelimiter ·), rest.takeWhile (!isDelimiter ·), after⟩

namespace Cut

def content (cut : Cut) : List Char :=
  Text.join cut.inside

/-- The music, with an empty line for each line of the block and for each delimiter. -/
def music (cut : Cut) : List Char :=
  Text.join (cut.before ++ List.replicate (cut.inside.length + 2) [] ++ cut.after)

end Cut

/-- The content of the block, if there is one, and the music. A source without a block is all
music and stays as it is. -/
def divide (source : List Char) : Option (List Char) × List Char :=
  match cut? (Text.lines source) with
  | none => (none, source)
  | some cut => (some cut.content, cut.music)

end FrontMatter
end Solfege
