/-!
# Solfege.Text.Line

Cutting a text into lines and putting lines together again.

* `split` — the stretches between line breaks; there is one more of them than breaks.
* `lines` — the lines of a file: a line ends at its break, with or without a carriage return
  before it, and the empty stretch after a final break is no line.
* `join`  — lines with one break between neighbours.
-/

namespace Solfege
namespace Text

def split (text : List Char) : List (List Char) :=
  text.foldr
    (fun c stretches =>
      if c = '\n' then [] :: stretches
      else
        match stretches with
        | [] => [[c]]
        | first :: rest => (c :: first) :: rest)
    [[]]

/-- The stretch without one carriage return at its end. -/
def dropReturn (stretch : List Char) : List Char :=
  if stretch.getLast? = some '\r' then stretch.dropLast else stretch

/-- The lines among the stretches. Only one that a break ends loses its carriage return. -/
def ofStretches : List (List Char) → List (List Char)
  | [] => []
  | [last] => if last = [] then [] else [last]
  | stretch :: rest => dropReturn stretch :: ofStretches rest

def lines (text : List Char) : List (List Char) :=
  ofStretches (split text)

def join (ls : List (List Char)) : List Char :=
  ['\n'].intercalate ls

end Text
end Solfege
