import Solfege.FrontMatter.Metadata
import Solfege.Item

/-!
# Solfege.Source

Reading a whole source.

* `tokenize` — the lexemes of the music, at their places in the source. Front matter is skipped
  without a look at what it says.
* `parse`    — the program. Metadata comes first, then lexemes, then items, and the first of the
  three that fails gives the error.
-/

namespace Solfege

/-- The program of a music text without front matter. -/
def parseMusic (metadata : Metadata) (music : List Char) : Except Fault Program :=
  match lex music with
  | .error fault => .error fault
  | .ok lexemes =>
    match (LexemeCursor.start lexemes).items with
    | .error fault => .error fault
    | .ok items => .ok (Program.ofItems metadata items)

def tokenize (source : String) : Except Fault (List Lexeme) :=
  lex (FrontMatter.divide source.toList).2

variable [FrontMatter.Reader]

/-- The metadata of a block, if there is one. -/
def metadataOf : Option (List Char) → Except MetadataFault Metadata
  | none => .ok {}
  | some content => Metadata.ofContent content

def parse (source : String) : Except Error Program :=
  let (content, music) := FrontMatter.divide source.toList
  match metadataOf content with
  | .error fault => .error (.metadata fault)
  | .ok metadata =>
    match parseMusic metadata music with
    | .error fault => .error (.parse fault)
    | .ok program => .ok program

end Solfege
