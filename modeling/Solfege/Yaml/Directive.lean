import Solfege.Yaml.Tag

/-!
# Solfege.Yaml.Directive

The lines before a document that start with a percent sign.

* `Directive`       — the version of the text, or what a tag handle expands to.
* `Directive.read?` — the directive on a line, and the text after the line.
-/

namespace Solfege
namespace Yaml

inductive Directive where
  | version
  | tagHandle (handle : List Char) (expansion : Tag)
  deriving DecidableEq, Repr

namespace Directive

def name? (text : List Cell) : Option (List Char × List Cell) :=
  let name := text.takeWhile fun cell => Tag.isNameChar cell.char
  let rest := text.drop name.length
  if name.isEmpty || !atSpace rest then none else some (name.map Cell.char, rest)

def number? (text : List Cell) : Option (Nat × List Cell) :=
  let digits := text.takeWhile fun cell => cell.char.isDigit
  if digits.isEmpty || 9 < digits.length then none
  else
    let value := digits.foldl (fun n cell => 10 * n + (cell.char.toNat - '0'.toNat)) 0
    some (value, text.drop digits.length)

def version? (text : List Cell) : Option (Directive × List Cell) :=
  match number? (text.dropWhile Cell.blank) with
  | none => none
  | some (major, rest) =>
    if startsWith ['.'] rest then
      match number? (rest.drop 1) with
      | none => none
      | some (minor, rest) =>
        if major = 1 ∧ (minor = 1 ∨ minor = 2) then some (.version, rest) else none
    else none

/-- A handle and its expansion, with blanks between them. The handle is closed, or is the
exclamation mark alone. -/
def tagHandle? (text : List Cell) : Option (Directive × List Cell) :=
  match Tag.handle? (text.dropWhile Cell.blank) with
  | none => none
  | some (handle, rest) =>
    if (Tag.isClosed handle || handle = ['!']) && rest.head?.any Cell.blank then
      let (chars, rest) := Tag.uri true (rest.dropWhile Cell.blank)
      match Tag.octets? 0 chars with
      | none => none
      | some octets =>
        if chars.isEmpty || !atSpace rest then none
        else some (.tagHandle handle (Tag.upToZero octets), rest)
    else none

def read? (text : List Cell) : Option (Directive × List Cell) :=
  match name? text with
  | none => none
  | some (name, rest) =>
    let found :=
      if name = "YAML".toList then version? rest
      else if name = "TAG".toList then tagHandle? rest
      else none
    match found with
    | none => none
    | some (directive, rest) => (endLine? rest).map fun rest => (directive, rest)

end Directive
end Yaml
end Solfege
