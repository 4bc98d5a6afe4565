import Solfege.Text.Hexadecimal
import Solfege.Yaml.Cell

/-!
# Solfege.Yaml.Tag

The tags of nodes, written in the characters of a URI.

A tag is a row of octets. A character stands for its own octet, and `%` with two hexadecimal digits
for the octet with that value; octets from 0x80 on come only in groups of a leading one and the
trailing ones that it calls for. A zero octet ends the tag early. What is left of a tag may be its
exclamation mark alone, which is a tag like any other: the null under `! ~` or `!%00x ~` is a text.

* `Tag`                — a full tag.
* `Tag.octets?`        — the octets that the characters of a tag stand for.
* `Tag.handle?`        — a handle, which stands for the start of a tag.
* `WrittenTag`         — a tag as written, after a handle or in full.
* `WrittenTag.expand?` — the full tag, `none` if its handle has no expansion.
-/

namespace Solfege
namespace Yaml

abbrev Tag := List UInt8

namespace Tag

def isNameChar (c : Char) : Bool :=
  c.isAlphanum || c = '_' || c = '-'

/-- Characters of a tag; commas and brackets only where the tag is delimited. -/
def isUriChar (delimited : Bool) (c : Char) : Bool :=
  isNameChar c || ";/?:@&=+$.!~*'()%".toList.contains c ||
    (delimited && (c = ',' || c = '[' || c = ']'))

def octet (c : Char) : UInt8 := UInt8.ofNat c.toNat

def ofString (text : String) : Tag := text.toList.map octet

def trailing? (octet : Nat) : Option Nat :=
  if octet < 0x80 then some 0
  else if octet < 0xc0 then none
  else if octet < 0xe0 then some 1
  else if octet < 0xf0 then some 2
  else if octet < 0xf8 then some 3
  else none

/-- What is owed after an octet when `owed` trailing octets were due before it. -/
def owedAfter? (owed octet : Nat) : Option Nat :=
  match owed with
  | 0 => trailing? octet
  | owed + 1 => if 0x80 ≤ octet ∧ octet < 0xc0 then some owed else none

def octets? (owed : Nat) : List Char → Option (List UInt8)
  | [] => if owed = 0 then some [] else none
  | '%' :: high :: low :: rest =>
    match Text.hexValue? [high, low] with
    | none => none
    | some octet =>
      match owedAfter? owed octet with
      | none => none
      | some owed => (octets? owed rest).map (UInt8.ofNat octet :: ·)
  | '%' :: _ => none
  | c :: rest =>
    if owed = 0 then (octets? owed rest).map (octet c :: ·) else none

def upToZero (octets : List UInt8) : Tag :=
  octets.takeWhile (· ≠ 0)

def uri (delimited : Bool) (text : List Cell) : List Char × List Cell :=
  let found := text.takeWhile fun cell => isUriChar delimited cell.char
  (found.map Cell.char, text.drop found.length)

def handle? (text : List Cell) : Option (List Char × List Cell) :=
  if startsWith ['!'] text then
    let name := (text.drop 1).takeWhile fun cell => isNameChar cell.char
    let rest := (text.drop 1).drop name.length
    if startsWith ['!'] rest then some ('!' :: name.map Cell.char ++ ['!'], rest.drop 1)
    else some ('!' :: name.map Cell.char, rest)
  else none

def isClosed (handle : List Char) : Bool :=
  1 < handle.length && handle.getLast? = some '!'

end Tag

structure WrittenTag where
  handle : Option (List Char)
  suffix : Tag
  deriving DecidableEq, Repr

namespace WrittenTag

def verbatim? (text : List Cell) : Option (WrittenTag × List Cell) :=
  let (chars, rest) := Tag.uri true (text.drop 2)
  match Tag.octets? 0 chars with
  | none => none
  | some octets =>
    if chars.isEmpty || !startsWith ['>'] rest then none
    else some (⟨none, Tag.upToZero octets⟩, rest.drop 1)

/-- A tag after a handle. The name of a handle that is not closed belongs to the tag, and an
exclamation mark with nothing after it is a tag in full. -/
def shorthand? (text : List Cell) : Option (WrittenTag × List Cell) :=
  match Tag.handle? text with
  | none => none
  | some (handle, rest) =>
    let (chars, rest) := Tag.uri false rest
    let closed := Tag.isClosed handle
    match Tag.octets? 0 (if closed then chars else handle.drop 1 ++ chars) with
    | none => none
    | some octets =>
      let suffix := Tag.upToZero octets
      if closed then if chars.isEmpty then none else some (⟨some handle, suffix⟩, rest)
      else if suffix.isEmpty then some (⟨none, [Tag.octet '!']⟩, rest)
      else some (⟨some ['!'], suffix⟩, rest)

/-- The tag at the start of a text, which a space ends, or inside brackets a comma. -/
def read? (flow : Bool) (text : List Cell) : Option (WrittenTag × List Cell) :=
  match if startsWith ['!', '<'] text then verbatim? text else shorthand? text with
  | none => none
  | some (tag, rest) =>
    if atSpace rest || (flow && startsWith [','] rest) then some (tag, rest) else none

def expand? (tag : WrittenTag) (handles : List (List Char × Tag)) : Option Tag :=
  match tag.handle with
  | none => some tag.suffix
  | some handle => (handles.lookup handle).map (· ++ tag.suffix)

end WrittenTag
end Yaml
end Solfege
