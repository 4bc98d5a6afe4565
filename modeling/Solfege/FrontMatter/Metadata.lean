import Solfege.Error
import Solfege.FrontMatter

/-!
# Solfege.FrontMatter.Metadata

The metadata that a front matter block writes: an optional title and an optional distance between
bars, which has to be finite and positive.

What a block looks like is the concern of a `Reader`. Everything that reads sources is written, and
everything about it proved, for any reader there may be.

* `Reader`             — the fields of a block, or why they cannot be read.
* `Metadata.ofContent` — the metadata of a block, or why there is none.
-/

namespace Solfege

/-- A reader of blocks. Why it refuses a block it says in its own words. -/
class FrontMatter.Reader where
  read : List Char → Except String Metadata

namespace Metadata

/-- A distance between bars is finite and positive. -/
def check (metadata : Metadata) : Except MetadataFault Metadata :=
  match metadata.barBeats with
  | none => .ok metadata
  | some beats =>
    if beats.isFinite && decide ((0 : Float) < beats) then .ok metadata
    else .error (.barBeats beats)

def ofContent [FrontMatter.Reader] (content : List Char) : Except MetadataFault Metadata :=
  if Text.trim content = [] then .ok {}
  else
    match FrontMatter.Reader.read content with
    | .error reason => .error (@MetadataFault.unreadable reason)
    | .ok metadata => check metadata

end Metadata
end Solfege
