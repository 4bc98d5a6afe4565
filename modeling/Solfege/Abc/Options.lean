import Solfege.Clock

/-!
# Solfege.Abc.Options

How a program is written: under which title, and where its bars fall.
-/

namespace Solfege
namespace Abc

/-- Where bars fall: by the meter in force, or every so many beats from beat zero. -/
inductive Bars (β : Type) where
  | byMeter
  | every (length : β)

structure Options (β : Type) where
  title : String
  bars : Bars β

def defaultTitle : String := "Generated"

namespace Options

variable {β : Type}

def default : Options β := ⟨defaultTitle, .byMeter⟩

def ofMetadata [Beat β] (metadata : Metadata) : Options β :=
  { title := metadata.title.getD defaultTitle
    bars :=
      match metadata.barBeats with
      | some beats => .every (Beat.ofFloat beats)
      | none => .byMeter }

end Options

namespace Bars

variable {β : Type} [Beat β]

/-- The clock after a time signature: bars at a fixed distance take no notice of it. -/
def meter (bars : Bars β) (clock : Clock β) (length : β) : Clock β :=
  match bars with
  | .byMeter => clock.setMeter length
  | .every _ => clock

/-- The grid of a piece whose header leaves the clock as given. -/
def grid (bars : Bars β) (clock : Clock β) : Option (Grid β) :=
  match bars with
  | .byMeter => clock.measure.map fun length => ⟨clock.origin, length⟩
  | .every length => some ⟨Beat.zero, length⟩

end Bars
end Abc
end Solfege
