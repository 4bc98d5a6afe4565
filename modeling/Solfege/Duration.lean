/-!
# Solfege.Duration

The four note lengths, with their names in a source and their length in sixteenth notes.
-/

namespace Solfege

inductive Duration where
  | sixteenth
  | eighth
  | quarter
  | half
  deriving DecidableEq, Repr

namespace Duration

def name : Duration → String
  | .sixteenth => "Semicorchea"
  | .eighth => "Corchea"
  | .quarter => "Negra"
  | .half => "Blanca"

def sixteenths : Duration → Nat
  | .sixteenth => 1
  | .eighth => 2
  | .quarter => 4
  | .half => 8

end Duration
end Solfege
