import Solfege.Command.Run

/-!
# Solfege.Main

The command on real files. Everything but the reading and writing is decided in
`Solfege.Command.Run`.
-/

namespace Solfege
namespace Command

/-- The number of a system error. Some are reported with their sign turned. -/
def errorNumber (code : UInt32) : Nat :=
  if code < 0x80000000 then code.toNat else (0 - code).toNat

def FileFault.ofNumber? : Nat → Option FileFault
  | 2 => some .missing
  | 20 => some .notDirectory
  | 21 => some .isDirectory
  | 36 => some .nameTooLong
  | _ => none

def FileFault.ofError (error : IO.Error) : FileFault :=
  let number :=
    match error with
    | .noFileOrDirectory _ code _ => errorNumber code
    | .inappropriateType _ code _ => errorNumber code
    | .invalidArgument _ code _ => errorNumber code
    | _ => 0
  (ofNumber? number).getD (.device error.toString)

def attempt {α : Type} (action : IO α) : IO (Except FileFault α) := do
  try
    let value ← action
    return .ok value
  catch error => return .error (.ofError error)

def Reply.print (reply : Reply) : IO UInt32 := do
  (← IO.getStdout).putStr reply.stdout
  (← IO.getStderr).putStr reply.stderr
  return reply.exit.toUInt32

def Invocation.perform (i : Invocation) : IO UInt32 := do
  if i.hasInputExtension then
    match (← attempt (IO.FS.readBinFile i.input)).bind textOf with
    | .error fault => (i.unreadable fault).print
    | .ok source =>
      match i.plan source with
      | .answer reply => (i.logged (i.events source) reply).print
      | .save path text =>
        let outcome ← attempt (IO.FS.writeBinFile path text.toUTF8)
        (i.saved source path outcome).print
  else badExtension.print

end Command
end Solfege

open Solfege.Command in
def main (arguments : List String) : IO UInt32 :=
  match Request.ofArguments arguments with
  | .run invocation => invocation.perform
  | .version => (success versionText).print
  | .help => (success usageText).print
  | .mistake => misuse.print
