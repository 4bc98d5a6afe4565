import Solfege.Command.Path

/-!
# Solfege.Command.Disk

Files as paths see them from a working directory.

A path is walked component by component, and every component but the last has to lead to a
directory. The directories above the working directory, and the root, are there; nothing else is
known of them.

* `Disk.read`  — the bytes of a file.
* `Disk.write` — the disk with a file made or replaced.
-/

namespace Solfege
namespace Command

inductive FileFault where
  | missing
  | notDirectory
  | isDirectory
  | nameTooLong
  | notText
  /-- A failure of the device, in its own words. -/
  | device (text : String)
  deriving DecidableEq, Repr

def FileFault.message : FileFault → String
  | .missing => "No such file or directory (os error 2)"
  | .notDirectory => "Not a directory (os error 20)"
  | .isDirectory => "Is a directory (os error 21)"
  | .nameTooLong => "File name too long (os error 36)"
  | .notText => "stream did not contain valid UTF-8"
  | .device text => text

inductive Entry where
  | file (bytes : ByteArray)
  | directory

/-- Where a path leads: the names from the working directory down. Steps up out of the working
directory stand first, and an empty name stands for the root. -/
abbrev Place := List (List Char)

namespace Place

/-- The place has no name of its own: it is the working directory, one above it, or the root. -/
def isTop (place : Place) : Bool :=
  place.all fun component => component = [] || Path.isUp component

def root : Place := [[]]

def ofStart (path : String) : Place :=
  if path.toList.head? = some '/' then root else []

def up (place : Place) : Place :=
  if place = root then place
  else if place.isTop then place ++ [['.', '.']]
  else place.dropLast

def step (place : Place) (component : List Char) : Place :=
  if Path.isHere component then place
  else if Path.isUp component then place.up
  else place ++ [component]

end Place

/-- Every file and every directory below the working directory, each at its place. -/
structure Disk where
  entries : List (Place × Entry)

namespace Disk

def empty : Disk := ⟨[]⟩

def get? (disk : Disk) (place : Place) : Option Entry :=
  if place.isTop then some .directory else disk.entries.lookup place

def put (disk : Disk) (place : Place) (entry : Entry) : Disk :=
  ⟨(place, entry) :: disk.entries.filter fun other => other.1 ≠ place⟩

def nameLimit : Nat := 255

/-- The longest path that can be followed, in octets. -/
def pathLimit : Nat := 4095

def walk (disk : Disk) (place : Place) : List (List Char) → Except FileFault Place
  | [] => .ok place
  | component :: rest =>
    match disk.get? place with
    | none => .error .missing
    | some (.file _) => .error .notDirectory
    | some .directory =>
      if nameLimit < (String.ofList component).utf8ByteSize then .error .nameTooLong
      else disk.walk (place.step component) rest

def follow (disk : Disk) (path : String) (components : List (List Char)) :
    Except FileFault Place :=
  if pathLimit < path.utf8ByteSize then .error .nameTooLong
  else disk.walk (.ofStart path) components

def read (disk : Disk) (path : String) : Except FileFault ByteArray :=
  match disk.follow path (Path.components path) with
  | .error fault => .error fault
  | .ok place =>
    match disk.get? place with
    | none => .error .missing
    | some .directory => .error .isDirectory
    | some (.file bytes) => .ok bytes

/-- The components that are followed to make a file. A path that ends in a slash is followed to the
directory that would hold its last name. -/
def target (path : String) : List (List Char) :=
  let components := Path.components path
  if components.getLast? = some [] then
    (components.reverse.dropWhile (· = [])).reverse.dropLast ++ [['.']]
  else components

/-- A file can be made in any directory, but not in place of one. -/
def write (disk : Disk) (path : String) (bytes : ByteArray) : Except FileFault Disk :=
  match disk.follow path (target path) with
  | .error fault => .error fault
  | .ok place =>
    match disk.get? place with
    | some .directory => .error .isDirectory
    | _ => .ok (disk.put place (.file bytes))

/-- Put an entry at a path below the working directory, with the directories above it. -/
def add (disk : Disk) (path : String) (entry : Entry) : Disk :=
  let names := (Path.components path).filter (!Path.isHere ·)
  let parents := (List.range names.length).drop 1
  let made := parents.foldl (fun disk n => disk.put (names.take n) .directory) disk
  made.put names entry

end Disk

def textOf (bytes : ByteArray) : Except FileFault String :=
  match String.fromUTF8? bytes with
  | some text => .ok text
  | none => .error .notText

end Command
end Solfege
