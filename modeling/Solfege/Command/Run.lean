import Solfege.Command.Arguments
import Solfege.Command.Disk
import Solfege.Compile
import Solfege.Yaml.Fields

/-!
# Solfege.Command.Run

A run of the command, from its arguments and the files to its answer.

The input is read, one of three things is made of it (a list of tokens, the program's text, or ABC
notation), and the ABC notation goes to standard output or to a file. Nothing is written before
all of it is made, so a run that fails leaves every file as it was. The command comes with the
reader of front matter in YAML.

* `Reply` — exit code and what is printed.
* `plan`  — what to do with an input once it has been read.
* `run`   — the whole run on a disk.
-/

namespace Solfege
namespace Command

structure Reply where
  exit : Nat
  stdout : String
  stderr : String
  deriving DecidableEq, Repr

/-- What to do with an input: answer at once, or save a text and answer then. -/
inductive Plan where
  | answer (reply : Reply)
  | save (path text : String)

def failure (stderr : String) : Reply := ⟨1, "", stderr ++ "\n"⟩

def success (stdout : String) : Reply := ⟨0, stdout, ""⟩

def versionText : String := "musica 0.1.0\n"

def usageText : String :=
  "Usage: musica [OPTIONS] <INPUT>\n\nOptions:\n" ++
  "  -o, --output <OUTPUT>  Output file (.abc). Prints to stdout when omitted\n" ++
  "      --no-validate      Skip semantic analysis\n" ++
  "      --tokens           Print the token stream and exit\n" ++
  "      --ast              Print the parsed program and exit\n" ++
  "  -v, --verbose          Enable debug logging\n" ++
  "  -h, --help             Print help\n" ++
  "  -V, --version          Print version\n"

def padRight (width : Nat) (text : String) : String :=
  text ++ String.ofList (List.replicate (width - text.length) ' ')

def row (line column token : String) : String :=
  padRight 6 line ++ padRight 8 column ++ token ++ "\n"

def listing (lexemes : List Lexeme) : String :=
  let shown := lexemes.filter fun lexeme => lexeme.token ≠ .blank
  row "LINE" "COLUMN" "TOKEN" ++
    String.join (shown.map fun lexeme =>
      row lexeme.position.line.repr lexeme.position.column.repr lexeme.token.text)

/-- A message over several lines is indented from its second line on. -/
def indented (message : String) : String :=
  String.ofList (message.toList.flatMap fun c =>
    if c = '\n' then ['\n', ' ', ' ', ' ', ' '] else [c])

def logLine (event : Event Float) : String :=
  "[" ++ padRight 5 event.level.name ++ " " ++ event.topic ++ "] " ++ indented event.message ++
    "\n"

variable [FrontMatter.Reader]

namespace Invocation

def hasInputExtension (i : Invocation) : Bool :=
  Path.extension? i.input = some ['m', 'u', 's']

def plan (i : Invocation) (source : String) : Plan :=
  if i.tokens then
    match tokenize source with
    | .error fault => .answer (failure fault.message)
    | .ok lexemes => .answer (success (listing lexemes))
  else if i.program then
    match parse source with
    | .error error => .answer (failure error.message)
    | .ok program => .answer (success program.text)
  else
    match if i.validate then compile source else compileUnchecked source with
    | .error error => .answer (failure ("Compilation error: " ++ error.message))
    | .ok abc =>
      match i.output with
      | none => .answer (success abc)
      | some path => .save path abc

/-- The events of carrying out the plan, up to the saving of a file. -/
def events (i : Invocation) (source : String) : List (Event Float) :=
  .compiling i.input ::
    if i.tokens then []
    else if i.program then Event.ofParse (parse source)
    else if i.validate then Event.ofCompile source
    else Event.ofCompileUnchecked source

/-- The lines that a verbose run prints for its events. The finest level is left out. -/
def log (i : Invocation) (events : List (Event Float)) : String :=
  if i.verbose then
    String.join ((events.filter fun event => event.level ≠ .trace).map logLine)
  else ""

def logged (i : Invocation) (events : List (Event Float)) (reply : Reply) : Reply :=
  { reply with stderr := i.log events ++ reply.stderr }

def badExtension : Reply := failure "Error: Input file must have the .mus extension"

def unreadable (i : Invocation) (fault : FileFault) : Reply :=
  failure ("Error reading file '" ++ i.input ++ "': " ++ fault.message)

/-- The reply after saving, by whether the file could be written. -/
def saved (i : Invocation) (source path : String) : Except FileFault Unit → Reply
  | .error fault =>
    i.logged (i.events source) (failure ("Error writing to '" ++ path ++ "': " ++ fault.message))
  | .ok () => i.logged (i.events source ++ [.wrote path]) (success "")

def run (i : Invocation) (disk : Disk) : Reply × Disk :=
  if i.hasInputExtension then
    match (disk.read i.input).bind textOf with
    | .error fault => (i.unreadable fault, disk)
    | .ok source =>
      match i.plan source with
      | .answer reply => (i.logged (i.events source) reply, disk)
      | .save path text =>
        match disk.write path text.toUTF8 with
        | .error fault => (i.saved source path (.error fault), disk)
        | .ok disk => (i.saved source path (.ok ()), disk)
  else (badExtension, disk)

end Invocation

def misuse : Reply := ⟨2, "", usageText⟩

def run (arguments : List String) (disk : Disk) : Reply × Disk :=
  match Request.ofArguments arguments with
  | .run invocation => invocation.run disk
  | .version => (success versionText, disk)
  | .help => (success usageText, disk)
  | .mistake => (misuse, disk)

end Command
end Solfege
