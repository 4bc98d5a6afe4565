/-!
# Solfege.Command.Arguments

The arguments of the command. There is one input; `-o` or `--output` names an output; flags stand
alone, and short ones may be joined. Arguments are read from left to right, and the first that
settles the matter does: a mistake, or a request for the version or for help.

* `Invocation` — what a run is asked to do.
* `Request`    — an invocation, a request for information, or a mistake.
* `Request.ofArguments` — the request that a list of arguments makes.
-/

namespace Solfege
namespace Command

structure Invocation where
  input : String
  output : Option String := none
  validate : Bool := true
  tokens : Bool := false
  program : Bool := false
  verbose : Bool := false
  deriving DecidableEq, Repr

inductive Request where
  | run (invocation : Invocation)
  | version
  | help
  | mistake
  deriving DecidableEq, Repr

inductive Flag where
  | noValidate
  | tokens
  | program
  | verbose
  deriving DecidableEq, Repr

/-- What has been read so far. -/
structure Draft where
  input : Option String := none
  output : Option String := none
  flags : List Flag := []

namespace Draft

/-- A flag may be given once. -/
def flag? (draft : Draft) (flag : Flag) : Option Draft :=
  if draft.flags.contains flag then none else some { draft with flags := flag :: draft.flags }

/-- A path is given once, and is not empty. -/
def input? (draft : Draft) (path : String) : Option Draft :=
  if path = "" ∨ draft.input.isSome then none else some { draft with input := some path }

def output? (draft : Draft) (path : String) : Option Draft :=
  if path = "" ∨ draft.output.isSome then none else some { draft with output := some path }

def request (draft : Draft) : Request :=
  match draft.input with
  | none => .mistake
  | some input =>
    .run
      { input
        output := draft.output
        validate := !draft.flags.contains .noValidate
        tokens := draft.flags.contains .tokens
        program := draft.flags.contains .program
        verbose := draft.flags.contains .verbose }

end Draft

/-- What one argument asks for. -/
inductive Wish where
  | flags (flags : List Flag)
  /-- Flags, then an output whose path is part of the argument. -/
  | output (flags : List Flag) (path : String)
  /-- Flags, then an output whose path is the next argument. -/
  | outputNext (flags : List Flag)
  | input (path : String)
  | endOfOptions
  /-- Flags, then a request that ends the reading. -/
  | settle (flags : List Flag) (request : Request)

namespace Wish

def longFlag? : String → Option Flag
  | "no-validate" => some .noValidate
  | "tokens" => some .tokens
  | "ast" => some .program
  | "verbose" => some .verbose
  | _ => none

/-- An argument after its two dashes. -/
def ofLong (body : List Char) : Wish :=
  let name := String.ofList (body.takeWhile (· ≠ '='))
  match body.dropWhile (· ≠ '=') with
  | [] =>
    if name = "output" then .outputNext []
    else if name = "version" then .settle [] .version
    else if name = "help" then .settle [] .help
    else
      match longFlag? name with
      | some flag => .flags [flag]
      | none => .settle [] .mistake
  | _ :: value =>
    if name = "output" then .output [] (String.ofList value) else .settle [] .mistake

/-- An argument after its one dash, letter by letter. -/
def ofShort (seen : List Flag) : List Char → Wish
  | [] => .flags seen
  | 'v' :: rest => ofShort (seen ++ [.verbose]) rest
  | 'V' :: _ => .settle seen .version
  | 'h' :: _ => .settle seen .help
  | ['o'] => .outputNext seen
  | 'o' :: '=' :: path => .output seen (String.ofList path)
  | 'o' :: path => .output seen (String.ofList path)
  | _ => .settle seen .mistake

def ofArgument (argument : String) : Wish :=
  match argument.toList with
  | ['-', '-'] => .endOfOptions
  | '-' :: '-' :: body => ofLong body
  | '-' :: c :: body => ofShort [] (c :: body)
  | _ => .input argument

end Wish

/-- An argument that cannot be the path of an output. -/
def looksLikeOption (argument : String) : Bool :=
  match argument.toList with
  | '-' :: _ :: _ => true
  | _ => false

namespace Request

def flags? (draft : Draft) : List Flag → Option Draft
  | [] => some draft
  | flag :: rest => (draft.flag? flag).bind fun draft => flags? draft rest

def inputs? (draft : Draft) : List String → Option Draft
  | [] => some draft
  | path :: rest => (draft.input? path).bind fun draft => inputs? draft rest

def ofDraft : Option Draft → Request
  | none => .mistake
  | some draft => draft.request

def read (draft : Draft) : List String → Request
  | [] => draft.request
  | argument :: rest =>
    match Wish.ofArgument argument with
    | .flags flags =>
      match flags? draft flags with
      | none => .mistake
      | some draft => read draft rest
    | .input path =>
      match draft.input? path with
      | none => .mistake
      | some draft => read draft rest
    | .output flags path =>
      match (flags? draft flags).bind (·.output? path) with
      | none => .mistake
      | some draft => read draft rest
    | .outputNext flags =>
      match rest with
      | [] => .mistake
      | path :: rest =>
        if looksLikeOption path then .mistake
        else
          match (flags? draft flags).bind (·.output? path) with
          | none => .mistake
          | some draft => read draft rest
    | .endOfOptions => ofDraft (inputs? draft rest)
    | .settle flags request =>
      match flags? draft flags with
      | none => .mistake
      | some _ => request

def ofArguments (arguments : List String) : Request :=
  read {} arguments

end Request
end Command
end Solfege
