import Haxify.Emit.Options

/-!
# The command line

Options are given by a long name or by a letter, with a value behind an equals sign,
behind the letter itself, or as the next argument. Letters may be put together.
An option may be given once.
-/

namespace Haxify.Command

/-- The form of what a run prints. -/
inductive Format where
  /-- For people. -/
  | text
  | json
deriving DecidableEq, Repr

/-- What the command line asks for. -/
structure Arguments where
  /-- The configuration file of the project. -/
  project : Path
  outDir : Path
  /-- The package that all modules lie in. -/
  basePackage : String
  /-- Whether the directory is emptied first. -/
  clean : Bool
  listFiles : Bool
  /-- Whether to list what nothing is made of. -/
  listDiagnostics : Bool
  /-- The form of what is printed. -/
  format : Format
  /-- Whether colors are never used. -/
  noColor : Bool
  /-- Whether to log more. -/
  verbose : Bool
deriving DecidableEq, Repr

/-- What an empty command line asks for. -/
def Arguments.usual : Arguments :=
  ⟨⟨"tsconfig.json"⟩, Emit.usualOutDir, "", false, false, false, .text, false, false⟩

/-- What a command line comes to. -/
inductive Request where
  | run (arguments : Arguments)
  /-- A text about the command. -/
  | help
  | version
  /-- Nothing, because it cannot be understood. -/
  | invalid
deriving DecidableEq, Repr

/-- What an option does. -/
inductive Effect where
  | value (take : String → Arguments → Option Arguments)
  | flag (take : Arguments → Arguments)
  /-- Asks for something other than a run. -/
  | ask (request : Request)

/-- An option of the command line. -/
structure Choice where
  long : String
  letter : Option Char
  /-- What it does. -/
  effect : Effect

/-- A path, which must not be empty. -/
def pathValue (take : Path → Arguments → Arguments) : Effect :=
  .value fun text arguments => if text == "" then none else some (take ⟨text⟩ arguments)

def formatValue (text : String) (arguments : Arguments) : Option Arguments :=
  match text with
  | "text" => some { arguments with format := .text }
  | "json" => some { arguments with format := .json }
  | _ => none

/-- The options of the command line. -/
def choices : List Choice :=
  [⟨"project", some 'p', pathValue fun path arguments => { arguments with project := path }⟩,
   ⟨"out-dir", some 'o', pathValue fun path arguments => { arguments with outDir := path }⟩,
   ⟨"base-package", some 'b', .value fun text arguments =>
     some { arguments with basePackage := text }⟩,
   ⟨"clean", none, .flag fun arguments => { arguments with clean := true }⟩,
   ⟨"list-files", none, .flag fun arguments => { arguments with listFiles := true }⟩,
   ⟨"list-diagnostics", none, .flag fun arguments => { arguments with listDiagnostics := true }⟩,
   ⟨"format", none, .value formatValue⟩,
   ⟨"no-color", none, .flag fun arguments => { arguments with noColor := true }⟩,
   ⟨"verbose", some 'v', .flag fun arguments => { arguments with verbose := true }⟩,
   ⟨"help", some 'h', .ask .help⟩,
   ⟨"version", some 'V', .ask .version⟩]

/-- What has been read of a command line. -/
structure Progress where
  /-- The long names of the options given. -/
  given : List String
  /-- What they ask for. -/
  arguments : Arguments

/-- Where reading one argument leads. -/
inductive Reading where
  | done (progress : Progress)
  | wants (take : String → Arguments → Option Arguments) (progress : Progress)
  /-- The command line comes to this, whatever follows. -/
  | ends (request : Request)

def Progress.noting (progress : Progress) (choice : Choice) : Option Progress :=
  if progress.given.contains choice.long then none
  else some { progress with given := choice.long :: progress.given }

def Progress.taking (progress : Progress) (take : String → Arguments → Option Arguments)
    (value : String) : Reading :=
  match take value progress.arguments with
  | some arguments => .done { progress with arguments }
  | none => .ends .invalid

/-- Reads an option given by its long name, with the value behind an equals sign. -/
def readLong (progress : Progress) (choice : Choice) (value : Option String) : Reading :=
  match progress.noting choice, choice.effect, value with
  | none, _, _ => .ends .invalid
  | some progress, .value take, some value => progress.taking take value
  | some progress, .value take, none => .wants take progress
  | some progress, .flag take, none => .done { progress with arguments := take progress.arguments }
  | some _, .ask request, none => .ends request
  | some _, _, some _ => .ends .invalid

/-- The value behind a letter, without an equals sign in front; none if nothing is there. -/
def attachedValue : List Char → Option String
  | [] => none
  | '=' :: rest => some (String.ofList rest)
  | chars => some (String.ofList chars)

/-- Reads letters put together; the first that takes a value takes what follows. -/
def readLetters (progress : Progress) : List Char → Reading
  | [] => .done progress
  | letter :: rest =>
    match choices.find? (·.letter == some letter) with
    | none => .ends .invalid
    | some choice =>
      match progress.noting choice, choice.effect with
      | none, _ => .ends .invalid
      | some progress, .value take =>
        match attachedValue rest with
        | some value => progress.taking take value
        | none => .wants take progress
      | some progress, .flag take =>
        readLetters { progress with arguments := take progress.arguments } rest
      | some _, .ask request => .ends request

/-- A long option with the value behind its first equals sign. -/
def splitLong (text : List Char) : String × Option String :=
  let name := text.takeWhile (· != '=')
  match text.drop name.length with
  | [] => (String.ofList name, none)
  | _ :: value => (String.ofList name, some (String.ofList value))

def readArgument (progress : Progress) (argument : List Char) : Reading :=
  match argument with
  | '-' :: '-' :: long =>
    let (name, value) := splitLong long
    match choices.find? (·.long == name) with
    | some choice => readLong progress choice value
    | none => .ends .invalid
  | '-' :: letter :: letters => readLetters progress (letter :: letters)
  | _ => .ends .invalid

/-- Whether an argument can be the value of the option before it. -/
def isValue (argument : String) : Bool :=
  !Text.beginsWith argument "-" || argument == "-"

/-- Reads a command line from some progress on. Nothing may follow two dashes. -/
def read (progress : Progress) : List String → Request
  | [] => .run progress.arguments
  | "--" :: rest => if rest.isEmpty then .run progress.arguments else .invalid
  | argument :: rest =>
    match readArgument progress argument.toList, rest with
    | .done next, rest => read next rest
    | .ends request, _ => request
    | .wants _ _, [] => .invalid
    | .wants take next, value :: others =>
      if isValue value then
        match next.taking take value with
        | .done after => read after others
        | _ => .invalid
      else .invalid

/-- Reads a command line. -/
def parse (arguments : List String) : Request := read ⟨[], .usual⟩ arguments

end Haxify.Command
