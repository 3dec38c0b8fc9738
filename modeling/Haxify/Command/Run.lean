import Haxify.Command.Arguments
import Haxify.Emit.Write
import Haxify.Project.Load

/-!
# Running the command

Loads a project, then lists its files, lists what nothing is made of, or writes
its modules. What is printed depends on the form asked for: JSON always goes to
the output, and diagnostics for people go to the error output.
-/

namespace Haxify.Command

/-- What a run leaves behind besides files. -/
structure Result where
  exitCode : Nat
  output : String
  errors : String
deriving DecidableEq, Repr

/-- What a run is asked for, and whether colors are allowed. -/
structure Setting where
  /-- What the command line asks for. -/
  arguments : Arguments
  /-- Whether colors may be used. -/
  allowsColors : Bool

namespace Setting

/-- Whether the report would be colored. -/
def wantsColors (setting : Setting) : Bool :=
  !setting.arguments.noColor && setting.arguments.format = .text

def colored (setting : Setting) : Bool := setting.allowsColors && setting.wantsColors

def options (setting : Setting) : Emit.Options :=
  { Emit.Options.usual with
    outDir := setting.arguments.outDir
    basePackage := setting.arguments.basePackage
    clean := setting.arguments.clean
    useColors := setting.wantsColors }

end Setting

def severityPaint : Severity → Option Emit.Paint
  | .error => some .error
  | .warning => some .warning
  | .info => none

def diagnosticLine (colored : Bool) (diagnostic : Diagnostic) : String :=
  match severityPaint diagnostic.severity with
  | some paint => paint.apply colored diagnostic.display ++ "\n"
  | none => diagnostic.display ++ "\n"

/-- What is printed for diagnostics, as output and as errors. -/
def showDiagnostics (setting : Setting) (diagnostics : List Diagnostic) : String × String :=
  match setting.arguments.format with
  | .json => ((Json.Layout.list (diagnostics.map Emit.diagnosticLayout)).document, "")
  | .text => ("", String.join (diagnostics.map (diagnosticLine setting.colored)))

def fileLayout (file : SourceFile) : Json.Layout :=
  .record [("source", Emit.Report.pathLayout file.relative),
    ("module", .string file.address.qualified)]

/-- One file of a listing for people. -/
def fileLine (colored : Bool) (file : SourceFile) : String :=
  file.relative.text ++ " " ++ Emit.Paint.name.apply colored file.address.qualified ++ "\n"

/-- What is printed for the files of a project. -/
def showFiles (setting : Setting) (program : Program) : String :=
  let files := program.lowered.map (·.2)
  match setting.arguments.format with
  | .json => (Json.Layout.list (files.map fileLayout)).document
  | .text => String.join (files.map (fileLine setting.colored))

/-- The last words of a run that fails. -/
def failure (message : String) (cause : Option String) : String :=
  "Error: " ++ message ++ ((cause.map fun cause => "\n\nCaused by:\n    " ++ cause).getD "") ++ "\n"

/-- A run on a project that cannot be loaded. -/
def unloaded (setting : Setting) (error : ProjectError) : Result :=
  let (output, errors) := showDiagnostics setting [error.diagnostic]
  ⟨1, output, errors ++ failure ("could not load " ++ setting.arguments.project.text) none⟩

/-- A run that lists and writes nothing. -/
def listing (setting : Setting) (program : Program) : Result :=
  let files := if setting.arguments.listFiles then showFiles setting program else ""
  let (output, errors) :=
    if setting.arguments.listDiagnostics then
      showDiagnostics setting (Emit.Plan.make program setting.options.indent.unit).diagnostics
    else ("", "")
  ⟨0, files ++ output, errors⟩

def showReport (setting : Setting) (report : Emit.Report) : String :=
  match setting.arguments.format with
  | .json => report.json
  | .text => report.text setting.colored

/-- A run that writes modules. -/
def writing (setting : Setting) (program : Program) (store : Files.Store) : Result × Files.Store :=
  match (Emit.run setting.options program).evaluate store with
  | (.ok report, after) => (⟨0, showReport setting report, ""⟩, after)
  | (.error error, after) => (⟨1, "", failure error.message (some error.cause.message)⟩, after)

/-- A run with arguments that were understood. -/
def runWith (grammar : Grammar) (setting : Setting) (store : Files.Store) : Result × Files.Store :=
  let arguments := setting.arguments
  match Program.load grammar store arguments.project arguments.basePackage with
  | .error error => (unloaded setting error, store)
  | .ok program =>
    if arguments.listFiles || arguments.listDiagnostics then (listing setting program, store)
    else writing setting program store

/-- What the command says about itself. -/
def usage : String :=
  "Usage: haxify [OPTIONS]\n\nOptions:\n"
    ++ String.join (choices.map fun choice =>
      "  " ++ (match choice.letter with
        | some letter => "-" ++ String.singleton letter ++ ", "
        | none => "    ") ++ "--" ++ choice.long ++ "\n")

def run (grammar : Grammar) (allowsColors : Bool) (arguments : List String) (store : Files.Store) :
    Result × Files.Store :=
  match parse arguments with
  | .invalid => (⟨2, "", usage⟩, store)
  | .help => (⟨0, usage, ""⟩, store)
  | .version => (⟨0, "haxify 0.1.0\n", ""⟩, store)
  | .run arguments => runWith grammar ⟨arguments, allowsColors⟩ store

end Haxify.Command
