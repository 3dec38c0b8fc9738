import Haxify.Foreign.Collect
import Haxify.Foreign.Extern
import Haxify.Lower.Module

/-!
# Plans

What a run will write, worked out without touching a file: the foreign modules of
the whole project first, then every file against them, in the order of paths.
-/

namespace Haxify.Emit

/-- What becomes of one file of a project. -/
structure PlannedFile where
  source : Path
  /-- Where its module goes, below the output directory. -/
  output : Path
  /-- The module, or why there is none. -/
  result : Except Lower.Unsupported Haxe.File
  /-- Where a jump passes over the step of a counting loop. -/
  gaps : List Text.Position

/-- What becomes of a project. -/
structure Plan where
  /-- Its files in the order of their paths. -/
  files : List PlannedFile
  externs : List Haxe.File
  registry : Foreign.Registry

/-- The warning about a file that nothing is made of. -/
def abandonment (source : Path) (reason : Lower.Unsupported) : Diagnostic :=
  .pointing .warning source reason.position.line reason.position.column
    ("file abandoned: " ++ reason.message)

namespace Plan

/-- The modules made of files. -/
def emitted (plan : Plan) : List Haxe.File :=
  plan.files.filterMap (·.result.toOption)

/-- The warnings about files that nothing is made of. -/
def diagnostics (plan : Plan) : List Diagnostic :=
  plan.files.filterMap fun file =>
    match file.result with
    | .ok _ => none
    | .error reason => some (abandonment file.source reason)

/-- What becomes of one file against the foreign modules of its project. -/
def file (program : Program) (registry : Foreign.Registry) (indent : String) (index : Nat)
    (file : SourceFile) : PlannedFile :=
  let outcome := Lower.lowerFile program registry indent index file
  ⟨file.relative, file.address.outputPath, outcome.result, outcome.gaps⟩

def make (program : Program) (indent : String) : Plan :=
  let registry := Foreign.registryOf program
  { files := program.lowered.map fun (index, source) => file program registry indent index source
    externs := registry.bindings.map (·.file indent)
    registry }

end Plan

/-- Why nothing can be said about a file on its own. -/
inductive SingleError where
  | project (error : ProjectError)
  /-- Nothing is made of files of its kind. -/
  | notSource (path : Path)
deriving DecidableEq, Repr

def SingleError.message : SingleError → String
  | .project error => error.message
  | .notSource path => path.text ++ " is not a translatable source file"

/-- What becomes of a file that is a project of its own. -/
def Plan.single (grammar : Grammar) (path : Path) (source : String) (basePackage : String) :
    Except SingleError PlannedFile :=
  let name := path.fileName?.getD path.text
  match Program.ofSources grammar path.directory basePackage [(⟨name⟩, source)] with
  | .error error => .error (.project error)
  | .ok program =>
    match (Plan.make program Haxe.IndentStyle.usual.unit).files with
    | [] => .error (.notSource path)
    | file :: _ => .ok file

end Haxify.Emit
