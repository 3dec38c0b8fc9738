import Haxify.Emit.Options
import Haxify.Emit.Report

/-!
# Writing a plan

Carries a plan out on a file store. A file with the right text already is left
alone; the file that an earlier run made of a source which nothing is made of any
more is removed. The first failure ends the run, and what was done before it stays.
-/

namespace Haxify.Emit

open Files (Failure Store)

/-- What failed while a plan was written, with the reason. -/
inductive WriteError where
  | clean (path : Path) (failure : Failure)
  /-- A directory cannot be made. -/
  | create (path : Path) (failure : Failure)
  /-- A file cannot be put in place. -/
  | replace (path : Path) (failure : Failure)
  | remove (path : Path) (failure : Failure)
deriving DecidableEq, Repr

/-- What was attempted. -/
def WriteError.message : WriteError → String
  | .clean path _ => "Failed to clean " ++ path.text
  | .create path _ => "Failed to create " ++ path.text
  | .replace path _ => "Failed to replace " ++ path.text
  | .remove path _ => "Failed to remove " ++ path.text

def WriteError.cause : WriteError → Failure
  | .clean _ failure | .create _ failure | .replace _ failure | .remove _ failure => failure

/-- A computation on a file store that may fail on the way. -/
abbrev Disk := ExceptT WriteError (StateM Store)

/-- Takes over the store that an operation gives, or fails. -/
def commit (error : Failure → WriteError) (result : Except Failure Store) :
    Disk Unit :=
  match result with
  | .ok store => set store
  | .error failure => throw (error failure)

/-- Puts a text in a file, making the directories above it. Says whether that changed
anything. -/
def place (path : Path) (text : String) : Disk Bool := do
  match (← get).read path with
  | .ok (.text present) =>
    if present = text then return false
  | _ => pure ()
  commit (.create path.directory) ((← get).makeDirectories path.directory)
  commit (.replace path) ((← get).write path (.text text))
  return true

/-- Takes a file away if it is there. Says whether it was. -/
def removeStale (path : Path) : Disk Bool := do
  match (← get).removeFile path with
  | .ok store => set store; return true
  | .error .notFound => return false
  | .error failure => throw (.remove path failure)

/-- Takes a directory away if it is there. -/
def cleanDirectory (path : Path) : Disk Unit := do
  let (result, store) := (← get).removeDirectories path
  set store
  match result with
  | .ok _ | .error .notFound => return ()
  | .error failure => throw (.clean path failure)

/-- Puts a module in its file, which is given below the output directory. -/
def placeModule (outDir : Path) (source : Option Path) (output : Path) (file : Haxe.File) :
    Disk WrittenFile := do
  let changed ← place (outDir.join output) file.text
  return ⟨source, output, file.address.qualified, changed⟩

def writeFile (report : Report) (file : PlannedFile) : Disk Report :=
  match file.result with
  | .ok made => do
    let written ← placeModule report.outDir (some file.source) file.output made
    return { report with written := report.written ++ [written] }
  | .error reason => do
    let isRemoved ← removeStale (report.outDir.join file.output)
    let abandoned := ⟨file.source, reason, if isRemoved then some file.output else none⟩
    return { report with abandoned := report.abandoned ++ [abandoned] }

def writeExtern (report : Report) (file : Haxe.File) : Disk Report := do
  let written ← placeModule report.outDir none file.outputPath file
  return { report with externs := report.externs ++ [written] }

def write (options : Options) (plan : Plan) : Disk Report := do
  if options.clean then cleanDirectory options.outDir
  let report ← plan.files.foldlM writeFile (.empty options.outDir)
  plan.externs.foldlM writeExtern report

/-- Plans a project and carries the plan out. -/
def run (options : Options) (program : Program) : Disk Report :=
  write options (.make program options.indent.unit)

/-- Runs a computation on a store. -/
def Disk.evaluate {α : Type} (body : Disk α) (store : Store) :
    Except WriteError α × Store :=
  body store

end Haxify.Emit
