import Haxify.Lower.Context

/-!
# Imports

What a file imports from files of the project becomes import lines; what it
imports from foreign modules, and modules as a whole, become spellings of names.
-/

namespace Haxify.Lower

open TypeScript (ImportBinding)
open Foreign (Registry)

/-- The import lines of a file and the spellings of the names it imports. -/
structure Imports where
  /-- The lines in order, each once. -/
  lines : List String
  /-- The spellings, the latest first. -/
  spellings : List (String × Spelling)
deriving DecidableEq, Repr

namespace Imports

def none : Imports := ⟨[], []⟩

/-- The imports with one more line, unless it is there already. -/
def adding (imports : Imports) (line : String) : Imports :=
  if imports.lines.contains line then imports
  else { imports with lines := imports.lines ++ [line] }

def spelling (imports : Imports) (name : String) (spelling : Spelling) : Imports :=
  { imports with spellings := (name, spelling) :: imports.spellings }

/-- The line that imports a member under a local name. -/
def line (path member localName : String) : String :=
  let name := Haxe.sanitize localName
  if name == member then "import " ++ path ++ ";" else "import " ++ path ++ " as " ++ name ++ ";"

end Imports

/-- Gives up on a file because of an import. -/
def importError {α : Type} (kind : String) (binding : ImportBinding) (detail : String) :
    Except Unsupported α :=
  .error ⟨kind, binding.position, detail⟩

def foreignValue (registry : Registry) (binding : ImportBinding)
    (specifier : String) (member : Option String) : Except Unsupported Spelling :=
  match registry.memberPath? specifier member with
  | some path => .ok (.foreign path)
  | none => importError "import_statement" binding ("no extern binding for \"" ++ specifier ++ "\"")

def foreignWhole (registry : Registry) (binding : ImportBinding)
    (specifier : String) : Spelling :=
  match registry.address? specifier with
  | some address => if binding.typeOnly then .foreignType else .foreignModule address.qualified
  | none => .foreignType

/-- The spelling of one name imported from a foreign module; none is the default export. -/
def foreignSpelling (registry : Registry) (binding : ImportBinding)
    (specifier : String) (typeOnly : Bool) (member : Option String) : Except Unsupported Spelling :=
  if typeOnly then .ok .foreignType else foreignValue registry binding specifier member

def importForeign (registry : Registry) (binding : ImportBinding)
    (specifier : String) (imports : Imports) : Except Unsupported Imports := do
  if binding.bindsNothing && !binding.typeOnly then
    importError "import_statement" binding
      ("side-effect import of \"" ++ specifier ++ "\" has no Haxe require")
  else
    let withDefault ← binding.defaultName.toList.foldlM (fun imports name => do
      let spelling ← foreignSpelling registry binding specifier binding.typeOnly none
      return imports.spelling name spelling) imports
    let withWhole := binding.wholeName.toList.foldl (fun imports name =>
      imports.spelling name (foreignWhole registry binding specifier)) withDefault
    binding.named.foldlM (fun imports name => do
      let spelling ← foreignSpelling registry binding specifier (binding.typeOnly || name.typeOnly)
        (Exports.foreignMember name.imported)
      return imports.spelling name.localName spelling) withWhole

def importName (program : Program) (registry : Registry)
    (binding : ImportBinding) (target : Nat) (imports : Imports)
    (imported localName : String) : Except Unsupported Imports :=
  let unknown := importError "import_specifier" binding
    ("\"" ++ binding.specifier ++ "\" has no export named " ++ imported)
  match Exports.resolve program target imported with
  | none => unknown
  | some (.member index member _) =>
    .ok (imports.adding (Imports.line (program.memberPath index member) member localName))
  | some (.whole index) => .ok (imports.spelling localName (.projectModule index))
  | some (.foreign specifier member) =>
    match registry.memberPath? specifier member with
    | some path => .ok (imports.spelling localName (.foreign path))
    | none => unknown
  | some .ambient => .ok imports

/-- The names that a statement takes from a module, each with its local name. -/
def wantedNames (binding : ImportBinding) : List (String × String) :=
  binding.defaultName.toList.map (fun name => ("default", name))
    ++ binding.named.map fun name => (name.imported, name.localName)

def importProject (program : Program) (registry : Registry)
    (binding : ImportBinding) (target : Nat) (imports : Imports) :
    Except Unsupported Imports :=
  let isLowered := (program.files[target]?).any (·.isLowered)
  let whole : Spelling := if isLowered then .projectModule target else .ambientModule
  let withWhole := binding.wholeName.toList.foldl (fun imports name =>
    imports.spelling name whole) imports
  if isLowered then
    (wantedNames binding).foldlM (fun imports (imported, localName) =>
      importName program registry binding target imports imported localName) withWhole
  else .ok withWhole

def importStatement (program : Program) (registry : Registry) (path : Path)
    (imports : Imports) (binding : ImportBinding) : Except Unsupported Imports :=
  match program.resolveFrom path binding.specifier with
  | .external specifier => importForeign registry binding specifier imports
  | .unresolved specifier =>
    importError "import_statement" binding ("cannot resolve module \"" ++ specifier ++ "\"")
  | .project target => importProject program registry binding target imports

def importsOf (program : Program) (registry : Registry) (file : SourceFile) :
    Except Unsupported Imports :=
  file.imports.foldlM (importStatement program registry file.path) .none

end Haxify.Lower
