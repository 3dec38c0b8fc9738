import Haxify.Lower.Declaration
import Haxify.Lower.Imports

/-!
# Modules

The Haxe module of a file: its package, its imports, its declarations, and one
item for each name that is exported under another one.
-/

namespace Haxify.Lower

def exportSpecifier? (file : SourceFile) (localName : String) : Option TypeScript.Node :=
  let clauses := (file.statements.filter (·.kind == "export_statement")).filterMap
    (·.namedOf? "export_clause")
  (clauses.flatMap (·.named)).find? fun specifier =>
    (specifier.field? "name").any (·.text == localName)

/-- The item for a name exported under another one, by how the name is spelled here. -/
def spelledAlias (view : View) (entry : TypeScript.ExportEntry) : Except Unsupported String :=
  let name := Haxe.sanitize entry.exported
  let file := view.context.file
  match view.spelling? entry.localName with
  | some (.foreign path) | some (.foreignModule path) =>
    .ok ("final " ++ name ++ " = " ++ path ++ ";")
  | some .foreignType => .ok ("typedef " ++ name ++ " = Dynamic;")
  | some (.projectModule _) | some .ambientModule =>
    let token := (exportSpecifier? file entry.localName).getD file.tree |>.token
    .error ⟨token.kind, token.position,
      "re-exporting namespace " ++ entry.localName ++ " under another name"⟩
  | none => .ok ("final " ++ name ++ " = " ++ Haxe.sanitize entry.localName ++ ";")

/-- The item for a name exported under another one. -/
def exportAlias (entry : TypeScript.ExportEntry) : Lowering String := do
  let view ← view
  let name := Haxe.sanitize entry.exported
  let localName := Haxe.sanitize entry.localName
  match Exports.resolveLocal view.context.program view.context.index entry.localName with
  | some (.member _ _ .classType) =>
    return "class " ++ name ++ " extends " ++ localName ++ " \x7b\x7d"
  | some (.member _ _ .interfaceType) | some (.member _ _ .typeAlias) =>
    return "typedef " ++ name ++ " = " ++ localName ++ ";"
  | _ =>
    match spelledAlias view entry with
    | .ok item => return item
    | .error reason => throw reason

/-- The items for all names exported under other ones. -/
def exportAliases : Lowering (List String) := do
  forEach ((← read).file.exports.named.filter (·.isRenamed)) exportAlias

def fileItems : Lowering (List String) := do
  let items ← forEach (rendered (← read).file.tree).named topLevel
  return items.flatten ++ (← exportAliases)

def moduleText (address : Haxe.Address) (imports items : List String) : String :=
  let head := address.declaration ++ "\n\n"
  let middle := if imports.isEmpty then "" else Text.joinWith "\n" imports ++ "\n\n"
  Text.trimEnd (head ++ middle ++ Text.joinWith "\n\n" items) ++ "\n"

/-- What became of a file. -/
structure Outcome where
  /-- The module made of it, or why there is none. -/
  result : Except Unsupported Haxe.File
  /-- Where a jump passes over the step of a counting loop. -/
  gaps : List Text.Position

/-- The module of a file of the project. The registry must hold every foreign module that
the file uses. -/
def lowerFile (program : Program) (registry : Foreign.Registry) (indent : String) (index : Nat)
    (file : SourceFile) : Outcome :=
  match importsOf program registry file with
  | .error reason => ⟨.error reason, []⟩
  | .ok imports =>
    let context : Context :=
      { program, registry, index, file, indent
        spellings := imports.spellings
        takenTemps := tempNamesIn file.source }
    let (result, state) := fileItems.evaluate context .initial
    ⟨result.map fun items => ⟨file.address, moduleText file.address imports.lines items⟩,
      state.gaps⟩

end Haxify.Lower
