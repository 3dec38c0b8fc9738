import Haxify.Haxe.Name
import Haxify.TypeScript.SourceName

/-!
# Module addresses

Where a source file lands in the Haxe package tree. The address is computed from
the path below the root directory and the base package alone, so a file and
everyone who imports it agree on it.
-/

namespace Haxify.Haxe

/-- The name of a default export that has none of its own. -/
def defaultMember : String := "__default"

/-- A package and a module in it. -/
structure Address where
  /-- Dotted package, empty for the root package. -/
  packagePath : String
  moduleName : String
deriving DecidableEq, Repr

namespace Address

/-- The module with its package in front. -/
def qualified (address : Address) : String :=
  if address.packagePath == "" then address.moduleName
  else address.packagePath ++ "." ++ address.moduleName

/-- The path to a member; the member named like the module is its main type. -/
def member (address : Address) (name : String) : String :=
  if name == address.moduleName then address.qualified
  else address.qualified ++ "." ++ name

/-- The package line of the module. -/
def declaration (address : Address) : String :=
  if address.packagePath == "" then "package;"
  else "package " ++ address.packagePath ++ ";"

/-- The file of the module below the output directory: one directory for each
package segment that is not empty. -/
def outputPath (address : Address) : Path :=
  let segments := (Text.splitOn '.' address.packagePath).filter (· != "")
  let directory := segments.foldl (fun path segment => path.join ⟨segment⟩) (⟨""⟩ : Path)
  directory.join ⟨address.moduleName ++ ".hx"⟩

def namesOf (path : Path) : List String :=
  path.components.filterMap fun
    | .name text => some text
    | _ => none

/-- The address of a file given by its path below the root directory. -/
def ofSource (relative : Path) (basePackage : String) : Address :=
  let names := namesOf relative
  let base := (Text.splitOn '.' basePackage).filter fun part => Text.trim part != ""
  { packagePath := Haxe.packagePath (base ++ names.dropLast)
    moduleName := Haxe.moduleName (TypeScript.stripSourceExtension (names.getLastD "")) }

end Address

/-- A module as it is written to a file. -/
structure File where
  /-- Where it belongs. -/
  address : Address
  text : String
deriving DecidableEq, Repr

def File.outputPath (file : File) : Path := file.address.outputPath

end Haxify.Haxe
