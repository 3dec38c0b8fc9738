import Haxify.Project.Error
import Haxify.TypeScript.Surface

/-!
# Source files

A file of a project with its syntax tree, its module address, and what it takes
from and offers to other files.
-/

namespace Haxify

open TypeScript (SourceKind Node)

/-- How the tree of a source text is obtained. -/
abbrev Grammar := SourceKind → String → Option Node

structure SourceFile where
  path : Path
  /-- Its path below the root directory. -/
  relative : Path
  /-- What its name says it holds. -/
  kind : SourceKind
  /-- Its text. -/
  source : String
  tree : Node
  address : Haxe.Address
  /-- What it takes from other modules. -/
  imports : List TypeScript.ImportBinding
  /-- What it declares and offers. -/
  exports : TypeScript.ExportSurface

namespace SourceFile

/-- Whether a module is made of the file. -/
def isLowered (file : SourceFile) : Bool := file.kind != .declaration

def statements (file : SourceFile) : List Node := file.tree.named

/-- The tree of a file, if the grammar gives one without a fault. -/
def parse (grammar : Grammar) (path : Path) (kind : SourceKind) (source : String) :
    Except ProjectError Node :=
  match grammar kind source with
  | none => .error (.noTree path)
  | some tree =>
    match tree.firstFault? with
    | some token => .error (.faultySource path token.position)
    | none => .ok tree

end SourceFile

end Haxify
