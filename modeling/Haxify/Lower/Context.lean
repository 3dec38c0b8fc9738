import Haxify.Foreign.Registry
import Haxify.Project.Exports

/-!
# What lowering a file depends on

The file with its project, the spellings of imported names, and the names bound
by enclosing scopes, which hide imports of the same name.
-/

namespace Haxify.Lower

/-- Why nothing is made of a file: the first construct without a Haxe form. -/
structure Unsupported where
  kind : String
  /-- Where it stands. -/
  position : Text.Position
  /-- What is wrong with it. -/
  detail : String
deriving DecidableEq, Repr

def Unsupported.message (reason : Unsupported) : String :=
  "unsupported " ++ reason.kind ++ " at line " ++ toString reason.position.line ++ ", column "
    ++ toString reason.position.column ++ ": " ++ reason.detail

/-- How an imported name is spelled in Haxe, if not by itself. -/
inductive Spelling where
  | foreign (path : String)
  | foreignType
  | foreignModule (path : String)
  | projectModule (index : Nat)
  /-- A declaration file as a whole. -/
  | ambientModule
deriving DecidableEq, Repr

/-- What stays the same while a file is lowered. -/
structure Context where
  program : Program
  /-- The foreign modules of the project. -/
  registry : Foreign.Registry
  index : Nat
  file : SourceFile
  /-- The text of one level of indentation. -/
  indent : String
  spellings : List (String × Spelling)
  /-- The names in the file that look like temporaries. -/
  takenTemps : List String

/-- What decides the spelling of a name at some place in a file. -/
structure View where
  /-- The file. -/
  context : Context
  /-- The names bound by enclosing scopes, the innermost first. -/
  scopes : List (List String)

namespace View

/-- Whether an enclosing scope binds a name. -/
def isLocal (view : View) (name : String) : Bool :=
  view.scopes.any (·.contains name)

/-- How an imported name is spelled, unless an enclosing scope binds it. -/
def spelling? (view : View) (name : String) : Option Spelling :=
  if view.isLocal name then none else view.context.spellings.lookup name

/-- The Haxe path of a member of a name that stands for a whole module. None if the name
does not; an error, as its text, if the module has no such member. -/
def moduleMember (view : View) (name member : String) : Except String (Option String) :=
  match view.spelling? name with
  | some (.foreignModule path) => .ok (some (path ++ "." ++ Foreign.bindingName member))
  | some (.projectModule target) =>
    match Exports.resolve view.context.program target member with
    | some (.member index found _) => .ok (some (view.context.program.memberPath index found))
    | some (.foreign specifier found) =>
      match view.context.registry.memberPath? specifier found with
      | some path => .ok (some path)
      | none => .error "foreign member without binding"
    | _ => .error ("namespace " ++ name ++ " has no usable export " ++ member)
  | some .ambientModule => .error "member of a declaration-file namespace"
  | _ => .ok none

end View

end Haxify.Lower
