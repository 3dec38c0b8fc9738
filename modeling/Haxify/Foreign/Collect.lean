import Haxify.Foreign.Registry
import Haxify.Project.Program

/-!
# Collecting foreign modules

Goes through all files of a project and notes which foreign modules they use as
values, and which of their members. Types leave nothing at run time, so names that
are imported as types only do not count.
-/

namespace Haxify.Foreign

/-- The use that an imported name makes of its module. -/
def useOf (imported : String) : Use :=
  if imported == "default" then .default else .member imported

def accessedName? (property : TypeScript.Node) : Option String :=
  if property.kind == "property_identifier" then some property.text
  else if property.kind == "string" then some (TypeScript.decodeLiteral property.text)
  else none

def accessField? (kind : String) : Option String :=
  if kind == "member_expression" then some "property"
  else if kind == "subscript_expression" then some "index"
  else none

def memberAccess? (name : String) (node : TypeScript.Node) : Option String := do
  let field ← accessField? node.kind
  let object ← node.field? "object"
  let property ← node.field? field
  if object.kind == "identifier" && object.text == name then accessedName? property else none

def accessedMembers (tree : TypeScript.Node) (name : String) : List String :=
  tree.descendants.filterMap (memberAccess? name)

def takesValues (binding : TypeScript.ImportBinding) : Bool :=
  !binding.typeOnly
    && (binding.defaultName.isSome || binding.wholeName.isSome
      || binding.named.any (!·.typeOnly))

/-- The uses that an import statement makes of its module. -/
def importUses (tree : TypeScript.Node) (binding : TypeScript.ImportBinding) : List Use :=
  if takesValues binding then
    .whole :: (binding.defaultName.toList.map fun _ => Use.default)
      ++ (binding.named.filter (!·.typeOnly)).map (useOf ·.imported)
      ++ (binding.wholeName.toList.flatMap (accessedMembers tree)).map .member
  else []

/-- The uses that a name passed on makes of its module. -/
def passedUses (passed : TypeScript.ReExport) : List Use :=
  if passed.typeOnly || passed.imported == "*" then [] else [useOf passed.imported]

/-- The uses of a specifier, if it names a foreign module. -/
def usesOf (program : Program) (file : SourceFile) (specifier : String) (uses : List Use) :
    List (String × Use) :=
  match program.resolveFrom file.path specifier with
  | .external specifier => uses.map fun use => (specifier, use)
  | _ => []

/-- The uses that a file makes of foreign modules. -/
def fileUses (program : Program) (file : SourceFile) : List (String × Use) :=
  file.imports.flatMap (fun binding =>
      usesOf program file binding.specifier (importUses file.tree binding))
    ++ file.exports.reExports.flatMap fun passed =>
      usesOf program file passed.specifier (passedUses passed)

/-- The foreign modules that a program uses. -/
def collect (program : Program) : List Descriptor :=
  recordAll ((program.files.filter (·.isLowered)).flatMap (fileUses program))

/-- The registry of a program, whose extern classes keep clear of its modules. -/
def registryOf (program : Program) : Registry :=
  .around program.basePackage (program.files.map (·.address)) (collect program)

end Haxify.Foreign
