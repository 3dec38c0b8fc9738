import Haxify.Haxe.Address
import Haxify.Text.Fresh

/-!
# Modules from elsewhere

Every module that the project imports by name gets one extern class in a package
of its own. The members in use are collected first; then each module gets a name
that no other one and no file of the project has.
-/

namespace Haxify.Foreign

/-- The package below the base package that holds the extern classes. -/
def externPackage : String := "externs"

/-- What the project uses of one foreign module. -/
structure Descriptor where
  /-- The module as it is imported. -/
  specifier : String
  /-- Whether its default export is used. -/
  usesDefault : Bool
  /-- The members in use, in order. -/
  members : List String
deriving DecidableEq, Repr

def bindingName (member : String) : String := Haxe.sanitize member

def insertSorted (text : String) : List String → List String
  | [] => [text]
  | first :: rest =>
    if text = first then first :: rest
    else if text < first then text :: first :: rest
    else first :: insertSorted text rest

/-- What a file may need of a foreign module. -/
inductive Use where
  /-- The module itself. -/
  | whole
  | default
  | member (name : String)
deriving DecidableEq, Repr

namespace Descriptor

/-- A module of which nothing is used yet. -/
def empty (specifier : String) : Descriptor := ⟨specifier, false, []⟩

def adding (descriptor : Descriptor) : Use → Descriptor
  | .whole => descriptor
  | .default => { descriptor with usesDefault := true }
  | .member name => { descriptor with members := insertSorted name descriptor.members }

end Descriptor

/-- The modules in use, in the order of their specifiers, with one more use recorded. -/
def record (specifier : String) (use : Use) : List Descriptor → List Descriptor
  | [] => [(Descriptor.empty specifier).adding use]
  | first :: rest =>
    if specifier = first.specifier then first.adding use :: rest
    else if specifier < first.specifier then
      (Descriptor.empty specifier).adding use :: first :: rest
    else first :: record specifier use rest

/-- The modules in use after all of some uses. -/
def recordAll (uses : List (String × Use)) : List Descriptor :=
  uses.foldl (fun modules (specifier, use) => record specifier use modules) []

/-- A foreign module with the address of its extern class. -/
structure Binding where
  /-- What is used of the module. -/
  descriptor : Descriptor
  /-- Where its extern class lies. -/
  address : Haxe.Address
deriving DecidableEq, Repr

/-- All foreign modules of a project, in the order of their specifiers. -/
structure Registry where
  /-- The modules with their addresses. -/
  bindings : List Binding
deriving DecidableEq, Repr

namespace Registry

/-- A registry without modules. -/
def empty : Registry := ⟨[]⟩

/-- Names modules in order, each with the first free name of its family. -/
def assign (package : String) (taken : List String) : List Descriptor → List Binding
  | [] => []
  | descriptor :: rest =>
    let name := Text.freshName (Haxe.moduleName descriptor.specifier) taken
    ⟨descriptor, ⟨package, name⟩⟩ :: assign package (name :: taken) rest

def packageOf (basePackage : String) : String :=
  Haxe.packagePath (Text.splitOn '.' basePackage ++ [externPackage])

/-- The registry of modules in use, whose names keep clear of the claimed addresses. -/
def around (basePackage : String) (claimed : List Haxe.Address) (modules : List Descriptor) :
    Registry :=
  let package := packageOf basePackage
  let taken := (claimed.filter (·.packagePath == package)).map (·.moduleName)
  ⟨assign package taken modules⟩

def find? (registry : Registry) (specifier : String) : Option Binding :=
  registry.bindings.find? (·.descriptor.specifier == specifier)

/-- The address of a module's extern class. -/
def address? (registry : Registry) (specifier : String) : Option Haxe.Address :=
  (registry.find? specifier).map (·.address)

/-- The Haxe path of a member of a foreign module; none is its default export. -/
def memberPath? (registry : Registry) (specifier : String) (member : Option String) :
    Option String :=
  (registry.address? specifier).map fun address =>
    address.qualified ++ "." ++ (member.map bindingName).getD Haxe.defaultMember

end Registry

end Haxify.Foreign
