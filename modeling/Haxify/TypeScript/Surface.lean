import Haxify.TypeScript.Literal
import Haxify.TypeScript.Tree

/-!
# Imports and exports of a file

What a file takes from other modules and what it offers to them, read from its
top-level statements. Names are resolved between files by these surfaces alone,
without a look at another file's tree.
-/

namespace Haxify.TypeScript

structure ImportedName where
  /-- The name that the other module exports. -/
  imported : String
  /-- The name it goes by in this file, if it is another one. -/
  localAlias : Option String
  typeOnly : Bool
deriving DecidableEq, Repr

def ImportedName.localName (name : ImportedName) : String :=
  name.localAlias.getD name.imported

structure ImportBinding where
  /-- The module as it is written. -/
  specifier : String
  defaultName : Option String
  wholeName : Option String
  named : List ImportedName
  typeOnly : Bool
  /-- Place of the statement. -/
  position : Text.Position
deriving DecidableEq, Repr

def ImportBinding.bindsNothing (binding : ImportBinding) : Bool :=
  binding.defaultName.isNone && binding.wholeName.isNone && binding.named.isEmpty

/-- What a top-level name is declared as. -/
inductive DeclarationKind where
  | classType
  | interfaceType
  | typeAlias
  /-- An enumeration. -/
  | enumType
  | function
  | variable
deriving DecidableEq, Repr

def DeclarationKind.isTypeOnly : DeclarationKind → Bool
  | .interfaceType | .typeAlias => true
  | _ => false

/-- A name of this file offered to others. -/
structure ExportEntry where
  /-- The name others see. -/
  exported : String
  localName : String
  typeOnly : Bool
deriving DecidableEq, Repr

/-- Whether others see another name than this file uses. -/
def ExportEntry.isRenamed (entry : ExportEntry) : Bool :=
  entry.exported != entry.localName

inductive DefaultExport where
  | named (localName : String)
  /-- A value without a name. -/
  | anonymous (kind : DeclarationKind)
deriving DecidableEq, Repr

/-- A name of another module passed on. -/
structure ReExport where
  specifier : String
  /-- The name there; a star for the module as a whole. -/
  imported : String
  /-- The name others see. -/
  exported : String
  typeOnly : Bool
deriving DecidableEq, Repr

/-- All that a file declares and offers. -/
structure ExportSurface where
  /-- Names of the file offered to others. -/
  named : List ExportEntry
  default? : Option DefaultExport
  reExports : List ReExport
  /-- Modules all of whose names are passed on. -/
  wildcards : List String
  /-- Top-level declarations, offered or not, in order of first appearance. -/
  declarations : List (String × DeclarationKind)
deriving DecidableEq, Repr

namespace ExportSurface

/-- A file that declares and offers nothing. -/
def empty : ExportSurface := ⟨[], none, [], [], []⟩

/-- Whether others see a declaration under its own name. -/
def isPublic (surface : ExportSurface) (name : String) : Bool :=
  surface.named.any (fun entry => entry.localName == name && entry.exported == name)
    || surface.default? == some (.named name)

def kindOf? (surface : ExportSurface) (name : String) : Option DeclarationKind :=
  surface.declarations.lookup name

/-- Declarations with one more; a name declared again keeps its place and takes the new kind. -/
def declare (name : String) (kind : DeclarationKind) :
    List (String × DeclarationKind) → List (String × DeclarationKind)
  | [] => [(name, kind)]
  | (known, old) :: rest =>
    if known = name then (name, kind) :: rest else (known, old) :: declare name kind rest

end ExportSurface

mutual

/-- The names that a binding pattern introduces, in order. -/
def boundNames {α : Type} : Tree α → List String
  | .node token _ children =>
    if token.kind == "identifier" || token.kind == "shorthand_property_identifier_pattern" then
      [token.text]
    else if token.kind == "pair_pattern" then boundInField "value" children
    else if token.kind == "assignment_pattern" || token.kind == "object_assignment_pattern" then
      boundInField "left" children
    else if ["object_pattern", "array_pattern", "rest_pattern"].contains token.kind then
      boundInNamed children
    else []

def boundInField {α : Type} (field : String) : List (Tree α) → List String
  | [] => []
  | tree :: rest =>
    if tree.token.field == field then boundNames tree else boundInField field rest

def boundInNamed {α : Type} : List (Tree α) → List String
  | [] => []
  | tree :: rest =>
    (if tree.isNamed && tree.kind != "comment" then boundNames tree else []) ++ boundInNamed rest

end

/-- The names that the declarators of a variable statement introduce. -/
def declaredVariables (statement : Node) : List String :=
  (statement.named.filter (·.kind == "variable_declarator")).flatMap fun declarator =>
    match declarator.field? "name" with
    | some name => boundNames name
    | none => []

def declarationKind? (kind : String) : Option DeclarationKind :=
  match kind with
  | "class_declaration" | "abstract_class_declaration" => some .classType
  | "interface_declaration" => some .interfaceType
  | "type_alias_declaration" => some .typeAlias
  | "enum_declaration" => some .enumType
  | "function_declaration" | "generator_function_declaration" | "function_signature" =>
    some .function
  | _ => none

def declaredNames (statement : Node) : List (String × DeclarationKind) :=
  if statement.kind == "lexical_declaration" || statement.kind == "variable_declaration" then
    (declaredVariables statement).map fun name => (name, .variable)
  else
    match declarationKind? statement.kind, statement.field? "name" with
    | some kind, some name => [(name.text, kind)]
    | _, _ => []

def ExportSurface.recording (surface : ExportSurface)
    (names : List (String × DeclarationKind)) : ExportSurface :=
  { surface with
    declarations := names.foldl
      (fun declarations (name, kind) => ExportSurface.declare name kind declarations)
      surface.declarations }

/-- The name written in an import or export specifier, which may be a string literal. -/
def exportName (node : Node) : String :=
  if node.kind == "string" then decodeLiteral node.text else node.text

/-- The module that a statement names. -/
def specifier? (statement : Node) : Option String :=
  (statement.field? "source").map fun source => decodeLiteral source.text

def importedNames (clause : Node) : List ImportedName :=
  (clause.named.filter (·.kind == "import_specifier")).filterMap fun specifier =>
    (specifier.field? "name").map fun name =>
      { imported := exportName name
        localAlias := (specifier.field? "alias").map (·.text)
        typeOnly := specifier.has "type" || specifier.has "typeof" }

def ImportBinding.adding (binding : ImportBinding) (part : Node) : ImportBinding :=
  match part.kind with
  | "identifier" => { binding with defaultName := some part.text }
  | "namespace_import" =>
    { binding with wholeName := (part.namedOf? "identifier").map (·.text) }
  | "named_imports" => { binding with named := binding.named ++ importedNames part }
  | _ => binding

def importBinding? (statement : Node) : Option ImportBinding :=
  (specifier? statement).map fun specifier =>
    let start : ImportBinding :=
      { specifier
        defaultName := none
        wholeName := none
        named := []
        typeOnly := statement.has "type"
        position := statement.token.position }
    match statement.namedOf? "import_clause" with
    | none => start
    | some clause => clause.named.foldl ImportBinding.adding start

def ExportSurface.offering (surface : ExportSurface) (declaration : Node)
    (isDefault : Bool) : ExportSurface :=
  let names := declaredNames declaration
  let recorded := surface.recording names
  if isDefault then
    match names.head? with
    | some (name, _) => { recorded with default? := some (.named name) }
    | none => recorded
  else
    { recorded with
      named := recorded.named ++
        names.map fun (name, kind) => ⟨name, name, kind.isTypeOnly⟩ }

def defaultOf (value : Node) : DefaultExport :=
  match value.kind with
  | "identifier" => .named value.text
  | "function_expression" | "function" | "arrow_function" => .anonymous .function
  | "class" => .anonymous .classType
  | _ => .anonymous .variable

def ExportSurface.listing (surface : ExportSurface) (source : Option String)
    (typeOnly : Bool) (specifier : Node) : ExportSurface :=
  match specifier.field? "name" with
  | none => surface
  | some name =>
    let localName := exportName name
    let exported := ((specifier.field? "alias").map exportName).getD localName
    let typeOnly := typeOnly || specifier.has "type"
    match source with
    | some source =>
      { surface with reExports := surface.reExports ++ [⟨source, localName, exported, typeOnly⟩] }
    | none =>
      if exported == "default" then { surface with default? := some (.named localName) }
      else { surface with named := surface.named ++ [⟨exported, localName, typeOnly⟩] }

/-- The surface with a whole module passed on, under a name or name by name. -/
def ExportSurface.passingOn (surface : ExportSurface) (statement : Node)
    (source : String) : ExportSurface :=
  match statement.namedOf? "namespace_export" with
  | some whole =>
    let exported := (whole.first?.map exportName).getD ""
    { surface with
      reExports := surface.reExports ++ [⟨source, "*", exported, statement.has "type"⟩] }
  | none =>
    if statement.has "*" then { surface with wildcards := surface.wildcards ++ [source] }
    else surface

def ExportSurface.exporting (surface : ExportSurface) (statement : Node) : ExportSurface :=
  let isDefault := statement.has "default"
  match statement.field? "declaration" with
  | some declaration => surface.offering declaration isDefault
  | none =>
    if isDefault then
      match statement.field? "value" with
      | some value => { surface with default? := some (defaultOf value) }
      | none => surface
    else
      match statement.namedOf? "export_clause", specifier? statement with
      | some clause, source =>
        (clause.named.filter (·.kind == "export_specifier")).foldl
          (fun surface => surface.listing source (statement.has "type")) surface
      | none, some source => surface.passingOn statement source
      | none, none => surface

/-- The imports of a file, in order. -/
def importsOf (root : Node) : List ImportBinding :=
  (root.named.filter (·.kind == "import_statement")).filterMap importBinding?

/-- What a file declares and offers. -/
def exportsOf (root : Node) : ExportSurface :=
  root.named.foldl
    (fun surface statement =>
      match statement.kind with
      | "import_statement" => surface
      | "export_statement" => surface.exporting statement
      | _ => surface.recording (declaredNames statement))
    ExportSurface.empty

end Haxify.TypeScript
