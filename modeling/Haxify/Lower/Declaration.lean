import Haxify.Lower.Enumeration
import Haxify.Lower.Statement

/-!
# Declarations at the top of a file

Functions, classes, interfaces, type aliases, enumerations and variables. What a
file does not export is private to its module.
-/

namespace Haxify.Lower

/-- What stands in front of a declaration that others must not see. -/
def visibility (isPublic : Bool) : String := if isPublic then "" else "private "

def codeText (code : List Haxe.Code) : Lowering String := do
  return Haxe.Code.render (← read).indent code

/-- Who may see a member of a class. -/
def memberVisibility (member : Part) : String :=
  if member.named.any fun part => part.kind == "accessibility_modifier" && part.text != "public"
  then "private" else "public"

def classMemberName (member : Part) : Lowering String :=
  match member.field? "name" with
  | none => unsupported member "member without a name"
  | some name =>
    match name.kind with
    | "property_identifier" => return Haxe.sanitize name.text
    | "string" =>
      let decoded := TypeScript.decodeLiteral name.text
      if Haxe.isIdentifier decoded then return decoded
      else unsupported name "member name is not an identifier"
    | "private_property_identifier" => unsupported name "private name"
    | "computed_property_name" => unsupported name "computed member name"
    | _ => unsupported name "member name"

/-- The word that makes a member one of the class itself. -/
def staticWord (member : Part) : String := if member.has "static" then "static " else ""

/-- The annotation of a field; a field without a type and a value may be anything. -/
def fieldTypeSuffix (view : View) (member : Part) : String :=
  match member.field? "type" with
  | some typing =>
    let type := typing.value.type view
    if member.has "?" then ": Null<" ++ type ++ ">" else ": " ++ type
  | none => if (member.field? "value").isSome then "" else ": Dynamic"

def classField (member : Part) : Lowering String :=
  if member.has "decorator" then unsupported member "field decorator"
  else if member.has "abstract" then unsupported member "abstract field"
  else do
    let name ← classMemberName member
    let typing := fieldTypeSuffix (← view) member
    let keyword := if member.has "readonly" then "final " else "var "
    let head := memberVisibility member ++ " " ++ staticWord member ++ keyword ++ name ++ typing
    match member.field? "value" with
    | some value => return head ++ " = " ++ (← value.value.expression) ++ ";"
    | none => return head ++ ";"

def classMethod (member : Part) : Lowering String :=
  if member.has "get" || member.has "set" then unsupported member "accessor"
  else if member.has "decorator" then unsupported member "method decorator"
  else do
    checkFlavor member
    let name ← classMemberName member
    let signature := memberVisibility member ++ " " ++ staticWord member ++ "function " ++ name
      ++ typeParameters (← view) (member.field? "type_parameters")
    return (← functionLike signature member .plain).text

structure ClassMember where
  fields : List String
  functions : List String
  isConstructor : Bool
deriving DecidableEq, Repr

def classConstructor (member : Part) : Lowering ClassMember := do
  let function ← functionLike "public function new" member .constructor
  return ⟨function.fields, [function.text], true⟩

/-- A method or the constructor of a class. -/
def classFunction (member : Part) : Lowering ClassMember :=
  if (member.field? "name").any (·.text == "constructor") then classConstructor member
  else do return ⟨[], [← classMethod member], false⟩

def classMember (member : Part) : Lowering ClassMember :=
  match member.kind with
  | "public_field_definition" | "field_definition" => do
    return ⟨[← classField member], [], false⟩
  | "method_definition" => classFunction member
  | "method_signature" | "function_signature" => return ⟨[], [], false⟩
  | "abstract_method_signature" => unsupported member "abstract method"
  | "index_signature" => unsupported member "index signature"
  | "class_static_block" => unsupported member "static block"
  | "decorator" => unsupported member "decorator"
  | kind => unsupported member ("class member " ++ kind)

def baseName (value : Part) : Lowering String := do
  match (← view).spelling? value.text with
  | none => return value.text
  | some (.projectModule _) | some .ambientModule =>
    unsupported value "namespace used as a base class"
  | some _ => unsupported value "extending a foreign class"

/-- The class behind the name of a module, which must be one of the project. -/
def baseMember (value : Part) : Lowering String :=
  match value.field? "object", value.field? "property" with
  | some object, some property => do
    let path ← moduleMember? value object property.text
    match path, (← view).spelling? object.text with
    | some _, some (.foreignModule _) => unsupported value "base class expression"
    | some path, _ => return path
    | none, _ => unsupported value "base class expression"
  | _, _ => unsupported value "base class"

def baseClass (clause : Part) : Lowering String :=
  match clause.field? "value" with
  | none => unsupported clause "extends without a class"
  | some value => do
    let arguments := typeArguments (← view) (clause.field? "type_arguments")
    let base ←
      if value.kind == "identifier" then baseName value
      else if value.kind == "member_expression" then baseMember value
      else unsupported value "base class expression"
    return base ++ arguments

def baseClasses (node : Part) : Lowering (List String) :=
  match node.namedOf? "class_heritage" with
  | none => return []
  | some heritage => forEach (heritage.named.filter (·.kind == "extends_clause")) baseClass

/-- Functions with an empty line in front of each but the first, which has one only
behind fields. -/
def functionLines (fields functions : List String) : List Haxe.Code :=
  match functions with
  | [] => []
  | first :: rest =>
    (if fields.isEmpty then [.line first] else [.line "", .line first])
      ++ rest.flatMap fun function => [.line "", .line function]

def classBody (hasBase : Bool) (members : List ClassMember) : List Haxe.Code :=
  let fields := members.flatMap (·.fields)
  let functions := members.flatMap (·.functions)
  let hasConstructor := members.any (·.isConstructor)
  let functions :=
    if hasConstructor || hasBase then functions
    else "public function new() \x7b\x7d" :: functions
  lines fields ++ functionLines fields functions

def classDeclaration (node : Part) (isPublic : Bool) : Lowering String :=
  if node.has "decorator" then unsupported node "class decorator"
  else
    match node.field? "name" with
    | none => unsupported node "class without a name"
    | some name => do
      let header := visibility isPublic ++ "class " ++ name.text
        ++ typeParameters (← view) (node.field? "type_parameters")
      let bases ← baseClasses node
      let header := bases.foldl (fun header base => header ++ " extends " ++ base) header
      match node.field? "body" with
      | none => unsupported node "class without a body"
      | some body =>
        let members ← forEach body.named classMember
        blockText header (classBody (!bases.isEmpty) members)

/-- The types that an interface builds on. -/
def interfaceBases (view : View) (node : Part) : List String :=
  ((node.named.filter (·.kind == "extends_type_clause")).flatMap (·.named)).map fun base =>
    base.value.type view

def interfaceDeclaration (node : Part) (isPublic : Bool) : Lowering String :=
  match node.field? "name", node.field? "body" with
  | none, _ => unsupported node "interface without a name"
  | _, none => unsupported node "interface without a body"
  | some name, some body => do
    let view ← view
    match typeMembers? view body with
    | none => unsupported body "interface member without a Haxe form"
    | some members =>
      let bases := String.join ((interfaceBases view node).map (· ++ " & "))
      let header := visibility isPublic ++ "typedef " ++ name.text
        ++ typeParameters view (node.field? "type_parameters") ++ " = " ++ bases ++ "\x7b"
      if members.isEmpty then return header ++ "\x7d"
      else codeText [.line header, .nest (lines members), .line "\x7d"]

/-- A type alias; a union of string literals becomes an enum abstract. -/
def aliasDeclaration (node : Part) (isPublic : Bool) : Lowering String :=
  match node.field? "name", node.field? "value" with
  | some name, some value =>
    match literalUnion? value with
    | some literals => codeText ((literalEnum name.text literals).code (visibility isPublic))
    | none => do
      let view ← view
      return visibility isPublic ++ "typedef " ++ name.text
        ++ typeParameters view (node.field? "type_parameters") ++ " = " ++ value.value.type view ++
          ";"
  | _, _ => unsupported node "incomplete type alias"

/-- An enumeration. -/
def enumDeclaration (node : Part) (isPublic : Bool) : Lowering String :=
  match node.field? "name", node.field? "body" with
  | some name, some body =>
    match enumeration name.text body.named with
    | .ok enumeration => codeText (enumeration.code (visibility isPublic))
    | .error (token, detail) => unsupportedToken token detail
  | _, _ => unsupported node "incomplete enum"

def variableLine (isConstant isExported : Bool) (declarator : Part) : Lowering String :=
  match declarator.field? "name" with
  | none => unsupported declarator "declarator without a name"
  | some name =>
    if name.kind != "identifier" then unsupported name "top-level destructuring"
    else do
      let isPublic := isExported || (← read).file.exports.isPublic name.text
      let keyword := if isConstant then "final " else "var "
      let head := visibility isPublic ++ keyword ++ Haxe.sanitize name.text
        ++ typeSuffix (← view) (declarator.field? "type")
      match declarator.field? "value" with
      | some value => return head ++ " = " ++ (← value.value.expression) ++ ";"
      | none =>
        if isConstant then unsupported declarator "constant without an initializer"
        else return head ++ ";"

/-- The variables or constants of a statement. -/
def variableLines (node : Part) (isExported : Bool) : Lowering String := do
  let declarators := node.named.filter (·.kind == "variable_declarator")
  return Text.joinWith "\n" (← forEach declarators (variableLine (node.has "const") isExported))

/-- A declaration with the items it becomes. -/
def topDeclaration (node : Part) (isExported : Bool) : Lowering (List String) := do
  let name := ((node.field? "name").map (·.text)).getD ""
  let isPublic := isExported || (← read).file.exports.isPublic name
  match node.kind with
  | "function_declaration" => return [← namedFunction (visibility isPublic) name node]
  | "generator_function_declaration" => unsupported node "generator function"
  | "class_declaration" => return [← classDeclaration node isPublic]
  | "abstract_class_declaration" => unsupported node "abstract class"
  | "interface_declaration" => return [← interfaceDeclaration node isPublic]
  | "type_alias_declaration" => return [← aliasDeclaration node isPublic]
  | "enum_declaration" => return [← enumDeclaration node isPublic]
  | "lexical_declaration" | "variable_declaration" => return [← variableLines node isExported]
  | "ambient_declaration" | "function_signature" => return []
  | "module" | "internal_module" => unsupported node "namespace declaration"
  | kind => unsupported node ("top-level " ++ kind)

def defaultValue (value : Part) : Lowering (List String) :=
  match value.kind with
  | "identifier" => return []
  | "function_expression" | "function" => return [← namedFunction "" Haxe.defaultMember value]
  | "class" => unsupported value "anonymous default class"
  | _ => return ["final " ++ Haxe.defaultMember ++ " = " ++ (← value.value.expression) ++ ";"]

def exportedDeclaration (declaration : Part) (isDefault : Bool) : Lowering (List String) :=
  if isDefault && declaration.kind == "function_declaration" && (declaration.field? "name").isNone
  then do return [← namedFunction "" Haxe.defaultMember declaration]
  else topDeclaration declaration true

/-- An export statement. Lists of names and names passed on become nothing here. -/
def exportStatement (node : Part) : Lowering (List String) :=
  let isDefault := node.has "default"
  if node.has "=" then unsupported node "export ="
  else if node.has "as" && node.has "namespace" then unsupported node "export as namespace"
  else
    match node.field? "declaration" with
    | some declaration => exportedDeclaration declaration isDefault
    | none =>
      if isDefault then
        match node.field? "value" with
        | some value => defaultValue value
        | none => return []
      else if node.named.any fun part =>
          part.kind == "import_alias" || part.kind == "internal_module" then
        unsupported node "exported namespace or import alias"
      else return []

/-- A top-level statement with the items it becomes. -/
def topLevel (node : Part) : Lowering (List String) :=
  match node.kind with
  | "import_statement" =>
    if (node.namedOf? "import_require_clause").isSome then unsupported node "import = require()"
    else return []
  | "import_alias" => unsupported node "import alias"
  | "export_statement" => exportStatement node
  | "ambient_declaration" | "function_signature" | "empty_statement" => return []
  | "expression_statement" => unsupported node "top-level expression statement"
  | "module" | "internal_module" => unsupported node "namespace declaration"
  | _ => topDeclaration node false

end Haxify.Lower
