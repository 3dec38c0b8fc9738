import Haxify.Lower.Rendering

/-!
# Types

Every type has a Haxe form: what Haxe cannot say becomes `Dynamic`. Names are
spelled as they are, except those of the standard library and of imports.
-/

namespace Haxify.Lower

def dynamicType : String := "Dynamic"

/-- A type with type arguments, if there are any. -/
def withArguments (base : String) (arguments : List String) : String :=
  if arguments.isEmpty then base else base ++ "<" ++ Text.joinWith ", " arguments ++ ">"

def typeOf? (view : View) (part : Option Part) : String :=
  (part.map fun part => part.value.type view).getD dynamicType

/-- An annotation behind a name; nothing if there is none. -/
def typeSuffix (view : View) (part : Option Part) : String :=
  (part.map fun part => ": " ++ part.value.type view).getD ""

def typesOf (view : View) (node : Part) : List String :=
  node.named.map fun part => part.value.type view

/-- Type arguments in brackets; nothing if there are none. -/
def typeArguments (view : View) (node : Option Part) : String :=
  withArguments "" ((node.map (typesOf view)).getD [])

def typeParameter? (view : View) (node : Part) : Option String :=
  if node.kind == "type_parameter" then
    (node.field? "name").map fun name =>
      match (node.field? "constraint").bind (·.first?) with
      | some bound => name.text ++ ":" ++ bound.value.type view
      | none => name.text
  else none

/-- Type parameters in brackets; nothing if there are none. -/
def typeParameters (view : View) (node : Option Part) : String :=
  withArguments "" ((node.map fun node => node.named.filterMap (typeParameter? view)).getD [])

def predefinedType (name : String) : String :=
  match name with
  | "number" => "Float"
  | "string" => "String"
  | "boolean" => "Bool"
  | "void" => "Void"
  | _ => dynamicType

def literalType (node : Part) : String :=
  let isTruth := node.text == "true" || node.text == "false"
  match node.first?.map (·.kind) with
  | some "string" => "String"
  | some "number" | some "unary_expression" => "Float"
  | some "true" | some "false" => "Bool"
  | _ => if isTruth then "Bool" else dynamicType

/-- A named type. Imported names that have a spelling of their own are values in Haxe, so
as types they are anything. -/
def namedType (view : View) (name : String) (arguments : List String) : String :=
  if (view.spelling? name).isSome then dynamicType
  else
    match name with
    | "Array" | "ReadonlyArray" => "Array<" ++ arguments.headD dynamicType ++ ">"
    | "Record" => "haxe.DynamicAccess<" ++ (arguments[1]?).getD dynamicType ++ ">"
    | "Promise" => withArguments "js.lib.Promise" arguments
    | "Error" => "js.lib.Error"
    | "String" => "String"
    | "Number" => "Float"
    | "Boolean" => "Bool"
    | "Object" | "Function" | "Partial" | "Required" | "Readonly" | "Pick" | "Omit" => dynamicType
    | _ => withArguments name arguments

/-- A type named by itself, whatever stands in front. -/
def unqualifiedType (name : String) : String :=
  if Haxe.isIdentifier name then name else dynamicType

/-- A type of a file of the project. -/
def exportedType (program : Program) (index : Nat) (name : String) : String :=
  match Exports.resolve program index name with
  | some (.member found member _) => program.memberPath found member
  | _ => dynamicType

/-- A type behind the name of a module. -/
def qualifiedType (node : Part) (view : View) : String :=
  let name := ((node.field? "name").map (·.text)).getD ""
  match (node.field? "module").filter (·.kind == "identifier") with
  | none => unqualifiedType name
  | some owner =>
    match view.spelling? owner.text with
    | some (.projectModule index) => exportedType view.context.program index name
    | some _ => dynamicType
    | none => unqualifiedType name

def genericType (node : Part) (view : View) : String :=
  let arguments := ((node.field? "type_arguments").map (typesOf view)).getD []
  match node.field? "name" with
  | none => dynamicType
  | some name =>
    if name.kind == "nested_type_identifier" then
      let base := name.value.type view
      if base == dynamicType then base else withArguments base arguments
    else namedType view name.text arguments

/-- Whether an arm of a union stands for no value. -/
def isNullish (arm : Part) : Bool :=
  ["literal_type", "predefined_type", "type_identifier"].contains arm.kind
    && (arm.text == "null" || arm.text == "undefined")

def eitherType : List String → String
  | [] => dynamicType
  | [only] => only
  | first :: rest => "haxe.extern.EitherType<" ++ first ++ ", " ++ eitherType rest ++ ">"

/-- The type of a union from the types of its arms and whether one of them is null. -/
def unionOf (isNullable : Bool) (arms : List String) : String :=
  let base := eitherType arms.eraseDups
  if isNullable && base != dynamicType then "Null<" ++ base ++ ">" else base

/-- A union, whose nesting does not matter. -/
def unionType (node : Part) (view : View) : String :=
  let arms := node.flatten "union_type"
  unionOf (arms.any isNullish)
    ((arms.filter (!isNullish ·)).map fun arm => arm.value.type view)

def wrapFunction (type : String) : String :=
  if Text.occursIn "->".toList type.toList && !Text.beginsWith type "(" then "(" ++ type ++ ")"
  else type

def restElement (view : View) (typing : Option Part) : String :=
  let inner := typing.bind fun part =>
    if part.kind == "type_annotation" then part.first? else some part
  match inner with
  | none => dynamicType
  | some part =>
    if part.kind == "array_type" then typeOf? view part.first?
    else if part.kind == "generic_type" then
      let isArray := ((part.field? "name").map fun name =>
        name.text == "Array" || name.text == "ReadonlyArray").getD false
      match (part.field? "type_arguments").bind (·.first?) with
      | some element => if isArray then element.value.type view else dynamicType
      | none => dynamicType
    else dynamicType

def parameterType? (view : View) (parameter : Part) : Option String :=
  match parameter.field? "pattern" with
  | none => none
  | some pattern =>
    let typing := parameter.field? "type"
    if pattern.kind == "this" then none
    else if pattern.kind == "rest_pattern" then
      some ("haxe.Rest<" ++ restElement view typing ++ ">")
    else if parameter.kind == "optional_parameter" then
      some ("Null<" ++ typeOf? view typing ++ ">")
    else some (typeOf? view typing)

def arrowType (parameters : List String) (result : String) : String :=
  if parameters.isEmpty then "Void -> " ++ wrapFunction result
  else Text.joinWith " -> " (parameters.map wrapFunction) ++ " -> " ++ wrapFunction result

def functionType (node : Part) (view : View) : String :=
  let parameters := ((node.field? "parameters").map (·.named)).getD []
  arrowType (parameters.filterMap (parameterType? view)) (typeOf? view (node.field? "return_type"))

/-- The name of a member, if Haxe can write it. -/
def memberName? (name : Part) : Option String :=
  if name.kind == "property_identifier" then
    if Haxe.isIdentifier name.text then some name.text else none
  else if name.kind == "string" then
    let decoded := TypeScript.decodeLiteral name.text
    if Haxe.isIdentifier decoded then some decoded else none
  else none

def signatureParameter? (view : View) (position : Nat) (parameter : Part) : Option String :=
  match parameter.field? "pattern" with
  | none => none
  | some pattern =>
    let typing := parameter.field? "type"
    if pattern.kind == "identifier" then
      let mark := if parameter.kind == "optional_parameter" then "?" else ""
      some (mark ++ Haxe.sanitize pattern.text ++ ": " ++ typeOf? view typing)
    else if pattern.kind == "rest_pattern" then
      let name := (pattern.first?.map fun name => Haxe.sanitize name.text).getD "rest"
      some ("..." ++ name ++ ": " ++ restElement view typing)
    else if pattern.kind == "this" then none
    else some ("arg" ++ toString position ++ ": " ++ typeOf? view typing)

def signatureParameters (view : View) (node : Option Part) : List String :=
  ((node.map (·.named)).getD []).foldl
    (fun done parameter => done ++ (signatureParameter? view done.length parameter).toList) []

/-- One field of an object type; none if Haxe has no form for it. -/
def typeMember? (view : View) (member : Part) : Option String := do
  let mark := if member.has "?" then "@:optional " else ""
  if member.kind == "property_signature" then
    let name ← (member.field? "name").bind memberName?
    let keyword := if member.has "readonly" then "final " else "var "
    return mark ++ keyword ++ name ++ ": " ++ typeOf? view (member.field? "type") ++ ";"
  else if member.kind == "method_signature" && !(member.has "get" || member.has "set") then
    let name ← (member.field? "name").bind memberName?
    let parameters := Text.joinWith ", " (signatureParameters view (member.field? "parameters"))
    return mark ++ "function " ++ name ++ "(" ++ parameters ++ "): "
      ++ typeOf? view (member.field? "return_type") ++ ";"
  else none

/-- The fields of an object type; none if Haxe has no form for one of them. -/
def typeMembers? (view : View) (body : Part) : Option (List String) :=
  body.named.mapM (typeMember? view)

/-- The value type of an object type that has nothing but an index signature. -/
def indexedType? (view : View) (node : Part) : Option String :=
  match node.named with
  | [only] =>
    if only.kind == "index_signature" then
      some (typeOf? view ((only.field? "type").or only.named.getLast?))
    else none
  | _ => none

def objectType (node : Part) (view : View) : String :=
  match indexedType? view node with
  | some value => "haxe.DynamicAccess<" ++ value ++ ">"
  | none =>
    match typeMembers? view node with
    | none => dynamicType
    | some [] => "\x7b\x7d"
    | some members => "\x7b " ++ Text.joinWith " " members ++ " \x7d"

def innerType (node : Part) (view : View) : String := typeOf? view node.first?

/-- The rule for each kind of type; all others are anything. -/
def typeRules : List (String × (Part → View → String)) :=
  [("type_annotation", innerType),
   ("opting_type_annotation", innerType),
   ("omitting_type_annotation", innerType),
   ("type_predicate_annotation", fun _ _ => "Bool"),
   ("asserts_annotation", fun _ _ => "Void"),
   ("predefined_type", fun node _ => predefinedType node.text),
   ("type_identifier", fun node view => namedType view node.text []),
   ("identifier", fun node view => namedType view node.text []),
   ("nested_type_identifier", qualifiedType),
   ("generic_type", genericType),
   ("array_type", fun node view => "Array<" ++ innerType node view ++ ">"),
   ("readonly_type", innerType),
   ("parenthesized_type", innerType),
   ("literal_type", fun node _ => literalType node),
   ("union_type", unionType),
   ("intersection_type", fun node view => Text.joinWith " & " (typesOf view node)),
   ("function_type", functionType),
   ("object_type", objectType)]

/-- The Haxe form of a type. -/
def renderType (node : Part) (view : View) : String :=
  match typeRules.lookup node.kind with
  | some rule => rule node view
  | none => dynamicType

end Haxify.Lower
