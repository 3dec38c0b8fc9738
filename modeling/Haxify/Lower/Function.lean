import Haxify.Lower.Pattern
import Haxify.Lower.Type

/-!
# Functions

Parameters with defaults and patterns leave statements that run before the body.
Parameters of a constructor may also be fields of the class, which are assigned
right behind the call of the base constructor.
-/

namespace Haxify.Lower

/-- A parameter of a constructor that is a field of the class too. -/
structure Property where
  /-- Who may see the field. -/
  access : String
  /-- Whether it is never assigned again. -/
  isConstant : Bool
  name : String
  /-- Its annotation. -/
  typing : String
deriving DecidableEq, Repr

def Property.field (property : Property) : String :=
  property.access ++ (if property.isConstant then " final " else " var ") ++ property.name
    ++ property.typing ++ ";"

def Property.assignment (property : Property) : String :=
  "this." ++ property.name ++ " = " ++ property.name ++ ";"

structure Parameters where
  /-- The parameters as they are written. -/
  list : List String
  /-- What runs before the body. -/
  prelude : List String
  /-- The parameters that are fields too. -/
  properties : List Property
deriving DecidableEq, Repr

def Parameters.none : Parameters := ⟨[], [], []⟩

/-- The parameters of one list, then those of another. -/
def Parameters.append (first second : Parameters) : Parameters :=
  ⟨first.list ++ second.list, first.prelude ++ second.prelude,
    first.properties ++ second.properties⟩

/-- What gives a parameter its default. -/
def defaultLine (name value : String) : String :=
  "if (" ++ name ++ " == null) " ++ name ++ " = " ++ value ++ ";"

def defaultLines (name : String) (default : Option Part) : Lowering (List String) :=
  match default with
  | some default => return [defaultLine name (← default.value.expression)]
  | none => return []

/-- Who may see the field that a parameter is, if it is one. -/
def propertyAccess? (parameter : Part) : Option String :=
  match parameter.namedOf? "accessibility_modifier" with
  | some modifier => some (if modifier.text == "public" then "public" else "private")
  | none => if parameter.has "readonly" then some "public" else none

def property? (parameter : Part) (name typing : String) : Option Property :=
  (propertyAccess? parameter).map fun access =>
    { access
      isConstant := parameter.has "readonly"
      name
      typing := if typing == "" then ": Dynamic" else typing }

def namedParameter (parameter pattern : Part) (mark typing : String) : Lowering Parameters := do
  let name := Haxe.sanitize pattern.text
  bindLocal pattern.text
  let prelude ← defaultLines name (parameter.field? "value")
  return ⟨[mark ++ name ++ typing], prelude, (property? parameter name typing).toList⟩

/-- A parameter that takes all further arguments. -/
def restParameter (parameter pattern : Part) : Lowering Parameters :=
  match pattern.first?.filter (·.kind == "identifier") with
  | none => unsupported pattern "destructured rest parameter"
  | some target => do
    bindLocal target.text
    let element := restElement (← view) (parameter.field? "type")
    return ⟨["..." ++ Haxe.sanitize target.text ++ ": " ++ element], [], []⟩

/-- A parameter that takes its argument apart. -/
def patternParameter (parameter pattern : Part) (mark typing : String) : Lowering Parameters := do
  let temp ← freshTemp
  let prelude ← defaultLines temp (parameter.field? "value")
  let steps ← unpackFrom .variable pattern temp
  return ⟨[mark ++ temp ++ typing], prelude ++ steps.map BindingStep.render, []⟩

def parameter (node : Part) : Lowering Parameters :=
  if node.kind == "decorator" || node.has "decorator" then unsupported node "parameter decorator"
  else
    match node.field? "pattern" with
    | none => unsupported node "parameter"
    | some pattern => do
      let typing := typeSuffix (← view) (node.field? "type")
      let isOptional := node.kind == "optional_parameter" || (node.field? "value").isSome
      let mark := if isOptional then "?" else ""
      if pattern.kind == "this" then return .none
      else if pattern.kind == "identifier" then namedParameter node pattern mark typing
      else if pattern.kind == "rest_pattern" then restParameter node pattern
      else if isPattern pattern then patternParameter node pattern mark typing
      else unsupported pattern "parameter pattern"

/-- The parameters of a function: a single name, or a list. -/
def parameters (node : Part) : Lowering Parameters :=
  match node.field? "parameter" with
  | some single => do
    bindLocal single.text
    return ⟨[Haxe.sanitize single.text], [], []⟩
  | none =>
    match node.field? "parameters" with
    | none => return .none
    | some list => return (← forEach list.named parameter).foldl Parameters.append .none

/-- What a function is in its class or file. -/
inductive FunctionRole where
  /-- A function or method. -/
  | plain
  | constructor
deriving DecidableEq, Repr

structure FunctionText where
  /-- The function. -/
  text : String
  fields : List String
deriving DecidableEq, Repr

def isSuperCall (statement : Part) : Bool :=
  statement.kind == "expression_statement" && (statement.first?.any fun expression =>
    expression.kind == "call_expression"
      && (expression.field? "function").any (·.kind == "super"))

/-- The number of statements behind which fields are assigned: all up to the first call
of the base constructor, or none. -/
def injectionPoint (statements : List Part) : Nat :=
  match statements.findIdx? isSuperCall with
  | some index => index + 1
  | none => 0

def lines (texts : List String) : List Haxe.Code := texts.map .line

/-- The body of a function: what runs first, then the statements, with the assignments
of fields among them. -/
def bodyCode (prelude injected : List String) (body : List Part) : Lowering (List Haxe.Code) := do
  let codes ← forEach body fun statement => statement.value.statement
  let point := injectionPoint body
  return lines prelude ++ (codes.take point).flatten ++ lines injected ++ (codes.drop point).flatten

/-- The assignments of fields in the body of a function. -/
def injectedLines (role : FunctionRole) (parameters : Parameters) : List String :=
  match role with
  | .constructor => parameters.properties.map Property.assignment
  | .plain => []

def propertyFields (role : FunctionRole) (parameters : Parameters) : List String :=
  match role with
  | .constructor => parameters.properties.map Property.field
  | .plain => []

def blockText (header : String) (body : List Haxe.Code) : Lowering String := do
  return Haxe.Code.render (← read).indent (Haxe.Code.block header body)

def expressionBody (header : String) (prelude : List String) (body : Part) : Lowering String := do
  let value ← body.value.expression
  if prelude.isEmpty then return header ++ " return " ++ value
  else blockText header (lines prelude ++ [.line ("return " ++ value ++ ";")])

def blockBody (header : String) (prelude injected : List String) (body : Part) :
    Lowering String := do
  if body.named.isEmpty && prelude.isEmpty && injected.isEmpty then return header ++ " \x7b\x7d"
  else blockText header (← bodyCode prelude injected body.named)

/-- A function with its parameters and its body, within its scope. -/
def functionInside (signature : String) (node : Part) (role : FunctionRole) :
    Lowering FunctionText := do
  let parameters ← parameters node
  let typing := typeSuffix (← view) (node.field? "return_type")
  let result := if role = .constructor then "" else typing
  let header := signature ++ "(" ++ Text.joinWith ", " parameters.list ++ ")" ++ result
  match node.field? "body" with
  | none => unsupported node "function without a body"
  | some body =>
    let text ←
      if body.kind == "statement_block" then
        blockBody header parameters.prelude (injectedLines role parameters) body
      else expressionBody header parameters.prelude body
    return ⟨text, propertyFields role parameters⟩

/-- A function, whose parameters and body have a scope of their own and which no jump
leaves. -/
def functionLike (signature : String) (node : Part) (role : FunctionRole) : Lowering FunctionText :=
  withScope (withJump .function (functionInside signature node role))

/-- Fails on functions that suspend. -/
def checkFlavor (node : Part) : Lowering Unit :=
  if node.has "async" then unsupported node "async function"
  else if node.has "*" then unsupported node "generator function"
  else pure ()

def namedFunction (before : String) (name : String) (node : Part) : Lowering String := do
  checkFlavor node
  let signature := before ++ "function " ++ Haxe.sanitize name
    ++ typeParameters (← view) (node.field? "type_parameters")
  return (← functionLike signature node .plain).text

def functionValue (node : Part) : Lowering String := do
  checkFlavor node
  if node.kind == "method_definition" && (node.has "get" || node.has "set") then
    unsupported node "accessor in object literal"
  else return (← functionLike "function" node .plain).text

end Haxify.Lower
