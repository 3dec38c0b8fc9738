import Haxify.Haxe.Parentheses
import Haxify.Lower.Builtin
import Haxify.Lower.Function
import Haxify.Lower.Number
import Haxify.Lower.Spread

/-!
# Expressions

One rule for each kind of expression. A kind without a rule has no Haxe form, and
neither has the file it stands in.
-/

namespace Haxify.Lower

/-- The expression inside a node that adds nothing to it. -/
def innerExpression (node : Part) : Lowering Part :=
  let isInner (part : Part) := !Text.endsIn part.kind "type" && part.kind != "type_arguments"
  match (node.field? "expression").or (node.named.find? isInner) with
  | some inner => return inner
  | none => unsupported node "empty expression"

/-- A number. -/
def number (node : Part) : Lowering String :=
  match numberText node.text with
  | .ok text => return text
  | .error error => unsupported node error.message

inductive TemplatePiece where
  | chunk (text : String)
  /-- A node that holds an expression. -/
  | substitution (node : Part)

/-- The text of a template between two byte offsets of the file; nothing if there is none. -/
def templateChunk (node : Part) (start stop : Nat) : List TemplatePiece :=
  let offset := node.token.start
  let text := Text.slice node.text.toList (start - offset) (stop - offset)
  if text == "" then [] else [.chunk text]

/-- The pieces of a template from a byte offset on, up to where its text ends. -/
def templatePieces (node : Part) (start stop : Nat) : List Part → List TemplatePiece
  | [] => templateChunk node start stop
  | child :: rest =>
    if child.kind == "template_substitution" then
      templateChunk node start child.token.start
        ++ .substitution child :: templatePieces node child.token.stop stop rest
    else templatePieces node start stop rest

def templateOperand : TemplatePiece → Lowering String
  | .chunk text => return Haxe.quote (TypeScript.decodeEscapes text)
  | .substitution node =>
    match node.first? with
    | some expression => expression.value.expression
    | none => unsupported node "empty substitution"

def literalOperandFirst (operands : List String) : List String :=
  match operands with
  | first :: _ => if Text.beginsWith first "\"" then operands else "\"\"" :: operands
  | [] => ["\"\""]

def concatenation (operands : List String) : String :=
  match literalOperandFirst operands with
  | [only] => only
  | several => "(" ++ Text.joinWith " + " several ++ ")"

def template (node : Part) : Lowering String := do
  let start := node.token.start + 1
  let stop := max (node.token.stop - 1) start
  return concatenation (← forEach (templatePieces node start stop node.named) templateOperand)

/-- The member of a name that stands for a whole module, if it does. -/
def moduleMember? (node object : Part) (member : String) : Lowering (Option String) := do
  match (← view).moduleMember object.text member with
  | .ok path => return path
  | .error detail => unsupported node detail

/-- The name of a property, which must not be a Haxe keyword. -/
def propertyName (property : Part) : Lowering String :=
  if property.kind == "private_property_identifier" then unsupported property "private name"
  else if Haxe.isReserved property.text then
    unsupported property ("property " ++ property.text ++ " is a Haxe keyword")
  else return property.text

def plainMember (object property : Part) (isOptional : Bool) : Lowering String := do
  let name ← propertyName property
  let target ← object.value.expression
  return target ++ (if isOptional then "?." else ".") ++ name

/-- A property of a value or a member of a module. -/
def member (node : Part) : Lowering String :=
  match node.field? "object", node.field? "property" with
  | some object, some property => do
    let isOptional := node.has "optional_chain"
    let path ←
      if object.kind == "identifier" && !isOptional then moduleMember? node object property.text
      else pure none
    match path with
    | some path => return path
    | none => plainMember object property isOptional
  | _, _ => unsupported node "incomplete member access"

/-- An element of a value or a member of a module. -/
def subscript (node : Part) : Lowering String :=
  if node.has "optional_chain" then unsupported node "optional subscript"
  else
    match node.field? "object", node.field? "index" with
    | some object, some index => do
      let path ←
        if object.kind == "identifier" && index.kind == "string" then
          moduleMember? node object (TypeScript.decodeLiteral index.text)
        else pure none
      match path with
      | some path => return path
      | none =>
        let target ← object.value.expression
        let position ← index.value.expression
        return target ++ "[" ++ position ++ "]"
    | _, _ => unsupported node "incomplete subscript"

/-- The arguments of a call, none of which may be spread. -/
def callArguments (node : Part) : Lowering (List Part) := do
  let arguments ← match node.field? "arguments" with
    | some list =>
      if list.kind == "arguments" then pure list.named else unsupported list "tagged template"
    | none => pure []
  match arguments.find? (·.kind == "spread_element") with
  | some spread => unsupported spread "spread argument"
  | none => return arguments

def plainCall (node callee : Part) (arguments : List Part) : Lowering String := do
  let texts := Text.joinWith ", " (← expressions arguments)
  if node.has "optional_chain" then
    if callee.kind != "identifier" then unsupported node "optional call on a non-identifier"
    else
      let function ← nameValue callee
      return "(" ++ function ++ " != null ? " ++ function ++ "(" ++ texts ++ ") : null)"
  else
    return (← callee.value.expression) ++ "(" ++ texts ++ ")"

def call (node : Part) : Lowering String :=
  match node.field? "function" with
  | none => unsupported node "call without callee"
  | some callee =>
    if callee.kind == "import" then unsupported node "dynamic import"
    else do
      let arguments ← callArguments node
      match ← builtinCall? callee arguments with
      | some text => return text
      | none => plainCall node callee arguments

def constructedClass (constructor : Part) : Lowering String := do
  let isGlobal := constructor.kind == "identifier" && !(← view).isLocal constructor.text
  match constructorName? constructor.text with
  | some builtin => if isGlobal then return builtin else constructor.value.expression
  | none => constructor.value.expression

/-- An argument of a constructor call, which must not be spread. -/
def constructorArgument (argument : Part) : Lowering String :=
  if argument.kind == "spread_element" then unsupported argument "spread argument"
  else argument.value.expression

/-- A constructor call. -/
def construction (node : Part) : Lowering String :=
  match node.field? "constructor" with
  | none => unsupported node "new without constructor"
  | some constructor => do
    let type ← constructedClass constructor
    let typed := typeArguments (← view) (node.field? "type_arguments")
    let arguments ←
      forEach (((node.field? "arguments").map (·.named)).getD []) constructorArgument
    return "new " ++ type ++ typed ++ "(" ++ Text.joinWith ", " arguments ++ ")"

/-- The binary operators that Haxe writes alike. -/
def sharedOperators : List String :=
  ["+", "-", "*", "/", "%", "<", ">", "<=", ">=", "&&", "||", "??", "&", "|", "^", "<<", ">>",
    ">>>"]

/-- A binary operation; none if Haxe has no form for the operator. -/
def binaryText? (operator left right : String) : Option String :=
  match operator with
  | "===" | "==" => some ("(" ++ left ++ " == " ++ right ++ ")")
  | "!==" | "!=" => some ("(" ++ left ++ " != " ++ right ++ ")")
  | "**" => some ("Math.pow(" ++ left ++ ", " ++ right ++ ")")
  | "instanceof" => some ("Std.isOfType(" ++ left ++ ", " ++ right ++ ")")
  | "in" => some ("Reflect.hasField(" ++ right ++ ", " ++ left ++ ")")
  | _ =>
    if sharedOperators.contains operator then
      some ("(" ++ left ++ " " ++ operator ++ " " ++ right ++ ")")
    else none

def binary (node : Part) : Lowering String :=
  match node.field? "left", node.field? "operator", node.field? "right" with
  | some left, some operator, some right =>
    if left.kind == "private_property_identifier" then unsupported left "private name test"
    else do
      let first ← left.value.expression
      let second ← right.value.expression
      match binaryText? operator.text first second with
      | some text => return text
      | none => unsupported operator ("operator " ++ operator.text)
  | _, _, _ => unsupported node "incomplete binary expression"

def deletedKey (target : Part) : Lowering String :=
  if target.kind == "member_expression" && !target.has "optional_chain" then
    match target.field? "property" with
    | some property => return Haxe.quote property.text
    | none => unsupported target "incomplete member access"
  else if target.kind == "subscript_expression" then
    match target.field? "index" with
    | some index => index.value.expression
    | none => unsupported target "incomplete subscript"
  else unsupported target "delete of a non-member"

def deletion (target : Part) : Lowering String :=
  match target.field? "object" with
  | none => unsupported target "delete of a non-member"
  | some object => do
    let key ← deletedKey target
    return "Reflect.deleteField(" ++ (← object.value.expression) ++ ", " ++ key ++ ")"

def unary (node : Part) : Lowering String :=
  match node.field? "operator", node.field? "argument" with
  | some operator, some argument =>
    if ["!", "-", "~"].contains operator.text then do
      return operator.text ++ Haxe.parenthesize (← argument.value.expression)
    else if operator.text == "delete" then deletion argument
    else unsupported node ("unary " ++ operator.text)
  | _, _ => unsupported node "incomplete unary expression"

/-- An increment or decrement, on the side it was written. -/
def update (node : Part) : Lowering String :=
  match node.field? "operator", node.field? "argument" with
  | some operator, some argument => do
    let target ← argument.value.expression
    if operator.token.start < argument.token.start then return operator.text ++ target
    else return target ++ operator.text
  | _, _ => unsupported node "incomplete update expression"

/-- An assignment to a pattern as a value: a block that yields the value taken apart. -/
def patternAssignment (pattern source : Part) : Lowering String := do
  let (temp, steps) ← destructure .assignment pattern source
  return "\x7b " ++ Text.joinWith " " (steps.map BindingStep.render ++ [temp ++ ";"]) ++ " \x7d"

def assignment (node : Part) : Lowering String :=
  match node.field? "left", node.field? "right" with
  | some left, some right =>
    if isPattern left then patternAssignment left right
    else do
      let target ← left.value.expression
      let value ← right.value.expression
      return target ++ " = " ++ value
  | _, _ => unsupported node "incomplete assignment"

/-- The value that an assignment with an operator stands for, where Haxe lacks the
operator. -/
def expandedAssignment? (operator target value : String) : Option String :=
  match operator with
  | "??=" => some ("(" ++ target ++ " ?? " ++ value ++ ")")
  | "||=" => some ("(" ++ target ++ " || " ++ value ++ ")")
  | "&&=" => some ("(" ++ target ++ " && " ++ value ++ ")")
  | "**=" => some ("Math.pow(" ++ target ++ ", " ++ value ++ ")")
  | _ => none

def augmentedAssignment (node : Part) : Lowering String :=
  match node.field? "left", node.field? "operator", node.field? "right" with
  | some left, some operator, some right => do
    let target ← left.value.expression
    let value ← right.value.expression
    match expandedAssignment? operator.text target value with
    | some expanded =>
      if left.kind != "identifier" then
        unsupported node (operator.text ++ " on a non-identifier target")
      else return target ++ " = " ++ expanded
    | none => return target ++ " " ++ operator.text ++ " " ++ value
  | _, _, _ => unsupported node "incomplete assignment"

/-- A choice between two values. -/
def ternary (node : Part) : Lowering String := do
  let condition ← required node "condition"
  let consequence ← required node "consequence"
  let alternative ← required node "alternative"
  return "(" ++ condition ++ " ? " ++ consequence ++ " : " ++ alternative ++ ")"

/-- The expression and the type of a cast. -/
def castParts (node : Part) : Option Part × Option Part :=
  if node.kind == "type_assertion" then (node.named[1]?, node.named[0]?.bind (·.first?))
  else (node.named[0]?, node.named[1]?)

/-- A cast. One that only keeps a literal's type narrow adds nothing. -/
def castExpression (node : Part) : Lowering String :=
  match castParts node with
  | (none, _) => unsupported node "empty cast"
  | (some expression, type) => do
    let value ← expression.value.expression
    match type with
    | some type =>
      if node.has "const" then return value
      else return "(cast " ++ value ++ " : " ++ type.value.type (← view) ++ ")"
    | none => return value

/-- Expressions that are evaluated in order; the last one is the value. -/
def sequence (node : Part) : Lowering String := do
  let texts ← expressions (node.flatten "sequence_expression")
  return "\x7b " ++ Text.joinWith "; " texts ++ "; \x7d"

/-- An expression in parentheses. -/
def parenthesized (node : Part) : Lowering String := do
  let inner ← innerExpression node
  let text ← inner.value.expression
  return if inner.kind == "sequence_expression" then text else Haxe.parenthesize text

/-- A key of an object literal. -/
def keyText (name : String) : String :=
  if Haxe.isIdentifier name then name else Haxe.quote name

def objectKey (key : Part) : Lowering String :=
  match key.kind with
  | "property_identifier" => return keyText key.text
  | "string" => return keyText (TypeScript.decodeLiteral key.text)
  | "number" => return Haxe.quote key.text
  | "computed_property_name" => unsupported key "computed property key"
  | _ => unsupported key "property key"

def spreadOperand (node : Part) : Lowering Item :=
  match node.first? with
  | some operand => return .spread (← operand.value.expression)
  | none => unsupported node "empty spread"

def objectMember (node : Part) : Lowering Item :=
  match node.kind with
  | "pair" =>
    match node.field? "key", node.field? "value" with
    | some key, some value => do
      let name ← objectKey key
      return .plain (name ++ ": " ++ (← value.value.expression))
    | _, _ => unsupported node "incomplete property"
  | "shorthand_property_identifier" => do
    return .plain (keyText node.text ++ ": " ++ (← nameValue node))
  | "method_definition" =>
    match node.field? "name" with
    | some name => do
      let key ← objectKey name
      return .plain (key ++ ": " ++ (← functionValue node))
    | none => unsupported node "method without a name"
  | "spread_element" => spreadOperand node
  | _ => unsupported node "object literal member"

def object (node : Part) : Lowering String := do
  return objectText (← forEach node.named objectMember)

/-- One element of an array literal. -/
def arrayItem (node : Part) : Lowering Item :=
  if node.kind == "spread_element" then spreadOperand node
  else do return .plain (← node.value.expression)

/-- The elements of an array literal; a comma where an element is due is a hole. -/
def arrayItems (isDue : Bool) : List Part → Lowering (List Item)
  | [] => return []
  | node :: rest =>
    if node.kind == "[" || node.kind == "]" then arrayItems isDue rest
    else if node.kind == "," then
      if isDue then unsupported node "array hole" else arrayItems true rest
    else do
      let item ← arrayItem node
      return item :: (← arrayItems false rest)

def array (node : Part) : Lowering String := do
  return arrayText (← arrayItems true node.parts)

def itself (node : Part) : Lowering String := return node.text

/-- A rule that always fails. -/
def refuse (detail : String) (node : Part) : Lowering String := unsupported node detail

def expressionRules : List (String × (Part → Lowering String)) :=
  [("identifier", nameValue),
   ("undefined", fun _ => return "null"),
   ("null", fun _ => return "null"),
   ("true", itself),
   ("false", itself),
   ("this", itself),
   ("super", itself),
   ("number", number),
   ("string", fun node => return Haxe.quote (TypeScript.decodeLiteral node.text)),
   ("template_string", template),
   ("member_expression", member),
   ("subscript_expression", subscript),
   ("call_expression", call),
   ("new_expression", construction),
   ("binary_expression", binary),
   ("unary_expression", unary),
   ("update_expression", update),
   ("assignment_expression", assignment),
   ("augmented_assignment_expression", augmentedAssignment),
   ("ternary_expression", ternary),
   ("arrow_function", functionValue),
   ("function_expression", functionValue),
   ("function", functionValue),
   ("object", object),
   ("array", array),
   ("as_expression", castExpression),
   ("type_assertion", castExpression),
   ("satisfies_expression", fun node => do (← innerExpression node).value.expression),
   ("non_null_expression", fun node => do
     return Haxe.parenthesize (← (← innerExpression node).value.expression)),
   ("parenthesized_expression", parenthesized),
   ("sequence_expression", sequence),
   ("await_expression", refuse "await"),
   ("yield_expression", refuse "yield"),
   ("regex", refuse "regular expression literal"),
   ("class", refuse "class expression"),
   ("generator_function", refuse "generator function")]

/-- The Haxe form of an expression. -/
def renderExpression (node : Part) : Lowering String :=
  match expressionRules.lookup node.kind with
  | some rule => rule node
  | none => unsupported node ("expression of kind " ++ node.kind)

end Haxify.Lower
