import Haxify.Lower.Expression
import Haxify.Lower.Switch

/-!
# Statements

One rule for each kind of statement. Blocks and bodies have a scope of their own;
a counting loop becomes a loop with its step at the end of the body.
-/

namespace Haxify.Lower

open Haxe (Code sanitize)

/-- The statements of a block in a scope of their own. -/
def blockStatements (block : Part) : Lowering (List Code) :=
  withScope (statements block.named)

/-- A statement as a body: the statements of a block, or the one statement. -/
def bodyOf (node : Option Part) : Lowering (List Code) :=
  match node with
  | some part =>
    if part.kind == "statement_block" then blockStatements part
    else withScope part.value.statement
  | none => return []

def loopBody (jump : Jump) (node : Part) : Lowering (List Code) :=
  withJump jump (bodyOf (node.field? "body"))

/-- The condition of a statement in parentheses. -/
def condition (node : Part) : Lowering String :=
  match node.field? "condition" with
  | some condition => return Haxe.parenthesize (← condition.value.expression)
  | none => unsupported node "missing condition"

/-- The lines of steps that take a value apart. -/
def stepLines (steps : List BindingStep) : List Code :=
  lines (steps.map BindingStep.render)

/-- The pattern and the value of an assignment that takes a value apart. -/
def patternAssigned? (node : Part) : Option (Part × Part) :=
  if node.kind == "assignment_expression" then
    match node.field? "left", node.field? "right" with
    | some left, some right => if isPattern left then some (left, right) else none
    | _, _ => none
  else none

def expressionLine (node : Part) : Lowering (List Code) :=
  match patternAssigned? node with
  | some (pattern, source) => return stepLines (← destructure .assignment pattern source).2
  | none => return [.line ((← node.value.expression) ++ ";")]

/-- An expression statement; the parts of a sequence become statements of their own. -/
def expressionStatement (node : Part) : Lowering (List Code) :=
  match node.first? with
  | none => return []
  | some expression => do
    let parts := if expression.kind == "sequence_expression" then expression.named else [expression]
    return (← forEach parts expressionLine).flatten

def nameDeclarator (keyword : String) (declarator name : Part) : Lowering (List Code) := do
  bindLocal name.text
  let head := keyword ++ " " ++ sanitize name.text
    ++ typeSuffix (← view) (declarator.field? "type")
  match declarator.field? "value" with
  | some value => return [.line (head ++ " = " ++ (← value.value.expression) ++ ";")]
  | none => return [.line (head ++ ";")]

def declarator (isConstant : Bool) (node : Part) : Lowering (List Code) :=
  match node.field? "name" with
  | none => unsupported node "declarator without a name"
  | some name =>
    if name.kind == "identifier" then
      nameDeclarator (if isConstant then "final" else "var") node name
    else
      match node.field? "value" with
      | none => unsupported node "destructuring without an initializer"
      | some value => do
        let mode := if isConstant then BindingMode.constant else .variable
        return stepLines (← destructure mode name value).2

/-- A declaration of variables or constants. -/
def declaration (node : Part) : Lowering (List Code) := do
  let declarators := node.named.filter (·.kind == "variable_declarator")
  return (← forEach declarators (declarator (node.has "const"))).flatten

/-- What follows the first branch of a conditional. -/
def otherwise (node : Part) : Lowering (List Code) :=
  match (node.field? "alternative").bind (·.first?) with
  | some next => next.value.alternative
  | none => return [.line "\x7d"]

/-- A conditional behind a word and its condition. -/
def conditional (opening : String) (node : Part) : Lowering (List Code) := do
  let condition ← condition node
  let body ← bodyOf (node.field? "consequence")
  return .line (opening ++ condition ++ " \x7b") :: .nest body :: (← otherwise node)

/-- A statement as what follows the first branch of a conditional. -/
def renderAlternative (node : Part) (statement : Lowering (List Code)) :
    Lowering (List Code) :=
  if node.kind == "if_statement" then conditional "\x7d else if " node
  else do
    let body ←
      if node.kind == "statement_block" then blockStatements node else withScope statement
    return [.line "\x7d else \x7b", .nest body, .line "\x7d"]

/-- A loop with its condition in front. -/
def whileStatement (node : Part) : Lowering (List Code) := do
  let condition ← condition node
  return Haxe.Code.block ("while " ++ condition) (← loopBody (.loop false) node)

/-- A loop with its condition behind. -/
def doStatement (node : Part) : Lowering (List Code) := do
  let body ← loopBody (.loop false) node
  let condition ← condition node
  return [.line "do \x7b", .nest body, .line ("\x7d while " ++ condition ++ ";")]

def loopStart (node : Option Part) : Lowering (List Code) :=
  match node with
  | none => return []
  | some start =>
    if ["lexical_declaration", "variable_declaration", "expression_statement"].contains start.kind
    then start.value.statement
    else if start.kind == "empty_statement" || start.kind == ";" then return []
    else expressionLine start

/-- The condition of a counting loop, which holds if there is none. -/
def loopCondition (node : Option Part) : Lowering String :=
  match node with
  | none => return "true"
  | some condition =>
    if condition.kind == "expression_statement" then
      match condition.first? with
      | some expression => expression.value.expression
      | none => return "true"
    else if condition.isNamed && condition.kind != "empty_statement" then
      condition.value.expression
    else return "true"

/-- What a counting loop does after each round. -/
def loopStep (node : Option Part) : Lowering (List Code) :=
  match node with
  | some step => expressionLine step
  | none => return []

/-- A counting loop: a block with its start and a loop whose body ends with the step. -/
def forStatement (node : Part) : Lowering (List Code) :=
  withScope do
    let start ← loopStart (node.field? "initializer")
    let condition ← loopCondition (node.field? "condition")
    let body ← loopBody (.loop true) node
    let step ← loopStep (node.field? "increment")
    let loop := Haxe.Code.block ("while " ++ Haxe.parenthesize condition) (body ++ step)
    return [.line "\x7b", .nest (start ++ loop), .line "\x7d"]

/-- The variable of a loop over items, and what its body starts with. -/
def loopVariable (mode : BindingMode) (target : Part) : Lowering (String × List Code) :=
  if target.kind == "identifier" then do
    bindLocal target.text
    return (sanitize target.text, [])
  else if isPattern target then do
    let temp ← freshTemp
    return (temp, stepLines (← unpackFrom mode target temp))
  else unsupported target "for loop target"

def loopMode (node : Part) : BindingMode :=
  if (node.field? "kind").any (·.text == "const") then .constant else .variable

/-- A loop over items. -/
def iteration (node target : Part) (items : String) : Lowering (List Code) :=
  withScope do
    let (name, start) ← loopVariable (loopMode node) target
    let body ← loopBody (.loop false) node
    return Haxe.Code.block ("for (" ++ name ++ " in " ++ items ++ ")") (start ++ body)

/-- A loop over the elements or over the field names of a value. -/
def forInStatement (node : Part) : Lowering (List Code) :=
  if node.has "await" then unsupported node "for await"
  else
    match node.field? "left", node.field? "right" with
    | some target, some source => do
      let value ← source.value.expression
      let isOverFields := (node.field? "operator").any (·.text == "in")
      iteration node target (if isOverFields then "Reflect.fields(" ++ value ++ ")" else value)
    | _, _ => unsupported node "incomplete for header"

/-- A jump out of a loop. In a switch, only the jump that ends a case has a Haxe form. -/
def breakStatement (node : Part) : Lowering (List Code) := do
  if (node.field? "label").isSome then unsupported node "labeled break"
  else
    match leftBy (← get).jumps with
    | some .switch => unsupported node "break before the end of a switch case"
    | some _ => return [.line "break;"]
    | none => unsupported node "break outside a loop"

/-- A jump to the next round of a loop, which in a counting loop passes over its step. -/
def continueStatement (node : Part) : Lowering (List Code) := do
  if (node.field? "label").isSome then unsupported node "labeled continue"
  else
    if restartedBy (← get).jumps = some (.loop true) then recordGap node.token.position
    return [.line "continue;"]

/-- The end of a function, with or without a value. -/
def returnStatement (node : Part) : Lowering (List Code) :=
  match node.first? with
  | some value => return [.line ("return " ++ (← value.value.expression) ++ ";")]
  | none => return [.line "return;"]

def throwStatement (node : Part) : Lowering (List Code) :=
  match node.first? with
  | some value => return [.line ("throw " ++ (← value.value.expression) ++ ";")]
  | none => unsupported node "throw without a value"

/-- A function declared in a body. -/
def localFunction (node : Part) : Lowering (List Code) := do
  let name := node.field? "name"
  if let some name := name then bindLocal name.text
  return [.line (← namedFunction "" ((name.map (·.text)).getD "") node)]

/-- The name under which a handler knows what was thrown. -/
def caughtName (parameter : Option Part) : Lowering String :=
  match parameter with
  | none => return "_"
  | some parameter =>
    if parameter.kind == "identifier" then do
      bindLocal parameter.text
      return sanitize parameter.text
    else unsupported parameter "destructured catch binding"

/-- A block with a handler. -/
def tryStatement (node : Part) : Lowering (List Code) :=
  match node.field? "finalizer", node.field? "handler" with
  | some finalizer, _ => unsupported finalizer "finally"
  | none, none => unsupported node "try without catch"
  | none, some handler => do
    let body ← bodyOf (node.field? "body")
    let (name, handling) ← withScope do
      let name ← caughtName (handler.field? "parameter")
      return (name, ← bodyOf (handler.field? "body"))
    return [.line "try \x7b", .nest body, .line ("\x7d catch (" ++ name ++ ": Dynamic) \x7b"),
      .nest handling, .line "\x7d"]

def blockStatement (node : Part) : Lowering (List Code) := do
  return [.line "\x7b", .nest (← blockStatements node), .line "\x7d"]

/-- A rule for a statement that always fails. -/
def refuseStatement (detail : String) (node : Part) : Lowering (List Code) :=
  unsupported node detail

def statementRules : List (String × (Part → Lowering (List Code))) :=
  [("statement_block", blockStatement),
   ("expression_statement", expressionStatement),
   ("lexical_declaration", declaration),
   ("variable_declaration", declaration),
   ("if_statement", conditional "if "),
   ("while_statement", whileStatement),
   ("do_statement", doStatement),
   ("for_statement", forStatement),
   ("for_in_statement", forInStatement),
   ("break_statement", breakStatement),
   ("continue_statement", continueStatement),
   ("return_statement", returnStatement),
   ("throw_statement", throwStatement),
   ("empty_statement", fun _ => return []),
   ("function_declaration", localFunction),
   ("switch_statement", switchStatement),
   ("try_statement", tryStatement),
   ("labeled_statement", refuseStatement "labeled statement"),
   ("class_declaration", refuseStatement "class declared inside a body"),
   ("abstract_class_declaration", refuseStatement "class declared inside a body"),
   ("interface_declaration", refuseStatement "type declared inside a body"),
   ("type_alias_declaration", refuseStatement "type declared inside a body"),
   ("enum_declaration", refuseStatement "type declared inside a body")]

def renderStatement (node : Part) : Lowering (List Code) :=
  match statementRules.lookup node.kind with
  | some rule => rule node
  | none => unsupported node ("statement of kind " ++ node.kind)

def rendering (token : TypeScript.Token) (children : List Part) : Rendering :=
  let node := partOf token children
  { type := renderType node
    expression := renderExpression node
    statement := renderStatement node
    alternative := renderAlternative node (renderStatement node)
    unpack := renderUnpack node }

def rendered (tree : TypeScript.Node) : Part := tree.annotate rendering

end Haxify.Lower
