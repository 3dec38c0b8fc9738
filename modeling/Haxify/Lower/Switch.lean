import Haxify.Haxe.Parentheses
import Haxify.Lower.Rendering

/-!
# Switches

A Haxe case does not run on into the next one. Clauses without statements share
the body of the next clause that has some; a body that would run on has no Haxe
form. The default comes last, and labels that share its body need no case.
-/

namespace Haxify.Lower

/-- One clause of a switch: a label, or none for the default, and its statements. -/
structure Clause (α : Type) where
  token : TypeScript.Token
  label : Option String
  /-- Its statements; none at all if it shares those of the next clause. -/
  body : List α

/-- The clauses that share one body. -/
structure Arm (α : Type) where
  /-- Where the first of the clauses stands. -/
  token : TypeScript.Token
  labels : List String
  isDefault : Bool
  body : List α

/-- An arm with a clause without statements in front. -/
def Arm.joining {α : Type} (clause : Clause α) (arm : Arm α) : Arm α :=
  { arm with
    token := clause.token
    labels := clause.label.toList ++ arm.labels
    isDefault := clause.label.isNone || arm.isDefault }

def Clause.arm {α : Type} (clause : Clause α) (body : List α) : Arm α :=
  ⟨clause.token, clause.label.toList, clause.label.isNone, body⟩

/-- The arms of clauses: one for each clause with statements, with those before it that
have none, and one without statements for those at the end. `opened` takes a body out of
its braces. -/
def arms {α : Type} (opened : List α → List α) : List (Clause α) → List (Arm α)
  | [] => []
  | clause :: rest =>
    if clause.body.isEmpty then
      match arms opened rest with
      | [] => [clause.arm []]
      | next :: others => next.joining clause :: others
    else clause.arm (opened clause.body) :: arms opened rest

/-- The first arm that would run on into the next one: it has statements, is not the last
one, and its last statement does not end it. -/
def fallsThrough? {α : Type} (ends : α → Bool) : List (Arm α) → Option (Arm α)
  | [] => none
  | [_] => none
  | arm :: next :: rest =>
    if !arm.body.isEmpty && !arm.body.getLast?.any ends then some arm
    else fallsThrough? ends (next :: rest)

/-- The statements of a body in braces, if it is nothing else. -/
def openedBody {α : Type} (body : List (TypeScript.Tree α)) : List (TypeScript.Tree α) :=
  match body with
  | [only] => if only.kind == "statement_block" then only.named else body
  | _ => body

/-- Whether control never runs on behind a statement. -/
def terminates (statement : Part) : Bool :=
  (statement.annotate fun token (below : List (TypeScript.Tree Bool)) =>
    ["break_statement", "return_statement", "throw_statement", "continue_statement"].contains
        token.kind
      || token.kind == "statement_block"
        && ((below.filter fun part => part.isNamed && part.kind != "comment").getLast?.any
          (·.value))).value

def isDottedName (node : Part) : Bool :=
  (node.annotate fun token (below : List (TypeScript.Tree Bool)) =>
    let holds (field : String) := (below.find? (·.token.field == field)).any (·.value)
    token.kind == "identifier" || token.kind == "property_identifier"
      || token.kind == "member_expression" && !(below.any (·.kind == "optional_chain"))
        && holds "object" && holds "property").value

def isNegativeNumber {α : Type} (label : TypeScript.Tree α) : Bool :=
  label.kind == "unary_expression" && (label.field? "operator").any (·.text == "-")
    && (label.field? "argument").any (·.kind == "number")

/-- A label that Haxe can match on: a literal, a negative number or a dotted name. -/
def caseLabel (node : Part) : Lowering String :=
  let label := node.unparenthesized
  if ["number", "string", "true", "false", "null"].contains label.kind then label.value.expression
  else if isNegativeNumber label then return Text.without ' ' label.text
  else if label.kind == "member_expression" && isDottedName label then label.value.expression
  else if label.kind == "parenthesized_expression" then unsupported label "empty case value"
  else unsupported label "case value must be a literal or a dotted name"

def switchClause (node : Part) : Lowering (Clause Part) := do
  let label ←
    if node.kind == "switch_case" then
      match node.field? "value" with
      | some label => pure (some (← caseLabel label))
      | none => unsupported node "case without a value"
    else if node.kind == "switch_default" then pure none
    else unsupported node "switch member"
  return ⟨node.token, label, node.fields "body"⟩

/-- The statements of an arm without the jump that ends it. -/
def withoutBreak {α : Type} (body : List (TypeScript.Tree α)) : List (TypeScript.Tree α) :=
  match body.getLast? with
  | some last =>
    if last.kind == "break_statement" && (last.field? "label").isNone then body.dropLast else body
  | none => body

def armCode (heading : String) (arm : Arm Part) : Lowering (List Haxe.Code) := do
  let body ← withScope (withJump .switch (statements (withoutBreak arm.body)))
  return [.line heading, .nest body]

def Arm.heading {α : Type} (arm : Arm α) : String :=
  "case " ++ Text.joinWith ", " arm.labels ++ ":"

def switchCode (subject : String) (arms : List (Arm Part)) : Lowering (List Haxe.Code) := do
  let cases ← forEach (arms.filter (!·.isDefault)) fun arm => armCode arm.heading arm
  let default ← forEach (arms.filter (·.isDefault)).getLast?.toList (armCode "default:")
  return Haxe.Code.block ("switch " ++ subject) (cases.flatten ++ default.flatten)

def switchStatement (node : Part) : Lowering (List Haxe.Code) :=
  match node.field? "value", node.field? "body" with
  | some value, some body => do
    let subject := Haxe.parenthesize (← value.value.expression)
    let arms := arms openedBody (← forEach body.named switchClause)
    match fallsThrough? terminates arms with
    | some arm => unsupportedToken arm.token "case falls through into the next case"
    | none => switchCode subject arms
  | _, _ => unsupported node "incomplete switch"

end Haxify.Lower
