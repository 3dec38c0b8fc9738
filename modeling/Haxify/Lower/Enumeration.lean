import Haxify.Haxe.Code
import Haxify.Haxe.Name
import Haxify.Haxe.Quoted
import Haxify.Lower.Number
import Haxify.Text.Fresh
import Haxify.TypeScript.Tree

/-!
# Enumerations

Enumerations and unions of string literals become enum abstracts: a name for each
value over an underlying type. A member without a value counts on from the one
before it.
-/

namespace Haxify.Lower

open Number (Binary64 Decimal)

/-- An enum abstract: its members with their values as they are written. -/
structure EnumAbstract where
  name : String
  underlying : String
  /-- Names and values in order. -/
  members : List (String × String)
deriving DecidableEq, Repr

def EnumAbstract.code (enumeration : EnumAbstract) (visibility : String) : List Haxe.Code :=
  let type := enumeration.underlying
  Haxe.Code.block
    (visibility ++ "enum abstract " ++ enumeration.name ++ "(" ++ type ++ ") from " ++ type ++
      " to "
      ++ type)
    (enumeration.members.map fun (name, value) =>
      .line ("var " ++ name ++ " = " ++ value ++ ";"))

/-- The value of an integer literal in a radix, which fits in 64 bits with a sign. -/
def radixValue? (radix : Nat) (digits : List Char) : Option Binary64 :=
  if digits.isEmpty then none
  else ((digitsUpTo? radix 0 digits).filter (· < Nat.pow 2 63)).map fun value => .ofInt value

def numberValue? (literal : String) : Option Binary64 :=
  let raw := Text.without '_' literal
  let lower := Text.lowerCase raw
  if Text.beginsWith lower "0x" then radixValue? 16 (raw.toList.drop 2)
  else if Text.beginsWith lower "0o" then radixValue? 8 (raw.toList.drop 2)
  else if Text.beginsWith lower "0b" then radixValue? 2 (raw.toList.drop 2)
  else (Decimal.read? raw).map Decimal.toBinary64

/-- The value of an initializer: a number or its negative, in any parentheses. -/
def initializerValue? {α : Type} (initializer : TypeScript.Tree α) : Option Binary64 :=
  let node := initializer.unparenthesized
  if node.kind == "number" then numberValue? node.text
  else if node.kind == "unary_expression" && (node.field? "operator").any (·.text == "-") then
    (((node.field? "argument").filter (·.kind == "number")).bind fun argument =>
      numberValue? argument.text).map Binary64.negate
  else none

/-- How a value is written: as an integer if it is one of less than sixteen digits. -/
def valueText (value : Binary64) : String :=
  match value.toInt? with
  | some integer => if integer.natAbs < Nat.pow 10 15 then toString integer else value.display
  | none => value.display

/-- A member of an enumeration as it is declared. -/
structure EnumMember (α : Type) where
  /-- The whole member. -/
  node : TypeScript.Tree α
  name : String
  /-- Its initializer. -/
  value? : Option (TypeScript.Tree α)

/-- Why an enumeration has no Haxe form: a part of it, and what is wrong. -/
abbrev EnumError := TypeScript.Token × String

def enumMemberName {α : Type} (name : TypeScript.Tree α) : Except EnumError String :=
  if name.kind == "property_identifier" then .ok (Haxe.sanitize name.text)
  else if name.kind == "string" then .ok (Haxe.sanitize (TypeScript.decodeLiteral name.text))
  else .error (name.token, "enum member name")

def enumMember {α : Type} (node : TypeScript.Tree α) : Except EnumError (EnumMember α) :=
  if node.kind == "enum_assignment" then
    match node.field? "name" with
    | some name => do return ⟨node, ← enumMemberName name, node.field? "value"⟩
    | none => .error (node.token, "enum member without a name")
  else do return ⟨node, ← enumMemberName node, none⟩

def stringMembers {α : Type} : List (EnumMember α) → Except EnumError (List (String × String))
  | [] => .ok []
  | member :: rest =>
    match member.value?.filter (·.kind == "string") with
    | some value => do
      let others ← stringMembers rest
      return (member.name, Haxe.quote (TypeScript.decodeLiteral value.text)) :: others
    | none => .error (member.node.token, "mixed enum initializers")

/-- The members of an enumeration of numbers, from the value that the next one has if it
has none of its own. -/
def numberMembers {α : Type} (next : Binary64) :
    List (EnumMember α) → Except EnumError (List (String × String))
  | [] => .ok []
  | member :: rest => do
    let value ← match member.value? with
      | none => pure next
      | some initializer =>
        match initializerValue? initializer with
        | some value => pure value
        | none => .error (initializer.token, "computed enum initializer")
    let others ← numberMembers value.succ rest
    return (member.name, valueText value) :: others

def enumeration {α : Type} (name : String) (nodes : List (TypeScript.Tree α)) :
    Except EnumError EnumAbstract := do
  let members ← nodes.mapM enumMember
  if members.any fun member => member.value?.any (·.kind == "string") then
    return ⟨name, "String", ← stringMembers members⟩
  else return ⟨name, "Float", ← numberMembers (.zero false) members⟩

def literalArm? {α : Type} (arm : TypeScript.Tree α) : Option String :=
  (arm.first?.filter fun inner => arm.kind == "literal_type" && inner.kind == "string").map
    fun inner => TypeScript.decodeLiteral inner.text

def literalUnion? {α : Type} (node : TypeScript.Tree α) : Option (List String) :=
  if node.kind == "union_type" then
    ((node.flatten "union_type").mapM literalArm?).map List.eraseDups
  else none

def literalMembers (used : List String) : List String → List (String × String)
  | [] => []
  | literal :: rest =>
    let name := Text.freshName (Haxe.moduleName literal) used
    (name, Haxe.quote literal) :: literalMembers (name :: used) rest

def literalEnum (name : String) (literals : List String) : EnumAbstract :=
  ⟨name, "String", literalMembers [] literals⟩

end Haxify.Lower
